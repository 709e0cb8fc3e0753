import Spcedp.Model.PyText

/-!
# What the string methods give

Laws of `int`, `str` and `strip` on the texts that the sources pass them: a run of decimal
digits is a number up to the digit limit, a printed number reads back, and `strip` takes the
white space off both ends and nothing else.
-/

set_option autoImplicit false

namespace Spcedp.PyText

/-! ## `strip` -/

/-- Nothing is taken off a list with no letter of the class at its ends. -/
theorem strip_ends_eq_self {p : ℕ → Bool} {s : Text} (hhead : ∀ c ∈ s.head?, p c = false)
    (hlast : ∀ c ∈ s.getLast?, p c = false) :
    ((s.dropWhile p).reverse.dropWhile p).reverse = s := by
  have hfront : ∀ t : Text, (∀ c ∈ t.head?, p c = false) → t.dropWhile p = t := by
    intro t ht
    cases t with
    | nil => rfl
    | cons c t => exact List.dropWhile_cons_of_neg (by simp [ht c (by simp)])
  rw [hfront s hhead, hfront s.reverse (by simpa [List.head?_reverse] using hlast),
    List.reverse_reverse]

/-- Nothing is stripped from a text with no white space at its ends. -/
theorem strip_eq_self {s : Text} (hhead : ∀ c ∈ s.head?, isSpace c = false)
    (hlast : ∀ c ∈ s.getLast?, isSpace c = false) : strip s = s := strip_ends_eq_self hhead hlast

/-! ## Decimal digits -/

/-- A decimal is one of ten behind a zero of some script. -/
theorem isDecimal_iff (c : ℕ) : isDecimal c ↔ ∃ z ∈ decimalZeros, ∃ i < 10, c = z + i := by
  unfold isDecimal decimalValue
  rw [Option.isSome_map, List.find?_isSome]
  refine exists_congr fun z => and_congr_right fun _ => ?_
  rw [Bool.and_eq_true, decide_eq_true_eq, decide_eq_true_eq]
  constructor
  · intro h
    exact ⟨c - z, by omega, by omega⟩
  · rintro ⟨i, hi, rfl⟩
    omega

/-- What holds of the characters of every run of ten digits holds of every decimal digit. -/
theorem forall_isDecimal {P : ℕ → Prop} (h : ∀ z ∈ decimalZeros, ∀ i < 10, P (z + i)) {c : ℕ}
    (hc : isDecimal c) : P c := by
  obtain ⟨z, hz, i, hi, rfl⟩ := (isDecimal_iff c).mp hc
  exact h z hz i hi

/-- No decimal digit is a sign, an underscore, a separator or white space. -/
theorem isDecimal_plain {c : ℕ} (hc : isDecimal c) :
    c ∉ [0x2B, 0x2D, 0x5D, 0x5F, 0x7C] ∧ isSpace c = false ∧ isIntSpace c = false := by
  refine forall_isDecimal (P := fun c => c ∉ [0x2B, 0x2D, 0x5D, 0x5F, 0x7C] ∧
    isSpace c = false ∧ isIntSpace c = false) ?_ hc
  decide +kernel

/-- Every decimal is a digit. -/
theorem isDigitChar_of_isDecimal {c : ℕ} (hc : isDecimal c) : isDigitChar c := by
  unfold isDigitChar
  rw [hc, Bool.true_or]

/-- No digit is a sign, an underscore or white space. -/
theorem isDigitChar_plain {c : ℕ} (hc : isDigitChar c) :
    c ∉ [0x2B, 0x2D, 0x5F] ∧ isIntSpace c = false := by
  unfold isDigitChar at hc
  rw [Bool.or_eq_true, List.any_eq_true] at hc
  obtain hdec | ⟨run, hrun, hin⟩ := hc
  · obtain ⟨hsign, -, hspace⟩ := isDecimal_plain hdec
    refine ⟨fun hmem => hsign ?_, hspace⟩
    exact List.Sublist.subset (by decide) hmem
  · have hruns : ∀ run ∈ digitRuns, ∀ i < run.2 + 1 - run.1,
        run.1 + i ∉ [0x2B, 0x2D, 0x5F] ∧ isIntSpace (run.1 + i) = false := by
      decide +kernel
    rw [Bool.and_eq_true, decide_eq_true_eq, decide_eq_true_eq] at hin
    have hc : run.1 + (c - run.1) = c := by omega
    rw [← hc]
    exact hruns run hrun (c - run.1) (by omega)

/-- The value of a decimal is below ten. -/
theorem decimalValue_lt {c n : ℕ} (h : decimalValue c = some n) : n < 10 := by
  unfold decimalValue at h
  obtain ⟨z, hz, rfl⟩ := Option.map_eq_some_iff.mp h
  have := List.find?_some hz
  simp only [Bool.and_eq_true, decide_eq_true_eq] at this
  omega

/-- The value of a digit, zero for every other character. -/
theorem decimalValue_getD_lt (c : ℕ) : (decimalValue c).getD 0 < 10 := by
  cases h : decimalValue c with
  | none => simp
  | some n => exact decimalValue_lt h

/-- Where all are decimals, each has its value. -/
theorem mapM_decimalValue {s : Text} (h : ∀ c ∈ s, isDecimal c) :
    s.mapM decimalValue = some (s.map fun c => (decimalValue c).getD 0) := by
  induction s with
  | nil => rfl
  | cons c s ih =>
      obtain ⟨n, hn⟩ := Option.isSome_iff_exists.mp (h c (by simp))
      rw [List.mapM_cons, ih fun d hd => h d (by simp [hd]), hn]
      simp [hn]

/-- Where one is no decimal, `int` fails. -/
theorem mapM_decimalValue_none {s : Text} (h : ∃ c ∈ s, ¬isDecimal c) :
    s.mapM decimalValue = none := by
  obtain ⟨c, hc, hnot⟩ := h
  have hvalue : decimalValue c = none := by simpa [isDecimal] using hnot
  induction s with
  | nil => simp at hc
  | cons d s ih =>
      rw [List.mapM_cons]
      obtain rfl | hc := List.mem_cons.mp hc
      · rw [hvalue]
        rfl
      · rw [ih hc]
        cases decimalValue d <;> rfl

/-! ## `int` -/

/-- The value of two rows of digits. -/
theorem ofDigits_append (ds es : List ℕ) :
    ofDigits (ds ++ es) = 10 ^ es.length * ofDigits ds + ofDigits es := by
  induction es using List.reverseRecOn with
  | nil => simp [ofDigits]
  | append_singleton es e ih =>
      have hsnoc : ∀ xs : List ℕ, ofDigits (xs ++ [e]) = 10 * ofDigits xs + e := by
        intro xs
        simp [ofDigits]
      rw [← List.append_assoc, hsnoc, hsnoc, ih, List.length_append, List.length_singleton,
        pow_succ']
      ring

/-- The value of some digits is below the power of ten of their number. -/
theorem ofDigits_lt {ds : List ℕ} (h : ∀ d ∈ ds, d < 10) : ofDigits ds < 10 ^ ds.length := by
  induction ds using List.reverseRecOn with
  | nil => simp [ofDigits]
  | append_singleton ds d ih =>
      have hd : d < 10 := h d (by simp)
      have hds := ih fun e he => h e (by simp [he])
      have hone : ofDigits [d] = d := by simp [ofDigits]
      rw [ofDigits_append, List.length_append, List.length_singleton, pow_one, pow_succ, hone]
      omega

/-- `int` of characters that are no sign, no underscore and no white space: each of them must
be a decimal digit. -/
theorem pyInt_plain {s : Text} (hne : s ≠ [])
    (h : ∀ c ∈ s, c ∉ [0x2B, 0x2D, 0x5F] ∧ isIntSpace c = false) : pyInt s =
      (s.mapM decimalValue).bind fun ds =>
        if ds.length > maxStrDigits then none else some (ofDigits ds : ℤ) := by
  have hspace : ∀ c ∈ s, isIntSpace c = false := fun c hc => (h c hc).2
  have hbody : ((s.dropWhile isIntSpace).reverse.dropWhile isIntSpace).reverse = s :=
    strip_ends_eq_self (fun c hc => hspace c (List.mem_of_mem_head? hc))
      fun c hc => hspace c (List.mem_of_getLast? hc)
  have hplain : ∀ x ∈ [0x2B, 0x2D, 0x5F], x ∉ s := fun x hx hmem => (h x hmem).1 hx
  have hdigits : intDigits s = s.mapM decimalValue := by
    have hfilter : s.filter (· ≠ 0x5F) = s := by
      refine List.filter_eq_self.mpr fun c hc => ?_
      simpa using ne_of_mem_of_not_mem hc (hplain 0x5F (by simp))
    rw [intDigits, List.splitOn_eq_singleton (hplain 0x5F (by simp)), hfilter,
      if_pos (by simpa using hne)]
  unfold pyInt
  simp only [hbody]
  split
  · exact absurd List.mem_cons_self (hplain 0x2D (by simp))
  · exact absurd List.mem_cons_self (hplain 0x2B (by simp))
  · dsimp only
    rw [hdigits]
    rfl

/-- **`int` of decimal digits.** A run of decimal digits is a number, unless it is longer than
the digit limit. -/
theorem pyInt_decimals {s : Text} (hne : s ≠ []) (h : ∀ c ∈ s, isDecimal c) :
    pyInt s = if s.length > maxStrDigits then none
      else some (ofDigits (s.map fun c => (decimalValue c).getD 0) : ℤ) := by
  rw [pyInt_plain hne fun c hc => isDigitChar_plain (isDigitChar_of_isDecimal (h c hc)),
    mapM_decimalValue h, Option.bind_some, List.length_map]

/-- **Where `int` fails behind `isdigit`**: on a digit that is not a decimal one, and on more
digits than the limit. -/
theorem pyInt_isdigit {s : Text} (h : isdigit s) :
    pyInt s = none ↔ (∃ c ∈ s, ¬isDecimal c) ∨ maxStrDigits < s.length := by
  unfold isdigit at h
  rw [Bool.and_eq_true, List.all_eq_true] at h
  have hne : s ≠ [] := by simpa using h.1
  by_cases hdec : ∀ c ∈ s, isDecimal c
  · rw [pyInt_decimals hne hdec]
    have hno : ¬∃ c ∈ s, ¬isDecimal c := by
      rintro ⟨c, hc, hnot⟩
      exact hnot (hdec c hc)
    by_cases hlen : s.length > maxStrDigits
    · rw [if_pos hlen]
      exact iff_of_true rfl (.inr hlen)
    · rw [if_neg hlen]
      exact iff_of_false (by simp) (not_or.mpr ⟨hno, hlen⟩)
  · push Not at hdec
    rw [pyInt_plain hne fun c hc => isDigitChar_plain (h.2 c hc), mapM_decimalValue_none hdec]
    exact iff_of_true rfl (.inl hdec)

/-! ## `str` -/

/-- The ASCII digits have their values. -/
theorem decimalValue_ascii {i : ℕ} (hi : i < 10) : decimalValue (0x30 + i) = some i := by
  interval_cases i <;> decide

/-- Reading digits adds them up. -/
theorem foldl_decimalValue {l : List Char} (hl : ∀ c ∈ l, ∃ i < 10, c.toNat = 0x30 + i) (m : ℕ) :
    ((l.map Char.toNat).map fun c => (decimalValue c).getD 0).foldl (fun n d => 10 * n + d) m =
      Nat.ofDigitChars 10 l m := by
  induction l generalizing m with
  | nil => simp
  | cons c l ih =>
      obtain ⟨i, hi, hci⟩ := hl c (by simp)
      rw [List.map_cons, List.map_cons, List.foldl_cons, ih fun c hc => hl c (by simp [hc]),
        hci, decimalValue_ascii hi, Nat.ofDigitChars_cons, hci]
      simp

/-- A number is printed in ASCII digits. -/
theorem mem_toDigits {n : ℕ} {c : Char} (hc : c ∈ Nat.toDigits 10 n) :
    ∃ i < 10, c.toNat = 0x30 + i := by
  have hdigit := Nat.isDigit_of_mem_toDigits (by omega) (by omega) hc
  rw [Char.isDigit_iff_toNat] at hdigit
  have hzero : '0'.toNat = 0x30 := rfl
  have hnine : '9'.toNat = 0x39 := rfl
  exact ⟨c.toNat - 0x30, by omega, by omega⟩

/-- **A number reads back.** What `str` prints for a natural number is a run of decimal digits
that spell the number. -/
theorem pyStr_decimals {n : ℕ} {d : Text} (h : pyStr n = some d) :
    d ≠ [] ∧ (∀ c ∈ d, isDecimal c) ∧ d.length ≤ maxStrDigits ∧ pyInt d = some (n : ℤ) := by
  have hd : d = (Nat.toDigits 10 n).map Char.toNat ∧ d.length ≤ maxStrDigits := by
    unfold pyStr at h
    dsimp only at h
    split at h
    · cases h
    next hlen =>
      rw [if_neg (by omega), Int.natAbs_natCast, Option.some.injEq] at h
      rw [Int.natAbs_natCast, not_lt, h] at hlen
      exact ⟨h.symm, hlen⟩
  obtain ⟨rfl, hlen⟩ := hd
  have hdec : ∀ c ∈ (Nat.toDigits 10 n).map Char.toNat, isDecimal c := by
    intro c hc
    obtain ⟨x, hx, rfl⟩ := List.mem_map.mp hc
    obtain ⟨i, hi, hci⟩ := mem_toDigits hx
    rw [isDecimal, hci, decimalValue_ascii hi]
    rfl
  have hne : (Nat.toDigits 10 n).map Char.toNat ≠ [] := by simp
  refine ⟨hne, hdec, hlen, ?_⟩
  rw [pyInt_decimals hne hdec, if_neg (by omega), ofDigits,
    foldl_decimalValue fun c hc => mem_toDigits hc,
    Nat.ofDigitChars_ten_toDigits]

/-- A number is printed as a sign, where it is negative, and its digits. -/
theorem text_toString (n : ℤ) : text (toString n) =
    (if n < 0 then [0x2D] else []) ++ (Nat.toDigits 10 n.natAbs).map Char.toNat := by
  rw [Int.toString_eq_repr, Int.repr_eq_if]
  by_cases h : n < 0
  · have habs : (-n).toNat = n.natAbs := by omega
    rw [if_neg (by omega), if_pos h, habs]
    simp [text]
  · have habs : n.toNat = n.natAbs := by omega
    rw [if_pos (by omega), if_neg h, habs]
    simp [text]

/-- `str` prints the decimal digits with their sign, up to the limit on the digits. -/
theorem pyStr_eq (n : ℤ) : pyStr n =
    if n.natAbs < 10 ^ maxStrDigits then some (text (toString n)) else none := by
  have hlen : ((Nat.toDigits 10 n.natAbs).map Char.toNat).length ≤ maxStrDigits ↔
      n.natAbs < 10 ^ maxStrDigits := by
    rw [List.length_map]
    exact Nat.length_toDigits_le_iff (by omega) (by decide)
  unfold pyStr
  dsimp only
  rw [text_toString]
  by_cases h : n.natAbs < 10 ^ maxStrDigits
  · rw [if_pos h, if_neg (not_lt.mpr (hlen.mpr h))]
    split_ifs <;> rfl
  · rw [if_neg h, if_pos (not_le.mp fun hle => h (hlen.mp hle))]

end Spcedp.PyText
