import Spcedp.Interface.PyText
import Spcedp.Lib.Fields
import Spcedp.Model.Events

/-!
# The text of an event

`EventText` is a well formed event: a panel id of decimal digits, fourteen digits of
timestamp, and five fields of which all but the description are free of `|`. `parse` accepts
exactly the texts of such events, up to white space at the ends, and gives back the fields.
-/

set_option autoImplicit false

namespace Spcedp.Events

open Spcedp.PyText Lib.Fields

/-! ## The grammar -/

/-- `E2[#d|s|r]`. -/
def envelope (d s r : Text) : Text := text "E2[#" ++ d ++ pipe :: s ++ pipe :: r ++ [0x5D]

/-- The five fields behind the timestamp, joined. -/
def joined (code address description extra vid : Text) : Text :=
  code ++ pipe :: (address ++ pipe :: (description ++ pipe :: extra ++ pipe :: vid))

/-- A number that `int` accepts, spelt with decimal digits alone. -/
structure Decimals (d : Text) : Prop where
  nonempty : d ≠ []
  decimal : ∀ c ∈ d, isDecimal c
  limit : d.length ≤ maxStrDigits

/-- The fourteen digits of a timestamp. -/
structure Stamp (s : Text) : Prop where
  length : s.length = 14
  decimal : ∀ c ∈ s, isDecimal c

/-- The parts of an event's text. -/
structure EventText where
  spc : Text
  ts : Text
  code : Text
  address : Text
  description : Text
  extra : Text
  vid : Text
  spc_decimals : Decimals spc
  ts_stamp : Stamp ts
  code_free : pipe ∉ code
  address_free : pipe ∉ address
  extra_free : pipe ∉ extra
  vid_free : pipe ∉ vid

namespace EventText

/-- What stands behind the timestamp. -/
def rest (x : EventText) : Text := joined x.code x.address x.description x.extra x.vid

/-- The event as the panel writes it. -/
def text (x : EventText) : Text := envelope x.spc x.ts x.rest

/-- The event as the client reads it. -/
def event (x : EventText) : SiaEvent where
  spcId := digitsValue x.spc
  timestamp := parseTimestamp x.ts
  timestampRaw := x.ts
  siaCode := x.code
  address := x.address
  description := x.description
  verificationId := x.vid
  extra := x.extra

end EventText

/-! ## The regular expression -/

/-- A list with letters `x` at two places. -/
theorem take_drop_iff {s a b : Text} {n : ℕ} {x : ℕ} :
    s.take n = a ∧ a.length = n ∧ (s.drop n).head? = some x ∧ s.drop (n + 1) = b ↔
      s = a ++ x :: b ∧ a.length = n := by
  constructor
  · rintro ⟨rfl, hlen, hhead, rfl⟩
    refine ⟨?_, hlen⟩
    obtain ⟨rest, hrest⟩ := List.head?_eq_some_iff.mp hhead
    rw [← List.drop_drop, hrest, List.drop_one, List.tail_cons, ← hrest, List.take_append_drop]
  · rintro ⟨rfl, rfl⟩
    simp

/-- **The envelope.** The expression matches exactly the texts of its shape, and gives their
parts. -/
theorem matchEnvelope_eq_some_iff {u d s r : Text} :
    matchEnvelope u = some (d, s, r) ↔
      u = envelope d s r ∧ d ≠ [] ∧ (∀ c ∈ d, isDecimal c) ∧ Stamp s := by
  have hpipe : isDecimal pipe = false := by decide +kernel
  constructor
  · intro h
    unfold matchEnvelope at h
    split at h
    next hprefix =>
      obtain ⟨v, rfl⟩ := List.isPrefixOf_iff_prefix.mp hprefix
      rw [show (text "E2[#" ++ v).drop 4 = v from rfl] at h
      dsimp only at h
      split at h
      next hparts =>
        obtain ⟨hne, hhead, hlen, hdec, hhead', hlast⟩ := hparts
        obtain ⟨q, hq⟩ := List.head?_eq_some_iff.mp hhead
        obtain ⟨hv, hspc⟩ := (span_eq_iff hpipe).mp ⟨rfl, hq⟩
        rw [hq] at h hlen hdec hhead' hlast
        simp only [List.drop_succ_cons, List.drop_zero] at h hlen hdec hhead' hlast
        rw [Option.some.injEq, Prod.mk.injEq, Prod.mk.injEq] at h
        obtain ⟨rfl, rfl, rfl⟩ := h
        have hrest := List.dropLast_append_getLast? _ hlast
        obtain ⟨htail, -⟩ := take_drop_iff.mp ⟨rfl, hlen, hhead', hrest.symm⟩
        refine ⟨?_, hne, hspc, hlen, by simpa using hdec⟩
        unfold envelope
        simp only [List.append_assoc, List.cons_append]
        rw [← htail, ← hv]
      next => cases h
    next => cases h
  · rintro ⟨rfl, hne, hdec, hlen, hstamp⟩
    have hdrop : (envelope d s r).drop 4 = d ++ pipe :: (s ++ pipe :: (r ++ [0x5D])) := by
      simp [envelope, text]
    have hprefix : (text "E2[#").isPrefixOf (envelope d s r) := by
      rw [List.isPrefixOf_iff_prefix]
      exact ⟨d ++ pipe :: (s ++ pipe :: (r ++ [0x5D])), by simp [envelope]⟩
    obtain ⟨htake, hdropWhile⟩ := (span_eq_iff (b := s ++ pipe :: (r ++ [0x5D])) hpipe).mpr
      ⟨hdrop, hdec⟩
    obtain ⟨hts, -, hhead, hrest⟩ := take_drop_iff.mpr
      ⟨(rfl : s ++ pipe :: (r ++ [0x5D]) = _), hlen⟩
    unfold matchEnvelope
    rw [if_pos hprefix]
    dsimp only
    rw [htake, hdropWhile]
    simp only [List.drop_succ_cons, List.drop_zero]
    rw [hts, hhead, hrest, if_pos ⟨hne, by simp, hlen, by simpa using hstamp, rfl, by simp⟩]
    simp

/-! ## The two splits -/

/-- `partition` on a pipe is a cut at the first one. -/
theorem splitPipe_eq (s : Text) : splitPipe s = cut pipe s := rfl

/-- `rpartition` on a pipe is a cut at the last one. -/
theorem rsplitPipe_eq (s : Text) : rsplitPipe s = rcut pipe s := rfl

/-- **The fields.** The splits find the five fields of a joined text. -/
theorem splitRest_eq_some_iff {r code addr desc extra vid : Text} :
    splitRest r = some (code, addr, desc, extra, vid) ↔
      r = joined code addr desc extra vid ∧
        pipe ∉ code ∧ pipe ∉ addr ∧ pipe ∉ extra ∧ pipe ∉ vid := by
  unfold splitRest joined
  simp only [splitPipe_eq, rsplitPipe_eq, Option.bind_eq_bind, Option.bind_eq_some_iff,
    Option.pure_def, Option.some.injEq, Prod.exists, Prod.mk.injEq, cut_eq_some_iff,
    rcut_eq_some_iff]
  constructor
  · rintro ⟨_, _, ⟨rfl, hcode⟩, _, _, ⟨rfl, haddr⟩, _, _, ⟨rfl, hvid⟩, _, _, ⟨rfl, hextra⟩,
      rfl, rfl, rfl, rfl, rfl⟩
    exact ⟨rfl, hcode, haddr, hextra, hvid⟩
  · rintro ⟨rfl, hcode, haddr, hextra, hvid⟩
    exact ⟨_, _, ⟨rfl, hcode⟩, _, _, ⟨rfl, haddr⟩, _, _, ⟨rfl, hvid⟩, _, _, ⟨rfl, hextra⟩,
      rfl, rfl, rfl, rfl, rfl⟩

/-- Four separators are what the splits need. -/
theorem splitRest_isSome_iff {r : Text} : (splitRest r).isSome ↔ 4 ≤ r.count pipe := by
  constructor
  · intro h
    obtain ⟨⟨code, addr, desc, extra, vid⟩, hsplit⟩ := Option.isSome_iff_exists.mp h
    obtain ⟨rfl, -⟩ := splitRest_eq_some_iff.mp hsplit
    simp only [joined, List.count_append, List.count_cons_self]
    omega
  · intro h
    obtain ⟨code, r₁, rfl, hcode, h₁⟩ := exists_first (x := pipe) (s := r) (by omega)
    obtain ⟨addr, r₂, rfl, haddr, h₂⟩ := exists_first (x := pipe) (s := r₁) (by omega)
    obtain ⟨r₃, vid, rfl, hvid, h₃⟩ := exists_last (x := pipe) (s := r₂) (by omega)
    obtain ⟨desc, extra, rfl, hextra, -⟩ := exists_last (x := pipe) (s := r₃) (by omega)
    exact Option.isSome_iff_exists.mpr
      ⟨_, splitRest_eq_some_iff.mpr ⟨rfl, hcode, haddr, hextra, hvid⟩⟩

/-! ## Parsing -/

/-- The text of an event stands without white space at its ends. -/
theorem EventText.strip_text (x : EventText) : strip x.text = x.text := by
  apply strip_eq_self
  · intro c hc
    obtain rfl : 0x45 = c := by simpa [EventText.text, envelope, PyText.text] using hc
    decide
  · intro c hc
    rw [EventText.text, envelope, List.getLast?_concat, Option.mem_some_iff] at hc
    rw [← hc]
    decide

/-- **Parsing.** A text is accepted when it is that of an event, and read as that event. -/
theorem parse_eq_ok_iff {t : Text} {e : SiaEvent} :
    SiaEvent.parse t = .ok e ↔ ∃ x : EventText, strip t = x.text ∧ x.event = e := by
  constructor
  · intro h
    unfold SiaEvent.parse at h
    cases hmatch : matchEnvelope (strip t) with
    | none => simp [hmatch] at h
    | some parts =>
        obtain ⟨spc, ts, rest⟩ := parts
        rw [hmatch] at h
        dsimp only at h
        cases hsplit : splitRest rest with
        | none => simp [hsplit] at h
        | some fields =>
            obtain ⟨code, addr, desc, extra, vid⟩ := fields
            rw [hsplit] at h
            dsimp only at h
            split at h
            · cases h
            next hlimit =>
              cases h
              obtain ⟨hshape, hne, hdec, hstamp⟩ := matchEnvelope_eq_some_iff.mp hmatch
              obtain ⟨rfl, hcode, haddr, hextra, hvid⟩ := splitRest_eq_some_iff.mp hsplit
              exact ⟨⟨spc, ts, code, addr, desc, extra, vid, ⟨hne, hdec, by omega⟩, hstamp,
                hcode, haddr, hextra, hvid⟩, hshape, rfl⟩
  · rintro ⟨x, htext, rfl⟩
    have hmatch : matchEnvelope (strip t) = some (x.spc, x.ts, x.rest) :=
      matchEnvelope_eq_some_iff.mpr
        ⟨htext, x.spc_decimals.nonempty, x.spc_decimals.decimal, x.ts_stamp⟩
    have hsplit : splitRest x.rest = some (x.code, x.address, x.description, x.extra, x.vid) :=
      splitRest_eq_some_iff.mpr ⟨rfl, x.code_free, x.address_free, x.extra_free, x.vid_free⟩
    unfold SiaEvent.parse
    rw [hmatch]
    dsimp only
    rw [hsplit]
    dsimp only
    rw [if_neg (not_lt.mpr x.spc_decimals.limit)]
    rfl

/-- What is written for an event is read as that event. -/
theorem EventText.parse_text (x : EventText) : SiaEvent.parse x.text = .ok x.event :=
  parse_eq_ok_iff.mpr ⟨x, x.strip_text, rfl⟩

/-! ## The clock -/

/-- A date-time that the calendar has, in the years that a `datetime` can have. -/
structure DateTime.Valid (t : DateTime) : Prop where
  year : 1 ≤ t.year ∧ t.year ≤ 9999
  month : 1 ≤ t.month ∧ t.month ≤ 12
  day : 1 ≤ t.day ∧ t.day ≤ daysInMonth t.year t.month
  time : t.hour < 24 ∧ t.minute < 60 ∧ t.second < 60

/-- `s` spells `t` as `HHMMSSDDMMYYYY`. -/
def Spells (s : Text) (t : DateTime) : Prop :=
  ∃ hh mm ss dd mo yyyy : Text, s = hh ++ (mm ++ (ss ++ (dd ++ (mo ++ yyyy)))) ∧
    (hh.length = 2 ∧ mm.length = 2 ∧ ss.length = 2 ∧ dd.length = 2 ∧ mo.length = 2 ∧
      yyyy.length = 4) ∧
    pyInt hh = some (t.hour : ℤ) ∧ pyInt mm = some (t.minute : ℤ) ∧
    pyInt ss = some (t.second : ℤ) ∧ pyInt dd = some (t.day : ℤ) ∧
    pyInt mo = some (t.month : ℤ) ∧ pyInt yyyy = some (t.year : ℤ)

/-- What the clock of the panel shows, on the calendar or not. -/
def clock (s : Text) : DateTime where
  year := digitsValue ((s.take 14).drop 10)
  month := digitsValue ((s.take 10).drop 8)
  day := digitsValue ((s.take 8).drop 6)
  hour := digitsValue ((s.take 2).drop 0)
  minute := digitsValue ((s.take 4).drop 2)
  second := digitsValue ((s.take 6).drop 4)

/-- `int` reads decimals as their value. -/
theorem pyInt_digitsValue {s : Text} (hs : Decimals s) : pyInt s = some (digitsValue s : ℤ) := by
  rw [pyInt_decimals hs.nonempty hs.decimal, if_neg (not_lt.mpr hs.limit)]
  rfl

/-- The value of some digits is below the power of ten of their number. -/
theorem digitsValue_lt (s : Text) : digitsValue s < 10 ^ s.length := by
  have h := @ofDigits_lt (s.map fun c => (decimalValue c).getD 0)
    (by simpa using fun c _ => decimalValue_getD_lt c)
  rwa [List.length_map] at h

/-- Two slices that meet are one slice. -/
theorem slice_append {s : Text} {i j k : ℕ} (hij : i ≤ j) (hjk : j ≤ k) :
    (s.take j).drop i ++ (s.take k).drop j = (s.take k).drop i := by
  have hdrop : (s.take k).drop j = ((s.take k).drop i).drop (j - i) := by
    rw [List.drop_drop, Nat.add_sub_cancel' hij]
  have htake : (s.take j).drop i = ((s.take k).drop i).take (j - i) := by
    rw [← List.drop_take, List.take_take, Nat.min_eq_left hjk]
  rw [hdrop, htake, List.take_append_drop]

/-- A slice between two lengths is what lies between. -/
theorem slice_middle {a p b : Text} {i j : ℕ} (hi : a.length = i) (hj : i + p.length = j) :
    ((a ++ (p ++ b)).take j).drop i = p := by
  subst hi hj
  rw [← List.append_assoc, List.take_left' (by simp), List.drop_left]

/-- The clock is what the timestamp spells, and nothing else is. -/
theorem spells_iff {s : Text} (hs : Stamp s) (t : DateTime) : Spells s t ↔ t = clock s := by
  have hpart : ∀ p : Text, (∀ c ∈ p, c ∈ s) → 2 ≤ p.length ∧ p.length ≤ 4 →
      ∀ n : ℕ, pyInt p = some (n : ℤ) ↔ n = digitsValue p := by
    intro p hmem hlen n
    have hdec : Decimals p := {
      nonempty := by rintro rfl; simp at hlen
      decimal := fun c hc => hs.decimal c (hmem c hc)
      limit := by show p.length ≤ 4300; omega }
    rw [pyInt_digitsValue hdec, Option.some.injEq, Nat.cast_inj, eq_comm]
  constructor
  · rintro ⟨hh, mm, ss, dd, mo, yyyy, hparts, ⟨h₁, h₂, h₃, h₄, h₅, h₆⟩, hour, minute, second, day,
      month, year⟩
    have hslice : ∀ i j : ℕ, ∀ a p b : Text, s = a ++ (p ++ b) → a.length = i →
        p.length = j - i → 2 ≤ p.length ∧ p.length ≤ 4 → ∀ n : ℕ, pyInt p = some (n : ℤ) →
        n = digitsValue ((s.take j).drop i) := by
      intro i j a p b hs' hi hj hlen n hn
      rw [hs', slice_middle hi (by omega)]
      exact (hpart p (by simp +contextual [hs']) hlen n).mp hn
    have hhour := hslice 0 2 [] hh _ hparts rfl h₁ (by omega) t.hour hour
    have hminute := hslice 2 4 hh mm _ hparts h₁ h₂ (by omega) t.minute minute
    have hsecond := hslice 4 6 (hh ++ mm) ss (dd ++ (mo ++ yyyy)) (by simp [hparts])
      (by simp [*]) h₃ (by omega) t.second second
    have hday := hslice 6 8 (hh ++ mm ++ ss) dd (mo ++ yyyy) (by simp [hparts])
      (by simp [*]) h₄ (by omega) t.day day
    have hmonth := hslice 8 10 (hh ++ mm ++ ss ++ dd) mo yyyy (by simp [hparts])
      (by simp [*]) h₅ (by omega) t.month month
    have hyear := hslice 10 14 (hh ++ mm ++ ss ++ dd ++ mo) yyyy [] (by simp [hparts])
      (by simp [*]) h₆ (by omega) t.year year
    cases t
    rw [clock, ← hhour, ← hminute, ← hsecond, ← hday, ← hmonth, ← hyear]
  · rintro rfl
    have hslice : ∀ i j : ℕ, (∀ c ∈ (s.take j).drop i, c ∈ s) := fun i j c hc =>
      List.mem_of_mem_take (List.mem_of_mem_drop hc)
    have hlen : ∀ i j : ℕ, j ≤ 14 → ((s.take j).drop i).length = j - i := by
      intro i j hj
      rw [List.length_drop, List.length_take, hs.length, Nat.min_eq_left hj]
    refine ⟨_, _, _, _, _, _, ?_, ⟨hlen 0 2 (by omega), hlen 2 4 (by omega), hlen 4 6 (by omega),
      hlen 6 8 (by omega), hlen 8 10 (by omega), hlen 10 14 (by omega)⟩, ?_⟩
    · rw [slice_append (by omega) (by omega), slice_append (by omega) (by omega),
        slice_append (by omega) (by omega), slice_append (by omega) (by omega),
        slice_append (by omega) (by omega), List.drop_zero, List.take_of_length_le]
      exact hs.length.le
    · simp only [clock]
      refine ⟨?_, ?_, ?_, ?_, ?_, ?_⟩ <;>
        exact (hpart _ (hslice _ _) (by rw [hlen _ _ (by omega)]; omega) _).mpr rfl

/-- **Timestamps.** The timestamp is read as the date-time that it spells, if there is one. -/
theorem parseTimestamp_eq_some_iff {s : Text} (hs : Stamp s) (t : DateTime) :
    parseTimestamp s = some t ↔ Spells s t ∧ t.Valid := by
  have hdef : parseTimestamp s = if 1 ≤ (clock s).year ∧ 1 ≤ (clock s).month ∧
      (clock s).month ≤ 12 ∧ 1 ≤ (clock s).day ∧
      (clock s).day ≤ daysInMonth (clock s).year (clock s).month ∧ (clock s).hour < 24 ∧
      (clock s).minute < 60 ∧ (clock s).second < 60 then some (clock s) else none := rfl
  have hyear : (clock s).year ≤ 9999 := by
    have := digitsValue_lt ((s.take 14).drop 10)
    rw [List.length_drop, List.length_take, hs.length] at this
    exact Nat.lt_succ_iff.mp this
  rw [spells_iff hs, hdef]
  constructor
  · intro h
    split at h
    next hvalid =>
      cases h
      obtain ⟨hy, hm, hm', hd, hd', hh, hmin, hsec⟩ := hvalid
      exact ⟨rfl, ⟨hy, hyear⟩, ⟨hm, hm'⟩, ⟨hd, hd'⟩, hh, hmin, hsec⟩
    next => cases h
  · rintro ⟨rfl, hvalid⟩
    rw [if_pos ⟨hvalid.year.1, hvalid.month.1, hvalid.month.2, hvalid.day.1, hvalid.day.2,
      hvalid.time⟩]

/-! ## The grammar and its reading -/

/-- `u` is `E2[#d|s|r]` with a panel id, a timestamp and four `|` in the rest. Decimal digits
are those of the character database, as for `\d` and `int`. -/
structure Grammar (u d s r : Text) : Prop where
  shape : u = envelope d s r
  spc : Decimals d
  stamp : Stamp s
  pipes : 4 ≤ r.count pipe

/-- `e` holds what `E2[#d|s|r]` says. -/
structure Reads (d s r : Text) (e : SiaEvent) : Prop where
  spcId : pyInt d = some (e.spcId : ℤ)
  timestampRaw : e.timestampRaw = s
  timestamp : ∀ t, e.timestamp = some t ↔ Spells s t ∧ t.Valid
  fields : r = joined e.siaCode e.address e.description e.extra e.verificationId
  pipeFree : pipe ∉ e.siaCode ∧ pipe ∉ e.address ∧ pipe ∉ e.extra ∧ pipe ∉ e.verificationId

/-- The grammar derives the texts of events. -/
theorem grammar_iff {u d s r : Text} :
    Grammar u d s r ↔ ∃ x : EventText, u = x.text ∧ x.spc = d ∧ x.ts = s ∧ x.rest = r := by
  constructor
  · rintro ⟨rfl, hspc, hstamp, hpipes⟩
    obtain ⟨⟨code, addr, desc, extra, vid⟩, hsplit⟩ :=
      Option.isSome_iff_exists.mp (splitRest_isSome_iff.mpr hpipes)
    obtain ⟨rfl, hcode, haddr, hextra, hvid⟩ := splitRest_eq_some_iff.mp hsplit
    exact ⟨⟨d, s, code, addr, desc, extra, vid, hspc, hstamp, hcode, haddr, hextra, hvid⟩,
      rfl, rfl, rfl, rfl⟩
  · rintro ⟨x, rfl, rfl, rfl, rfl⟩
    refine ⟨rfl, x.spc_decimals, x.ts_stamp, splitRest_isSome_iff.mp ?_⟩
    exact Option.isSome_iff_exists.mpr
      ⟨_, splitRest_eq_some_iff.mpr ⟨rfl, x.code_free, x.address_free, x.extra_free, x.vid_free⟩⟩

/-- The text of an event is read as this event. -/
theorem EventText.reads (x : EventText) : Reads x.spc x.ts x.rest x.event where
  spcId := pyInt_digitsValue x.spc_decimals
  timestampRaw := rfl
  timestamp := parseTimestamp_eq_some_iff x.ts_stamp
  fields := rfl
  pipeFree := ⟨x.code_free, x.address_free, x.extra_free, x.vid_free⟩

end Spcedp.Events
