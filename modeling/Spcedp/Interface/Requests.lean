import Spcedp.Interface.PyText
import Spcedp.Lib.XmlTag
import Spcedp.Model.Xmlcmd

/-!
# What a request says

`quoteattr` escapes a value by a table of references, whatever the order of its replacements,
and both of its choices of quotes leave a text that stands for the value (`quoteattr_quoted`).
A request is the marker and one written element (`buildRequest_eq`), unless an attribute has
the name of a parameter, a number has too many digits, or the text is not ASCII.
-/

set_option autoImplicit false

namespace Spcedp.Xmlcmd

open Lib Lib.XmlTag Spcedp.PyText

/-! ## `quoteattr` -/

/-- The references of `quoteattr`, in the order of its replacements. -/
def escapes : List (ℕ × Text) :=
  [(0x26, text "amp"), (0x3E, text "gt"), (0x3C, text "lt"), (0x0A, text "#10"),
    (0x0D, text "#13"), (0x09, text "#9")]

/-- Those of a value with both kinds of quotes. -/
def quoteEscapes : List (ℕ × Text) := escapes ++ [(0x22, text "quot")]

/-- The replacements of `quoteattr` escape the value once. -/
theorem replaceChar_escapes (data : Text) :
    replaceChar 0x09 (text "&#9;") (replaceChar 0x0D (text "&#13;") (replaceChar 0x0A (text "&#10;")
      (replaceChar 0x3C (text "&lt;") (replaceChar 0x3E (text "&gt;")
        (replaceChar 0x26 (text "&amp;") data))))) = data.flatMap (escape escapes) := by
  have hamp : refer (text "amp") = text "&amp;" := by decide
  have hgt : refer (text "gt") = text "&gt;" := by decide
  have hlt : refer (text "lt") = text "&lt;" := by decide
  have hnewline : refer (text "#10") = text "&#10;" := by decide
  have hreturn : refer (text "#13") = text "&#13;" := by decide
  have htab : refer (text "#9") = text "&#9;" := by decide
  rw [← foldl_replace (by decide)]
  simp only [escapes, List.foldl_cons, List.foldl_nil, hamp, hgt, hlt, hnewline, hreturn, htab]
  rfl

/-- Replacing the quotes at last is escaping them with the others. -/
theorem replaceChar_quoteEscapes (data : Text) :
    replaceChar 0x22 (text "&quot;") (data.flatMap (escape escapes)) =
      data.flatMap (escape quoteEscapes) := by
  have hquot : refer (text "quot") = text "&quot;" := by decide
  rw [← foldl_replace (by decide), ← foldl_replace (by decide)]
  simp only [quoteEscapes, List.foldl_append, List.foldl_cons, List.foldl_nil, hquot]
  rfl

/-- **The text of `quoteattr`.** Single quotes are chosen if double ones, and only those, occur
in the value. -/
theorem quoteattr_eq (data : Text) : quoteattr data =
    if 0x22 ∈ data ∧ 0x27 ∉ data then [0x27] ++ data.flatMap (escape escapes) ++ [0x27]
    else if 0x22 ∈ data then [0x22] ++ data.flatMap (escape quoteEscapes) ++ [0x22]
    else [0x22] ++ data.flatMap (escape escapes) ++ [0x22] := by
  have hdouble : 0x22 ∈ data.flatMap (escape escapes) ↔ 0x22 ∈ data :=
    mem_flatMap_escape (by decide)
  have hsingle : 0x27 ∈ data.flatMap (escape escapes) ↔ 0x27 ∈ data :=
    mem_flatMap_escape (by decide)
  unfold quoteattr
  dsimp only
  rw [replaceChar_escapes, replaceChar_quoteEscapes]
  simp only [hdouble, hsingle]
  by_cases hd : 0x22 ∈ data
  · by_cases hs : 0x27 ∈ data
    · rw [if_pos hd, if_pos hs, if_neg (by simp [hs]), if_pos hd]
    · rw [if_pos hd, if_neg hs, if_pos ⟨hd, hs⟩]
  · rw [if_neg hd, if_neg (by simp [hd]), if_neg hd]

/-- Quoting an ASCII value gives ASCII. -/
theorem quoteattr_ascii {data : Text} (h : ∀ c ∈ data, c < 0x80) :
    ∀ c ∈ quoteattr data, c < 0x80 := by
  have hquote {q : ℕ} {s : Text} (hq : q < 0x80) (hs : ∀ c ∈ s, c < 0x80) :
      ∀ c ∈ [q] ++ s ++ [q], c < 0x80 := by
    intro c hc
    rw [List.mem_append, List.mem_append, List.mem_singleton] at hc
    obtain (rfl | hc) | rfl := hc
    · exact hq
    · exact hs c hc
    · exact hq
  rw [quoteattr_eq]
  split_ifs
  · exact hquote (by decide) (forall_mem_escape (by decide) h)
  · exact hquote (by decide) (forall_mem_escape (by decide) h)
  · exact hquote (by decide) (forall_mem_escape (by decide) h)

/-- Printable ASCII, tab, newline and carriage return. -/
def isRequestChar (c : ℕ) : Bool := (0x20 ≤ c && c ≤ 0x7E) || c ∈ [0x09, 0x0A, 0x0D]

/-- What holds of the request characters holds for a finite reason. -/
theorem forall_isRequestChar {P : ℕ → Prop} (h : ∀ c < 0x7F, isRequestChar c → P c) {c : ℕ}
    (hc : isRequestChar c) : P c := by
  apply h c _ hc
  unfold isRequestChar at hc
  simp only [Bool.or_eq_true, Bool.and_eq_true, decide_eq_true_eq, List.mem_cons,
    List.not_mem_nil, or_false] at hc
  omega

/-- What a request is made of is ASCII. -/
theorem isRequestChar_lt {c : ℕ} (hc : isRequestChar c) : c < 0x80 :=
  forall_isRequestChar (P := fun c => c < 0x80) (fun c hlt _ => hlt.trans (by decide)) hc

/-- **Escaping loses nothing.** What `quoteattr` writes is a quoted spelling of the value. -/
theorem quoteattr_quoted {data : Text} (h : ∀ c ∈ data, isRequestChar c) :
    Quoted (quoteattr data) data := by
  have hkeys {q c : ℕ} (hq : q = 0x22 ∨ q = 0x27) (hc : isRequestChar c) (hne : c ≠ q) :
      c ∈ escapes.map Prod.fst ∨ isVerbatim q c := by
    revert hne
    refine forall_isRequestChar (P := fun c => c ≠ q → c ∈ escapes.map Prod.fst ∨
      isVerbatim q c) ?_ hc
    obtain rfl | rfl := hq <;> decide +kernel
  have hquote {c : ℕ} (hc : isRequestChar c) :
      c ∈ quoteEscapes.map Prod.fst ∨ isVerbatim 0x22 c := by
    by_cases hd : c = 0x22
    · exact .inl (hd ▸ by decide)
    · obtain hmem | hverbatim := hkeys (.inl rfl) hc hd
      · refine .inl ?_
        unfold quoteEscapes
        rw [List.map_append]
        exact List.mem_append_left _ hmem
      · exact .inr hverbatim
  rw [quoteattr_eq]
  split_ifs with hsingle hdouble
  · refine ⟨0x27, _, .inr rfl, rfl, denotes_escape (by decide) (by decide) fun c hc => ?_⟩
    apply hkeys (.inr rfl) (h c hc)
    rintro rfl
    exact hsingle.2 hc
  · exact ⟨0x22, _, .inl rfl, rfl,
      denotes_escape (by decide) (by decide) fun c hc => hquote (h c hc)⟩
  · refine ⟨0x22, _, .inl rfl, rfl, denotes_escape (by decide) (by decide) fun c hc => ?_⟩
    apply hkeys (.inl rfl) (h c hc)
    rintro rfl
    exact hdouble hc

/-! ## Names and values -/

/-- A capital letter for a small one. -/
def capital (c : ℕ) : ℕ := if 0x61 ≤ c ∧ c ≤ 0x7A then c - 0x20 else c

/-- `upper` on ASCII capitalizes each letter. -/
theorem upper_ascii {s : Text} (h : ∀ c ∈ s, c < 0x80) : upper s = s.map capital := by
  have hone : ∀ c < 0x80, upperChar c = [capital c] := by decide +kernel
  unfold upper
  rw [List.flatMap_congr fun c hc => hone c (h c hc)]
  exact List.flatMap_pure_eq_map capital s

/-- A letter of ASCII, or an underscore. -/
def isLetter (c : ℕ) : Bool := (0x41 ≤ c && c ≤ 0x5A) || (0x61 ≤ c && c ≤ 0x7A) || c = 0x5F

/-- A letter, or a decimal digit of ASCII. -/
def isLetterOrDigit (c : ℕ) : Bool := isLetter c || (0x30 ≤ c && c ≤ 0x39)

/-- An ASCII identifier of Python. -/
def IsIdentifier : Text → Prop
  | [] => False
  | c :: n => isLetter c ∧ ∀ d ∈ n, isLetterOrDigit d

instance : DecidablePred IsIdentifier
  | [] => inferInstanceAs (Decidable False)
  | c :: n => inferInstanceAs (Decidable (isLetter c ∧ ∀ d ∈ n, isLetterOrDigit d))

/-- Letters and digits are ASCII. -/
theorem isLetterOrDigit_lt {c : ℕ} (h : isLetterOrDigit c) : c < 0x80 := by
  simp only [isLetterOrDigit, isLetter, Bool.or_eq_true, Bool.and_eq_true, decide_eq_true_eq] at h
  omega

/-- An identifier is made of letters and digits. -/
theorem IsIdentifier.chars {s : Text} (h : IsIdentifier s) : ∀ c ∈ s, isLetterOrDigit c := by
  cases s with
  | nil => exact h.elim
  | cons c n =>
      intro d hd
      obtain rfl | hd := List.mem_cons.mp hd
      · unfold isLetterOrDigit
        rw [h.1, Bool.true_or]
      · exact h.2 d hd

/-- `upper` on an identifier capitalizes each letter. -/
theorem IsIdentifier.upper_eq {s : Text} (h : IsIdentifier s) : upper s = s.map capital :=
  upper_ascii fun c hc => isLetterOrDigit_lt (h.chars c hc)

/-- The capitals of an identifier are ASCII. -/
theorem IsIdentifier.upper_lt {s : Text} (h : IsIdentifier s) : ∀ c ∈ upper s, c < 0x80 := by
  intro c hc
  rw [h.upper_eq] at hc
  obtain ⟨x, hx, rfl⟩ := List.mem_map.mp hc
  have hlt := isLetterOrDigit_lt (h.chars x hx)
  unfold capital
  split_ifs <;> omega

/-- An identifier in capitals is a name of XML. -/
theorem IsIdentifier.isName_upper {s : Text} (h : IsIdentifier s) : IsName (upper s) := by
  have hfirst : ∀ c < 0x80, isLetter c → isNameStart (capital c) := by decide +kernel
  have hrest : ∀ c < 0x80, isLetterOrDigit c → isNameChar (capital c) := by decide +kernel
  have hchars := h.chars
  rw [h.upper_eq]
  cases s with
  | nil => exact h.elim
  | cons c n =>
      refine ⟨hfirst c (isLetterOrDigit_lt (hchars c (by simp))) h.1, fun d hd => ?_⟩
      obtain ⟨x, hx, rfl⟩ := List.mem_map.mp hd
      have hmem : isLetterOrDigit x := hchars x (by simp [hx])
      exact hrest x (isLetterOrDigit_lt hmem) hmem

/-- `str(v)`, where `None` gives no attribute. -/
def AttrValue.shown : AttrValue → Option Text
  | .str s => some s
  | .int n => some (text (toString n))
  | .none => Option.none

/-- `str` prints the value: if it is a number, it has no more digits than that. -/
def AttrValue.Prints : AttrValue → Prop
  | .int n => n.natAbs < 10 ^ maxStrDigits
  | _ => True

/-- A printed number can stand in a request. -/
theorem isRequestChar_toString (n : ℤ) : ∀ c ∈ text (toString n), isRequestChar c := by
  rw [text_toString]
  intro c hc
  obtain hc | hc := List.mem_append.mp hc
  · split_ifs at hc
    · rw [List.mem_singleton] at hc
      rw [hc]
      decide
    · simp at hc
  · obtain ⟨x, hx, rfl⟩ := List.mem_map.mp hc
    obtain ⟨i, hi, hxi⟩ := mem_toDigits hx
    rw [hxi]
    interval_cases i <;> decide

/-! ## Requests -/

/-- The attributes that are sent. -/
def shownAttrs (attrs : List (Text × AttrValue)) : List (Text × Text) :=
  attrs.filterMap fun a => a.2.shown.map fun s => (upper a.1, s)

/-- The element that a request consists of. -/
def requestElement (commandId : Text) (attrs : List (Text × AttrValue)) : XmlTag.Element :=
  ⟨text "COMMAND", (text "ID", commandId) :: shownAttrs attrs⟩

/-- An attribute that prints is built as its name and its quoted value. -/
theorem buildAttr_eq (name : Text) {v : AttrValue} (h : v.Prints) : buildAttr name v =
    .ok ((v.shown.map fun s => [0x20] ++ upper name ++ [0x3D] ++ quoteattr s).getD []) := by
  cases v with
  | none => rfl
  | str s => rfl
  | int n =>
      have hstr : pyStr n = some (text (toString n)) := by
        rw [pyStr_eq]
        exact if_pos h
      unfold buildAttr
      dsimp only
      rw [hstr]
      rfl

/-- The attributes of a request, one after the other. -/
theorem mapM_buildAttr {attrs : List (Text × AttrValue)} (h : ∀ a ∈ attrs, a.2.Prints) :
    ∃ extra, (attrs.mapM fun a => buildAttr a.1 a.2) = .ok extra ∧ extra.flatten =
      (shownAttrs attrs).flatMap fun a => [0x20] ++ a.1 ++ [0x3D] ++ quoteattr a.2 := by
  induction attrs with
  | nil => exact ⟨[], rfl, rfl⟩
  | cons a attrs ih =>
      obtain ⟨extra, hextra, hflat⟩ := ih fun b hb => h b (by simp [hb])
      have hattr := buildAttr_eq a.1 (h a (by simp))
      unfold shownAttrs at hflat ⊢
      cases hshown : a.2.shown with
      | none =>
          refine ⟨[] :: extra, ?_, ?_⟩
          · rw [List.mapM_cons, hattr, hextra, hshown]
            rfl
          · rw [List.flatten_cons, hflat, List.filterMap_cons_none (by rw [hshown]; rfl)]
            rfl
      | some s =>
          refine ⟨([0x20] ++ upper a.1 ++ [0x3D] ++ quoteattr s) :: extra, ?_, ?_⟩
          · rw [List.mapM_cons, hattr, hextra, hshown]
            rfl
          · rw [List.flatten_cons, hflat, List.filterMap_cons_some (by rw [hshown]; rfl),
              List.flatMap_cons]

/-- ASCII text is encoded as its code points. -/
theorem encodeAscii_eq {s : Text} (h : ∀ c ∈ s, c < 0x80) :
    encodeAscii s = some (s.map UInt8.ofNat) := by
  unfold encodeAscii
  rw [if_pos (List.all_eq_true.mpr fun c hc => decide_eq_true (h c hc))]

/-- ASCII text comes back from its bytes. -/
theorem toNat_encodeAscii {s : Text} (h : ∀ c ∈ s, c < 0x80) :
    (s.map UInt8.ofNat).map UInt8.toNat = s := by
  have hchar : ∀ c ∈ s, (UInt8.toNat ∘ UInt8.ofNat) c = id c := by
    intro c hc
    exact UInt8.toNat_ofNat_of_lt' (lt_trans (h c hc) (by decide))
  rw [List.map_map, List.map_congr_left hchar, List.map_id]

/-- A request of ASCII texts is an ASCII text. -/
theorem write_ascii {commandId : Text} {attrs : List (Text × AttrValue)}
    (hid : ∀ c ∈ commandId, c < 0x80) (hname : ∀ a ∈ shownAttrs attrs, ∀ c ∈ a.1, c < 0x80)
    (hvalue : ∀ a ∈ shownAttrs attrs, ∀ c ∈ a.2, c < 0x80) :
    ∀ c ∈ write quoteattr (requestElement commandId attrs), c < 0x80 := by
  have htag : ∀ c ∈ text "COMMAND", c < 0x80 := by decide
  have hidName : ∀ c ∈ text "ID", c < 0x80 := by decide
  apply forall_mem_write
  · decide
  · exact htag
  · intro a ha
    obtain rfl | ha := List.mem_cons.mp ha
    · exact hidName
    · exact hname a ha
  · intro a ha
    apply quoteattr_ascii
    obtain rfl | ha := List.mem_cons.mp ha
    · exact hid
    · exact hvalue a ha

/-- The test finds a name that is a parameter of `xml_command`. -/
theorem any_ownParameters_iff {attrs : List (Text × AttrValue)} :
    (attrs.any fun a => ownParameters.any (· = a.1)) = true ↔
      ∃ a ∈ attrs, a.1 ∈ ownParameters := by
  simp

/-- Names that are no parameters pass the test. -/
theorem any_ownParameters {attrs : List (Text × AttrValue)}
    (h : ∀ a ∈ attrs, a.1 ∉ ownParameters) :
    ¬(attrs.any fun a => ownParameters.any (· = a.1)) = true := by
  intro hany
  obtain ⟨a, ha, hmem⟩ := any_ownParameters_iff.mp hany
  exact h a ha hmem

/-- **A request is one written element.** -/
theorem buildRequest_eq (commandId : Text) (continuation : Bool) {attrs : List (Text × AttrValue)}
    (hown : ∀ a ∈ attrs, a.1 ∉ ownParameters) (hprints : ∀ a ∈ attrs, a.2.Prints) :
    buildRequest commandId continuation attrs =
      (encodeAscii (write quoteattr (requestElement commandId attrs))).elim (.error .notAscii)
        fun bytes => .ok ((if continuation then fragCont else fragFirst) :: bytes) := by
  obtain ⟨extra, hextra, hflat⟩ := mapM_buildAttr hprints
  have hwrite : text "<COMMAND ID=" ++ quoteattr commandId ++ extra.flatten ++ text " />" =
      write quoteattr (requestElement commandId attrs) := by
    have hhead : text "<COMMAND ID=" =
        [0x3C] ++ text "COMMAND" ++ ([0x20] ++ text "ID" ++ [0x3D]) := by decide
    unfold write requestElement
    rw [List.flatMap_cons, hflat, hhead]
    simp only [List.append_assoc]
    rfl
  unfold buildRequest
  rw [if_neg (any_ownParameters hown), hextra]
  simp only [bind, Except.bind, pure, Except.pure]
  rw [hwrite]
  cases encodeAscii (write quoteattr (requestElement commandId attrs)) with
  | none => rfl
  | some bytes => rfl

/-- An attribute cannot have the name of a parameter. -/
theorem buildRequest_own (commandId : Text) (continuation : Bool) {attrs : List (Text × AttrValue)}
    (h : ∃ a ∈ attrs, a.1 ∈ ownParameters) :
    buildRequest commandId continuation attrs = .error .keywordTwice := by
  unfold buildRequest
  rw [if_pos (any_ownParameters_iff.mpr h)]
  rfl

/-- One attribute that does not print ends the request. -/
theorem mapM_buildAttr_error {attrs : List (Text × AttrValue)} (h : ∃ a ∈ attrs, ¬a.2.Prints) :
    (attrs.mapM fun a => buildAttr a.1 a.2) = .error .intLimit := by
  induction attrs with
  | nil =>
      obtain ⟨a, ha, -⟩ := h
      cases ha
  | cons a attrs ih =>
      rw [List.mapM_cons]
      by_cases hfirst : a.2.Prints
      · have hrest : ∃ b ∈ attrs, ¬b.2.Prints := by
          obtain ⟨b, hb, hlong⟩ := h
          obtain rfl | hb := List.mem_cons.mp hb
          · exact absurd hfirst hlong
          · exact ⟨b, hb, hlong⟩
        rw [buildAttr_eq a.1 hfirst, ih hrest]
        rfl
      · have hlong : buildAttr a.1 a.2 = .error .intLimit := by
          cases hv : a.2 with
          | none =>
              rw [hv] at hfirst
              exact absurd trivial hfirst
          | str s =>
              rw [hv] at hfirst
              exact absurd trivial hfirst
          | int n =>
              have hstr : pyStr n = none := by
                rw [hv] at hfirst
                rw [pyStr_eq]
                exact if_neg hfirst
              unfold buildAttr
              dsimp only
              rw [hstr]
        rw [hlong]
        rfl

/-- A number with too many digits cannot be sent. -/
theorem buildRequest_long (commandId : Text) (continuation : Bool)
    {attrs : List (Text × AttrValue)} (hown : ∀ a ∈ attrs, a.1 ∉ ownParameters)
    (h : ∃ a ∈ attrs, ¬a.2.Prints) :
    buildRequest commandId continuation attrs = .error .intLimit := by
  unfold buildRequest
  rw [if_neg (any_ownParameters hown), mapM_buildAttr_error h]
  rfl

/-- The payload of a request but for its marker, or the reason why there is none. -/
theorem buildRequest_uniform (commandId : Text) (attrs : List (Text × AttrValue)) :
    (∃ body, ∀ continuation, buildRequest commandId continuation attrs =
      .ok ((if continuation then fragCont else fragFirst) :: body)) ∨
    ∃ e, ∀ continuation, buildRequest commandId continuation attrs = .error e := by
  by_cases hown : ∃ a ∈ attrs, a.1 ∈ ownParameters
  · exact .inr ⟨_, fun continuation => buildRequest_own commandId continuation hown⟩
  have hown : ∀ a ∈ attrs, a.1 ∉ ownParameters := fun a ha hmem => hown ⟨a, ha, hmem⟩
  by_cases hlong : ∃ a ∈ attrs, ¬a.2.Prints
  · exact .inr ⟨_, fun continuation => buildRequest_long commandId continuation hown hlong⟩
  have hprints : ∀ a ∈ attrs, a.2.Prints := fun a ha => by_contra fun h => hlong ⟨a, ha, h⟩
  cases hascii : encodeAscii (write quoteattr (requestElement commandId attrs)) with
  | none =>
      refine .inr ⟨.notAscii, fun continuation => ?_⟩
      rw [buildRequest_eq commandId continuation hown hprints, hascii]
      rfl
  | some bytes =>
      refine .inl ⟨bytes, fun continuation => ?_⟩
      rw [buildRequest_eq commandId continuation hown hprints, hascii]
      rfl

/-- **The request for an ASCII command can be built.** -/
theorem buildRequest_ascii {commandId : Text} (h : ∀ c ∈ commandId, c < 0x80) :
    ∃ body, ∀ continuation, buildRequest commandId continuation [] =
      .ok ((if continuation then fragCont else fragFirst) :: body) := by
  have hascii : ∀ c ∈ write quoteattr (requestElement commandId []), c < 0x80 :=
    write_ascii h (by simp [shownAttrs]) (by simp [shownAttrs])
  refine ⟨(write quoteattr (requestElement commandId [])).map UInt8.ofNat, fun continuation => ?_⟩
  rw [buildRequest_eq commandId continuation (by simp) (by simp), encodeAscii_eq hascii]
  rfl

end Spcedp.Xmlcmd
