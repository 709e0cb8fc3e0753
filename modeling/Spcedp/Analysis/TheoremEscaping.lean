import Spcedp.Interface.Requests

/-!
# Requests read back

The values that a caller passes cannot break out of their attributes: a reader of XML finds in
the request the one element that was asked for, with every value as it was passed
(`buildRequest_reads`). Two kinds of calls send nothing: an attribute with the name of a
parameter of `build_request` is a `TypeError`, and a number with more digits than `str` prints
is a `ValueError`.
-/

set_option autoImplicit false

namespace Spcedp.Xmlcmd

open Lib Lib.XmlTag Spcedp.PyText

/-- A command and attributes that can be told apart in an element: identifiers as names, which
differ in capitals from each other and from `ID`, and texts of request characters. -/
structure Sendable (commandId : Text) (attrs : List (Text × AttrValue)) : Prop where
  idChars : ∀ c ∈ commandId, isRequestChar c
  identifiers : ∀ a ∈ attrs, IsIdentifier a.1
  distinct : (attrs.map fun a => upper a.1).Nodup
  notId : ∀ a ∈ attrs, upper a.1 ≠ text "ID"
  valueChars : ∀ a ∈ attrs, ∀ s, a.2 = .str s → ∀ c ∈ s, isRequestChar c

section

variable {commandId : Text} {attrs : List (Text × AttrValue)}

/-- An attribute that is shown has its name in capitals and its value as it prints. -/
theorem mem_shownAttrs {attr : Text × Text} (h : attr ∈ shownAttrs attrs) :
    ∃ a ∈ attrs, attr.1 = upper a.1 ∧ a.2.shown = some attr.2 := by
  obtain ⟨a, ha, hshown⟩ := List.mem_filterMap.mp h
  obtain ⟨s, hs, rfl⟩ := Option.map_eq_some_iff.mp hshown
  exact ⟨a, ha, rfl, hs⟩

/-- The names that are sent are among those that were passed, in the same order. -/
theorem shownAttrs_sublist :
    List.Sublist ((shownAttrs attrs).map Prod.fst) (attrs.map fun a => upper a.1) := by
  induction attrs with
  | nil => exact List.Sublist.slnil
  | cons a attrs ih =>
      unfold shownAttrs at ih ⊢
      cases hshown : a.2.shown with
      | none =>
          rw [List.filterMap_cons_none (by rw [hshown]; rfl)]
          exact List.Sublist.cons (upper a.1) ih
      | some s =>
          rw [List.filterMap_cons_some (by rw [hshown]; rfl)]
          exact List.Sublist.cons_cons (upper a.1) ih

namespace Sendable

/-- The values that are sent consist of request characters, as do the numbers. -/
theorem shownChars (h : Sendable commandId attrs) {attr : Text × Text}
    (hattr : attr ∈ shownAttrs attrs) : ∀ c ∈ attr.2, isRequestChar c := by
  obtain ⟨a, ha, -, hshown⟩ := mem_shownAttrs hattr
  cases hv : a.2 with
  | none =>
      rw [hv] at hshown
      cases hshown
  | str s =>
      rw [hv] at hshown
      have hpassed : s = attr.2 := Option.some.inj hshown
      rw [hpassed] at hv
      exact h.valueChars a ha attr.2 hv
  | int n =>
      rw [hv] at hshown
      have hprinted : text (toString n) = attr.2 := Option.some.inj hshown
      rw [← hprinted]
      exact isRequestChar_toString n

/-- **The element reads back** from the text that is written for it. -/
theorem read_write (h : Sendable commandId attrs) :
    XmlTag.read (write quoteattr (requestElement commandId attrs)) =
      some (requestElement commandId attrs) := by
  have htag : IsName (text "COMMAND") := by
    refine ⟨?_, ?_⟩ <;> decide
  have hid : IsName (text "ID") := by
    refine ⟨?_, ?_⟩ <;> decide
  apply XmlTag.read_write
  · exact htag
  · intro attr hattr
    obtain rfl | hattr := List.mem_cons.mp hattr
    · exact hid
    · obtain ⟨a, ha, hname, -⟩ := mem_shownAttrs hattr
      rw [hname]
      exact (h.identifiers a ha).isName_upper
  · apply List.nodup_cons.mpr
    constructor
    · intro hmem
      obtain ⟨attr, hattr, hname⟩ := List.mem_map.mp hmem
      obtain ⟨a, ha, hupper, -⟩ := mem_shownAttrs hattr
      exact h.notId a ha (hupper.symm.trans hname)
    · exact shownAttrs_sublist.nodup h.distinct
  · intro attr hattr
    apply quoteattr_quoted
    obtain rfl | hattr := List.mem_cons.mp hattr
    · exact h.idChars
    · exact h.shownChars hattr

/-- The request is ASCII. -/
theorem ascii (h : Sendable commandId attrs) :
    ∀ c ∈ write quoteattr (requestElement commandId attrs), c < 0x80 := by
  apply write_ascii
  · intro c hc
    exact isRequestChar_lt (h.idChars c hc)
  · intro attr hattr
    obtain ⟨a, ha, hname, -⟩ := mem_shownAttrs hattr
    rw [hname]
    exact (h.identifiers a ha).upper_lt
  · intro attr hattr c hc
    exact isRequestChar_lt (h.shownChars hattr c hc)

end Sendable

/-- **A request says what was asked for.** With numbers of at most 4300 digits and no attribute
named like a parameter, the payload is the marker and a text that reads as one empty `COMMAND`
element: the command as its `ID`, then each attribute that is not `None`, in capitals. -/
theorem buildRequest_reads (continuation : Bool) (h : Sendable commandId attrs)
    (hown : ∀ a ∈ attrs, a.1 ∉ ownParameters) (hprints : ∀ a ∈ attrs, a.2.Prints) :
    ∃ xml, buildRequest commandId continuation attrs =
        .ok ((if continuation then 0x02 else 0x01) :: xml) ∧
      XmlTag.read (xml.map UInt8.toNat) =
        some ⟨text "COMMAND", (text "ID", commandId) :: shownAttrs attrs⟩ := by
  refine ⟨(write quoteattr (requestElement commandId attrs)).map UInt8.ofNat, ?_, ?_⟩
  · rw [buildRequest_eq commandId continuation hown hprints, encodeAscii_eq h.ascii]
    rfl
  · rw [toNat_encodeAscii h.ascii]
    exact h.read_write

end

/-- A value that tries to close its attribute, and one with both kinds of quotes, white space and
what looks like a reference. -/
def injection : List (Text × AttrValue) :=
  [(text "zone", .str (text "1\" /><EVIL ATTR=\"x")), (text "user", .none),
    (text "area", .int (-3)), (text "_n", .str (text "'&#9;\t\""))]

/-- Quotes, angle brackets and line ends in a value do not leave it. -/
theorem buildRequest_reads_injection :
    ∃ xml, buildRequest (text "zone_log") true injection = .ok (0x02 :: xml) ∧
      XmlTag.read (xml.map UInt8.toNat) = some ⟨text "COMMAND", [(text "ID", text "zone_log"),
        (text "ZONE", text "1\" /><EVIL ATTR=\"x"), (text "AREA", text "-3"),
        (text "_N", text "'&#9;\t\"")]⟩ := by
  have hsendable : Sendable (text "zone_log") injection := by
    refine ⟨by decide, by decide, by decide, by decide, ?_⟩
    intro a ha s hs
    simp only [injection, List.mem_cons, List.not_mem_nil, or_false] at ha
    obtain rfl | rfl | rfl | rfl := ha
    · cases hs
      decide
    · cases hs
    · cases hs
    · cases hs
      decide
  have hprints : ∀ a ∈ injection, a.2.Prints := by
    intro a ha
    simp only [injection, List.mem_cons, List.not_mem_nil, or_false] at ha
    obtain rfl | rfl | rfl | rfl := ha
    · trivial
    · trivial
    · exact lt_of_lt_of_le (by decide) (Nat.le_self_pow (by decide) 10)
    · trivial
  exact buildRequest_reads true hsendable (by decide) hprints

/-- Two calls that send nothing: a number of 4301 digits, and an attribute with the name of the
first parameter. -/
theorem buildRequest_refuses :
    (Sendable (text "zone_log") [(text "zone", .int (10 ^ maxStrDigits))] ∧
      buildRequest (text "zone_log") false [(text "zone", .int (10 ^ maxStrDigits))] =
        .error .intLimit) ∧
    Sendable (text "zone_log") [(text "command_id", .str (text "1"))] ∧
      buildRequest (text "zone_log") false [(text "command_id", .str (text "1"))] =
        .error .keywordTwice := by
  have hchars {v : AttrValue} (h : ∀ s, v = .str s → ∀ c ∈ s, isRequestChar c) {name : Text}
      (hname : IsIdentifier name) (hid : upper name ≠ text "ID") :
      Sendable (text "zone_log") [(name, v)] := by
    refine ⟨by decide, ?_, List.nodup_singleton _, ?_, ?_⟩
    · simpa using hname
    · simpa using hid
    · simpa using h
  refine ⟨⟨hchars ?_ (by decide) (by decide), ?_⟩, hchars ?_ (by decide) (by decide), ?_⟩
  · intro s hs
    cases hs
  · apply buildRequest_long
    · intro a ha
      have hname : a.1 = text "zone" := by rw [List.mem_singleton.mp ha]
      rw [hname]
      decide
    · refine ⟨(text "zone", .int (10 ^ maxStrDigits)), List.mem_singleton_self _, ?_⟩
      intro h
      have habs (k : ℕ) : ((10 : ℤ) ^ k).natAbs = 10 ^ k := Int.natAbs_pow 10 k
      exact h.ne (habs maxStrDigits)
  · intro s hs
    cases hs
    decide
  · exact buildRequest_own (text "zone_log") false ⟨_, List.mem_singleton_self _, by decide⟩

end Spcedp.Xmlcmd
