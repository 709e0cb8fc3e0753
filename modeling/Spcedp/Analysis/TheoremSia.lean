import Spcedp.Interface.Events

/-!
# The grammar of SIA events

`SiaEvent.parse_grammar`: which texts `SiaEvent.parse` accepts, what it reads from them, and
that it reads back every event that is written in the panel's format.
-/

set_option autoImplicit false

namespace Spcedp.Events

open Spcedp.PyText

/-- An event that the panel's format can carry: every field but the description free of `|`,
and the date-time that the raw timestamp spells. -/
structure SiaEvent.Wellformed (e : SiaEvent) : Prop where
  stamp : Stamp e.timestampRaw
  timestamp : ∀ t, e.timestamp = some t ↔ Spells e.timestampRaw t ∧ t.Valid
  pipeFree : pipe ∉ e.siaCode ∧ pipe ∉ e.address ∧ pipe ∉ e.extra ∧ pipe ∉ e.verificationId

/-- The event in the panel's format, with its id spelt as `d`. -/
def SiaEvent.format (e : SiaEvent) (d : Text) : Text :=
  envelope d e.timestampRaw (joined e.siaCode e.address e.description e.extra e.verificationId)

/-- The parts of a text say all of the event. -/
theorem Reads.unique {d s r : Text} {e e' : SiaEvent} (h : Reads d s r e) (h' : Reads d s r e') :
    e = e' := by
  have hid : e.spcId = e'.spcId := by
    have := h.spcId.symm.trans h'.spcId
    simpa using this
  have htime : e.timestamp = e'.timestamp :=
    Option.ext fun t => (h.timestamp t).trans (h'.timestamp t).symm
  have hsplit : splitRest r =
      some (e.siaCode, e.address, e.description, e.extra, e.verificationId) :=
    splitRest_eq_some_iff.mpr ⟨h.fields, h.pipeFree⟩
  rw [splitRest_eq_some_iff.mpr ⟨h'.fields, h'.pipeFree⟩, Option.some.injEq] at hsplit
  have hraw := h.timestampRaw.trans h'.timestampRaw.symm
  cases e
  cases e'
  simp_all

/-- **The grammar of SIA events.** `parse` accepts a text exactly when its stripped form is in
the grammar, and reads the fields of it; another timestamp changes the timestamp only; and
what is written for an event is read as that event. -/
theorem SiaEvent.parse_grammar (t : Text) :
    ((∃ e, SiaEvent.parse t = .ok e) ↔ ∃ d s r, Grammar (strip t) d s r) ∧
    (∀ d s r, Grammar (strip t) d s r → ∃ e, SiaEvent.parse t = .ok e ∧ Reads d s r e) ∧
    (∀ d s s' r e, Grammar (strip t) d s r → Stamp s' → SiaEvent.parse t = .ok e →
      SiaEvent.parse (envelope d s' r) =
        .ok { e with timestampRaw := s', timestamp := parseTimestamp s' }) ∧
    (∀ d e, e.Wellformed → (pyStr e.spcId = some d ∨ Decimals d ∧ pyInt d = some (e.spcId : ℤ)) →
      SiaEvent.parse (e.format d) = .ok e) := by
  refine ⟨⟨?_, ?_⟩, ?_, ?_, ?_⟩
  · rintro ⟨e, he⟩
    obtain ⟨x, hx, -⟩ := parse_eq_ok_iff.mp he
    exact ⟨x.spc, x.ts, x.rest, grammar_iff.mpr ⟨x, hx, rfl, rfl, rfl⟩⟩
  · rintro ⟨d, s, r, h⟩
    obtain ⟨x, hx, -⟩ := grammar_iff.mp h
    exact ⟨x.event, parse_eq_ok_iff.mpr ⟨x, hx, rfl⟩⟩
  · intro d s r h
    obtain ⟨x, hx, rfl, rfl, rfl⟩ := grammar_iff.mp h
    exact ⟨x.event, parse_eq_ok_iff.mpr ⟨x, hx, rfl⟩, x.reads⟩
  · intro d s s' r e h hs' he
    obtain ⟨x, hx, rfl, rfl, rfl⟩ := grammar_iff.mp h
    have hx' : SiaEvent.parse t = .ok x.event := parse_eq_ok_iff.mpr ⟨x, hx, rfl⟩
    rw [hx', Except.ok.injEq] at he
    subst he
    exact EventText.parse_text { x with ts := s', ts_stamp := hs' }
  · intro d e he hd
    have hid : Decimals d ∧ pyInt d = some (e.spcId : ℤ) := by
      rcases hd with hd | hd
      · obtain ⟨hne, hdec, hlimit, hint⟩ := pyStr_decimals hd
        exact ⟨⟨hne, hdec, hlimit⟩, hint⟩
      · exact hd
    obtain ⟨hcode, haddr, hextra, hvid⟩ := he.pipeFree
    let x : EventText := ⟨d, e.timestampRaw, e.siaCode, e.address, e.description, e.extra,
      e.verificationId, hid.1, he.stamp, hcode, haddr, hextra, hvid⟩
    have hreads : Reads x.spc x.ts x.rest e := ⟨hid.2, rfl, he.timestamp, rfl, he.pipeFree⟩
    rw [hreads.unique x.reads]
    exact x.parse_text

/-- A description with `|`, `]` and a line break in it. -/
theorem SiaEvent.parse_grammar_alarm :
    ∃ e, SiaEvent.parse (text " E2[#1000|08521203132026|BA|3|Zone 3 | [Lobby]\n|metadata|99]\r\n") =
      .ok e ∧ Reads (text "1000") (text "08521203132026")
        (text "BA|3|Zone 3 | [Lobby]\n|metadata|99") e ∧ e.timestamp = none := by
  have hgrammar : Grammar
      (strip (text " E2[#1000|08521203132026|BA|3|Zone 3 | [Lobby]\n|metadata|99]\r\n"))
      (text "1000") (text "08521203132026") (text "BA|3|Zone 3 | [Lobby]\n|metadata|99") :=
    ⟨by decide +kernel, ⟨by decide +kernel, by decide +kernel, by decide +kernel⟩,
      ⟨by decide +kernel, by decide +kernel⟩, by decide +kernel⟩
  obtain ⟨e, he, hreads⟩ := (SiaEvent.parse_grammar _).2.1 _ _ _ hgrammar
  refine ⟨e, he, hreads, ?_⟩
  have hnone : parseTimestamp (text "08521203132026") = none := by decide +kernel
  refine Option.eq_none_iff_forall_ne_some.mpr fun t ht => ?_
  have := (parseTimestamp_eq_some_iff hgrammar.stamp t).mpr ((hreads.timestamp t).mp ht)
  rw [hnone] at this
  cases this

end Spcedp.Events
