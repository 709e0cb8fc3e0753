import Spcedp.Interface.Panel
import Spcedp.Interface.PyText

/-!
# IDs in rows and events

`_parse_id` and `apply_event` ask `isdigit` before they call `int`. The two agree on decimal
digits, up to the digit limit, and on every text that `isdigit` refuses. Between them lie the
texts with a digit that is not a decimal one, and those with too many digits: there `int`
raises, and with it the refresh or the event (`snapshot_iff`).
-/

set_option autoImplicit false

namespace Spcedp

open Lib Lib.Table Spcedp.PyText Spcedp.Xmlcmd Spcedp.Events Panel

/-! ## What an ID may look like -/

/-- The text consists of decimal digits that `int` converts to `n`. -/
def Spells (raw : Text) (n : ℤ) : Prop := (∀ c ∈ raw, isDecimal c) ∧ pyInt raw = some n

/-- The text passes for a number, and is none: it consists of digits, but one of them is not a
decimal digit, or they are more than `int` accepts. -/
def Unreadable (raw : Text) : Prop :=
  raw ≠ [] ∧ (∀ c ∈ raw, isDigitChar c) ∧ ((∃ c ∈ raw, ¬isDecimal c) ∨ maxStrDigits < raw.length)

/-- The ID of the row is the number `n`. -/
def HasId (row : Row) (n : ℤ) : Prop := ∃ raw, row.get (text "ID") = some raw ∧ Spells raw n

/-- No row has an ID that passes for a number and is none. -/
def Readable (rows : List Row) : Prop :=
  ∀ row ∈ rows, ∀ raw, row.get (text "ID") = some raw → ¬Unreadable raw

/-- The table holds the IDs of the rows, each with the last row that has it; the rows with no
usable ID play no part. -/
structure Snapshot {V : Type} (rows : List Row) (entry : Row → ℤ → V) (t : Table ℤ V) : Prop where
  present : ∀ n, n ∈ t ↔ ∃ row ∈ rows, HasId row n
  last : ∀ before row after n, rows = before ++ row :: after → HasId row n →
    (∀ r ∈ after, ¬HasId r n) → t.lookup n = some (entry row n)

section

variable {raw : Text} {row : Row} {rows : List Row} {n : ℤ}

/-- `isdigit` holds of a text that is not empty and has digits only. -/
theorem isdigit_iff : isdigit raw ↔ raw ≠ [] ∧ ∀ c ∈ raw, isDigitChar c := by
  unfold isdigit
  rw [Bool.and_eq_true, List.all_eq_true]
  simp

/-- The guard lets a text through that `int` refuses exactly if it is unreadable. -/
theorem unreadable_iff : Unreadable raw ↔ isdigit raw ∧ pyInt raw = none := by
  unfold Unreadable
  rw [← and_assoc, ← isdigit_iff]
  exact and_congr_right fun h => (pyInt_isdigit h).symm

/-- A text is read as the number that it spells. -/
theorem number_eq_some_iff : number raw = some n ↔ Spells raw n := by
  unfold number Spells
  constructor
  · intro h
    split at h
    next hdigit =>
      refine ⟨fun c hc => ?_, h⟩
      by_contra hnot
      rw [(pyInt_isdigit hdigit).mpr (.inl ⟨c, hc, hnot⟩)] at h
      cases h
    · cases h
  · rintro ⟨hdec, hint⟩
    have hne : raw ≠ [] := by
      rintro rfl
      have hempty : pyInt [] = none := by decide +kernel
      rw [hempty] at hint
      cases hint
    rw [if_pos (isdigit_iff.mpr ⟨hne, fun c hc => isDigitChar_of_isDecimal (hdec c hc)⟩), hint]

/-- A row is read as having the ID that it has. -/
theorem rowId_eq_some_iff : rowId row = some n ↔ HasId row n := by
  unfold rowId HasId
  rw [Option.bind_eq_some_iff]
  simp only [number_eq_some_iff]

/-- The rows whose ID raises are those with an unreadable one. -/
theorem badId_iff : BadId row ↔ ∃ raw, row.get (text "ID") = some raw ∧ Unreadable raw := by
  unfold BadId
  simp only [unreadable_iff]

/-- The rows load when all of them are readable. -/
theorem loads_iff : Loads rows ↔ Readable rows := by
  unfold Loads Readable
  refine forall₂_congr fun row _ => ?_
  rw [badId_iff]
  push Not
  rfl

/-- A table that takes the last row for each ID is the snapshot of the rows. -/
theorem snapshot_of_lookup {V : Type} {entry : Row → ℤ → V} {t : Table ℤ V}
    (h : ∀ a, t.lookup a = (lastRow rowId rows a).map fun row => entry row a) :
    Snapshot rows entry t where
  present a := by
    rw [← AList.lookup_isSome, h, Option.isSome_map, lastRow_isSome_iff]
    simp only [rowId_eq_some_iff]
  last before row after a hrows hid hafter := by
    have hlast : lastRow rowId rows a = some row := by
      refine lastRow_eq_some_iff.mpr ⟨rowId_eq_some_iff.mpr hid, before, after, hrows, ?_⟩
      intro r hr hra
      exact hafter r hr (rowId_eq_some_iff.mp hra)
    rw [h, hlast, Option.map_some]

end

/-! ## The refreshes and the events -/

namespace Panel

variable {p : Panel} {reply : XmlReply} {ev : SiaEvent}

/-- **`refresh_areas`** gives the snapshot of its reply when every row can be read. -/
theorem refreshAreas_snapshot_iff : (∃ p', p.refreshAreas reply = .ok p' ∧ p'.zones = p.zones ∧
    Snapshot (areaRows reply) p.areaIn p'.areas) ↔ Readable (areaRows reply) := by
  rw [← loads_iff, ← refreshAreas_ok_iff (p := p)]
  refine exists_congr fun p' => and_iff_left_of_imp fun h => ?_
  obtain ⟨hzones, hlookup⟩ := refreshAreas_lookup h
  exact ⟨hzones, snapshot_of_lookup hlookup⟩

/-- **`refresh_zones`** gives the snapshot of its reply when every row can be read. -/
theorem refreshZones_snapshot_iff : (∃ p', p.refreshZones reply = .ok p' ∧ p'.areas = p.areas ∧
    Snapshot (zoneRows reply) Zone.ofRow p'.zones) ↔ Readable (zoneRows reply) := by
  rw [← loads_iff, ← refreshZones_ok_iff (p := p)]
  refine exists_congr fun p' => and_iff_left_of_imp fun h => ?_
  obtain ⟨hareas, hlookup⟩ := refreshZones_lookup h
  exact ⟨hareas, snapshot_of_lookup hlookup⟩

/-- An event with an unreadable address raises. -/
theorem applyEvent_unreadable (h : Unreadable (strip ev.address)) :
    p.applyEvent ev = .error (.badInt (strip ev.address)) := by
  obtain ⟨hdigit, hint⟩ := unreadable_iff.mp h
  unfold applyEvent
  simp only [hdigit, if_true, toInt, hint]
  rfl

/-- An event whose address is not a number changes nothing. -/
theorem applyEvent_not_digit (h : ¬isdigit (strip ev.address)) :
    p.applyEvent ev = .ok (p, {}) := by
  unfold applyEvent
  simp only [if_neg h]
  rfl

/-- An event whose address is a number returns. -/
theorem applyEvent_number {n : ℤ} (hdigit : isdigit (strip ev.address))
    (hint : pyInt (strip ev.address) = some n) : ∃ r, p.applyEvent ev = .ok r := by
  unfold applyEvent
  simp only [hdigit, if_true, toInt, hint, bind, Except.bind]
  split
  · exact ⟨_, rfl⟩
  · split
    · exact ⟨_, rfl⟩
    · split
      · split
        · exact ⟨_, rfl⟩
        · exact ⟨_, rfl⟩
      · exact ⟨_, rfl⟩

/-- **`apply_event`** returns when `int` does not raise on the address. -/
theorem applyEvent_returns_iff : ((∃ r, p.applyEvent ev = .ok r) ∧
    ((∀ n, ¬Spells (strip ev.address) n) → p.applyEvent ev = .ok (p, {}))) ↔
    ¬Unreadable (strip ev.address) := by
  constructor
  · rintro ⟨⟨r, hr⟩, -⟩ hbad
    rw [applyEvent_unreadable hbad] at hr
    cases hr
  · intro hgood
    by_cases hdigit : isdigit (strip ev.address)
    · cases hint : pyInt (strip ev.address) with
      | none => exact absurd (unreadable_iff.mpr ⟨hdigit, hint⟩) hgood
      | some n =>
          refine ⟨applyEvent_number hdigit hint, fun hnone => ?_⟩
          have hnumber : number (strip ev.address) = some n := by
            unfold number
            rw [if_pos hdigit, hint]
          exact absurd (number_eq_some_iff.mp hnumber) (hnone n)
    · exact ⟨⟨_, applyEvent_not_digit hdigit⟩, fun _ => applyEvent_not_digit hdigit⟩

/-- **Bad text aborts a snapshot exactly if it passes for a number.** Each refresh installs the
snapshot of its rows if and only if none of them has an unreadable ID; an event returns, with
nothing done where its address is not a number, if and only if its address is not unreadable. -/
theorem snapshot_iff (p : Panel) (reply : XmlReply) (ev : SiaEvent) :
    ((∃ p', p.refreshAreas reply = .ok p' ∧ p'.zones = p.zones ∧
      Snapshot (areaRows reply) p.areaIn p'.areas) ↔ Readable (areaRows reply)) ∧
    ((∃ p', p.refreshZones reply = .ok p' ∧ p'.areas = p.areas ∧
      Snapshot (zoneRows reply) Zone.ofRow p'.zones) ↔ Readable (zoneRows reply)) ∧
    (((∃ r, p.applyEvent ev = .ok r) ∧
      ((∀ n, ¬Spells (strip ev.address) n) → p.applyEvent ev = .ok (p, {}))) ↔
      ¬Unreadable (strip ev.address)) :=
  ⟨refreshAreas_snapshot_iff, refreshZones_snapshot_iff, applyEvent_returns_iff⟩

/-- A message about a zone that opens, with a superscript two in UTF-8 for its address. -/
def superscriptPush : Wire.Bytes :=
  (text "E2[#1000|08521203062026|ZO|").map UInt8.ofNat ++ [0xC2, 0xB2] ++
    (text "|Front door||0]").map UInt8.ofNat

/-- A superscript two ends a refresh that has a good row too, and it ends an event. -/
theorem superscript_aborts :
    let rows : List Row := [[(text "ID", text "1")], [(text "ID", [0xB2])]]
    ({} : Panel).refreshAreas [(text "AREA_STATUS", rows)] = .error (.badInt [0xB2]) ∧
    ({} : Panel).refreshZones [(text "ZONE_STATUS", rows)] = .error (.badInt [0xB2]) ∧
    ∃ ev, SiaEvent.parseBytes superscriptPush = .ok ev ∧
      ({} : Panel).applyEvent ev = .error (.badInt [0xB2]) := by
  refine ⟨rfl, rfl, ?_⟩
  have hparse : (SiaEvent.parseBytes superscriptPush).toOption.map SiaEvent.address =
      some [0xB2] := by
    decide +kernel
  cases hev : SiaEvent.parseBytes superscriptPush with
  | error e =>
      rw [hev] at hparse
      cases hparse
  | ok ev =>
      rw [hev] at hparse
      refine ⟨ev, rfl, ?_⟩
      have haddress : ev.address = [0xB2] := Option.some.inj hparse
      have hstrip : strip ev.address = [0xB2] := by rw [haddress]; decide
      rw [applyEvent_unreadable, hstrip]
      rw [hstrip]
      exact unreadable_iff.mpr (by decide +kernel)

end Panel

end Spcedp
