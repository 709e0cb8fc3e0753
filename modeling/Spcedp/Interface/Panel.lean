import Spcedp.Model.PanelTasks

/-!
# What the calls of a panel do to its entries

The two refreshes give for each ID the entity of the last row with that ID
(`refreshAreas_lookup`, `refreshZones_lookup`); `apply_event` changes the input of one zone
and raises the alarm of its area (`applied_zones`, `applied_areas`).
-/

set_option autoImplicit false

namespace Spcedp

open Lib Lib.Table Spcedp.PyText Spcedp.Xmlcmd Spcedp.Events

/-! ## IDs -/

/-- The number that a text of digits spells. -/
def number (raw : Text) : Option ℤ := if isdigit raw then pyInt raw else none

/-- The ID of a row that has a usable one. -/
def rowId (row : Row) : Option ℤ := (row.get (text "ID")).bind number

/-- `int` raises on the ID of the row. -/
def BadId (row : Row) : Prop :=
  ∃ raw, row.get (text "ID") = some raw ∧ isdigit raw ∧ pyInt raw = none

/-- An ID is read, unless `int` raises on it. -/
theorem parseId_ok_iff {row : Row} {v : Option ℤ} :
    parseId row = .ok v ↔ ¬BadId row ∧ rowId row = v := by
  unfold parseId BadId rowId number
  cases row.get (text "ID") with
  | none => simp
  | some raw =>
      by_cases hdigit : isdigit raw = true
      · cases hint : pyInt raw with
        | none => simp [hdigit, toInt, hint, Functor.map, Except.map]
        | some n => simp [hdigit, toInt, hint, Functor.map, Except.map]
      · simp [hdigit]

/-- Where `int` raises, the ID is bad. -/
theorem bad_of_error {row : Row} {e : PanelError} (h : parseId row = .error e) : BadId row := by
  by_contra hgood
  rw [parseId_ok_iff.mpr ⟨hgood, rfl⟩] at h
  cases h

/-! ## Rows -/

/-- What a row says about the area `a`. -/
def Area.ofRow (row : Row) (a : ℤ) : Area where
  id := a
  name := (row.get (text "NAME")).getD []
  mode := (row.get (text "MODE")).getD []

/-- An area has the ID of its row. -/
@[simp] theorem Area.ofRow_id (row : Row) (a : ℤ) : (Area.ofRow row a).id = a := rfl

/-- What a row says about the zone `z`. -/
def Zone.ofRow (row : Row) (z : ℤ) : Zone where
  id := z
  type := (row.get (text "TYPE")).getD []
  name := (row.get (text "ZONE_NAME")).getD []
  areaId := Zone.areaOfRow row
  input := (row.get (text "INPUT")).getD []

section

variable {row : Row}

/-- A row gives an area unless `int` raises on its ID; without an ID there is none. -/
theorem areaFromRow_eq_ok_iff {v : Option Area} :
    Area.fromRow row = .ok v ↔ ¬BadId row ∧ (rowId row).map (Area.ofRow row) = v := by
  unfold Area.fromRow
  cases hid : parseId row with
  | error e =>
      have hbad : BadId row := bad_of_error hid
      simp [hbad, bind, Except.bind]
  | ok id? =>
      obtain ⟨hgood, hrow⟩ := parseId_ok_iff.mp hid
      rw [hrow]
      cases id? <;> simp [hgood, bind, Except.bind, pure, Except.pure, Area.ofRow]

/-- A row gives a zone unless `int` raises on its ID; without an ID there is none. -/
theorem zoneFromRow_eq_ok_iff {v : Option Zone} :
    Zone.fromRow row = .ok v ↔ ¬BadId row ∧ (rowId row).map (Zone.ofRow row) = v := by
  unfold Zone.fromRow
  cases hid : parseId row with
  | error e =>
      have hbad : BadId row := bad_of_error hid
      simp [hbad, bind, Except.bind]
  | ok id? =>
      obtain ⟨hgood, hrow⟩ := parseId_ok_iff.mp hid
      rw [hrow]
      cases id? <;> simp [hgood, bind, Except.bind, pure, Except.pure, Zone.ofRow]

/-- The row says that its area is unset. -/
def ModeUnset (row : Row) : Prop := row.get (text "MODE") = some (text "0")

instance : DecidablePred ModeUnset := fun row =>
  inferInstanceAs (Decidable (row.get (text "MODE") = some (text "0")))

/-- The token `"0"` alone is the mode `UNSET`. -/
theorem armMode_ofRow_iff {a : ℤ} :
    (Area.ofRow row a).armMode = some .unset ↔ ModeUnset row := by
  unfold ModeUnset Area.armMode ArmMode.ofToken Area.ofRow
  cases row.get (text "MODE") with
  | none => simp [text]
  | some mode =>
      rw [Option.getD_some, Option.some.injEq]
      by_cases h : mode = text "0"
      · simp [h]
      · rw [if_neg h]
        refine iff_of_false ?_ h
        split <;> try split <;> try split
        all_goals simp

end

/-! ## Snapshots -/

namespace Panel

variable {p p' : Panel} {reply : XmlReply}

/-- The alarm of an area that is known. -/
def alarm (p : Panel) (a : ℤ) : Option Bool := (p.areas.lookup a).map Area.triggered

/-- The area `a` after a refresh whose last row for it is `row`. -/
def areaIn (p : Panel) (row : Row) (a : ℤ) : Area :=
  { Area.ofRow row a with triggered := p.alarm a = some true ∧ ¬ModeUnset row }

/-- An alarm is kept where there was one, unless the row says that the area is unset. -/
theorem keptAlarm_ofRow (p : Panel) (row : Row) (a : ℤ) :
    p.keptAlarm (Area.ofRow row a) = decide (p.alarm a = some true ∧ ¬ModeUnset row) := by
  unfold keptAlarm alarm
  simp only [ne_eq, armMode_ofRow_iff]
  dsimp only [Area.ofRow_id]
  cases p.areas.lookup a with
  | none => simp
  | some previous => by_cases h : ModeUnset row <;> simp [h]

/-- The area that `refresh_areas` makes of a row. -/
theorem areaOfRow_eq_ok_iff {row : Row} {v : Option Area} :
    p.areaOfRow row = .ok v ↔ ¬BadId row ∧ (rowId row).map (p.areaIn row) = v := by
  unfold areaOfRow
  cases hrow : Area.fromRow row with
  | error e =>
      have hbad : BadId row := by
        by_contra hgood
        rw [areaFromRow_eq_ok_iff.mpr ⟨hgood, rfl⟩] at hrow
        cases hrow
      simp [hbad, bind, Except.bind]
  | ok area? =>
      obtain ⟨hgood, rfl⟩ := areaFromRow_eq_ok_iff.mp hrow
      cases rowId row with
      | none => simp [hgood, bind, Except.bind, pure, Except.pure]
      | some a =>
          simp only [bind, Except.bind, pure, Except.pure, Option.map_some, keptAlarm_ofRow]
          simp [hgood, areaIn]

/-- No row makes `int` raise. -/
def Loads (rows : List Row) : Prop := ∀ row ∈ rows, ¬BadId row

/-- The rows of the areas in a reply, and those of the zones. -/
def areaRows (reply : XmlReply) : List Row := reply.get (text "AREA_STATUS")
def zoneRows (reply : XmlReply) : List Row := reply.get (text "ZONE_STATUS")

/-- A row that is loaded is looked up under its ID. -/
theorem load_rows {V : Type} {key : V → ℤ} {build : Row → Except PanelError (Option V)}
    {entry : Row → ℤ → V} {rows : List Row} {t : Table ℤ V} (hkey : ∀ row a, key (entry row a) = a)
    (hbuild : ∀ row v, build row = .ok v ↔ ¬BadId row ∧ (rowId row).map (entry row) = v)
    (h : load key build rows = .ok t) (a : ℤ) :
    t.lookup a = (lastRow rowId rows a).map fun row => entry row a := by
  have hident : ∀ row v, build row = .ok v → rowId row = v.map key := by
    intro row v hrow
    rw [← ((hbuild row v).mp hrow).2]
    cases rowId row <;> simp [hkey]
  rw [load_lookup hident h]
  cases hlast : lastRow rowId rows a with
  | none => rfl
  | some row =>
      obtain ⟨v, hv⟩ := load_ok_iff.mp ⟨t, h⟩ row (mem_of_lastRow hlast)
      have hentry := ((hbuild row v).mp hv).2
      rw [ident_lastRow hlast] at hentry
      simp [built, hv, ← hentry]

/-- A pass over rows fails if and only if `int` raises on one of them. -/
theorem load_rows_ok_iff {V : Type} (key : V → ℤ) {build : Row → Except PanelError (Option V)}
    {entry : Row → ℤ → V} {rows : List Row}
    (hbuild : ∀ row v, build row = .ok v ↔ ¬BadId row ∧ (rowId row).map (entry row) = v) :
    (∃ t, load key build rows = .ok t) ↔ Loads rows := by
  rw [load_ok_iff]
  refine forall₂_congr fun row _ => ?_
  simp [hbuild]

/-- **An area refresh takes, for each ID, the last row with that ID**, and keeps the alarm that
the area had unless that row reports it unset. -/
theorem refreshAreas_lookup (h : p.refreshAreas reply = .ok p') : p'.zones = p.zones ∧
    ∀ a, p'.areas.lookup a = (lastRow rowId (areaRows reply) a).map fun row => p.areaIn row a := by
  unfold refreshAreas at h
  cases hload : load Area.id p.areaOfRow (reply.get (text "AREA_STATUS")) with
  | error e =>
      rw [hload] at h
      cases h
  | ok areas =>
      rw [hload] at h
      cases h
      exact ⟨rfl, load_rows (fun _ _ => rfl) (fun _ _ => areaOfRow_eq_ok_iff) hload⟩

/-- **A zone refresh takes, for each ID, the last row with that ID.** -/
theorem refreshZones_lookup (h : p.refreshZones reply = .ok p') : p'.areas = p.areas ∧
    ∀ z, p'.zones.lookup z =
      (lastRow rowId (zoneRows reply) z).map fun row => Zone.ofRow row z := by
  unfold refreshZones at h
  cases hload : load Zone.id Zone.fromRow (reply.get (text "ZONE_STATUS")) with
  | error e =>
      rw [hload] at h
      cases h
  | ok zones =>
      rw [hload] at h
      cases h
      exact ⟨rfl, load_rows (fun _ _ => rfl) (fun _ _ => zoneFromRow_eq_ok_iff) hload⟩

/-- An area refresh raises if and only if `int` does on some row. -/
theorem refreshAreas_ok_iff : (∃ p', p.refreshAreas reply = .ok p') ↔ Loads (areaRows reply) := by
  rw [← load_rows_ok_iff Area.id fun _ _ => areaOfRow_eq_ok_iff (p := p)]
  unfold refreshAreas areaRows
  cases load Area.id p.areaOfRow (reply.get (text "AREA_STATUS")) with
  | error e => simp [bind, Except.bind]
  | ok areas => simp [bind, Except.bind, pure, Except.pure]

/-- A zone refresh raises if and only if `int` does on some row. -/
theorem refreshZones_ok_iff : (∃ p', p.refreshZones reply = .ok p') ↔ Loads (zoneRows reply) := by
  rw [← load_rows_ok_iff Zone.id fun _ _ => zoneFromRow_eq_ok_iff]
  unfold refreshZones zoneRows
  cases load Zone.id Zone.fromRow (reply.get (text "ZONE_STATUS")) with
  | error e => simp [bind, Except.bind]
  | ok zones => simp [bind, Except.bind, pure, Except.pure]

/-- The flags after an area refresh. -/
theorem refreshAreas_alarm (h : p.refreshAreas reply = .ok p') (a : ℤ) : p'.alarm a =
    (lastRow rowId (areaRows reply) a).map fun row =>
      decide (p.alarm a = some true ∧ ¬ModeUnset row) := by
  unfold alarm
  rw [(refreshAreas_lookup h).2, Option.map_map]
  rfl

/-- **An alarm that goes out in a refresh** is that of an area which is no longer armed. -/
theorem isArmed_of_refreshAreas (h : p.refreshAreas reply = .ok p') {a : ℤ} {area : Area}
    (halarm : p.alarm a = some true) (harea : p'.areas.lookup a = some area)
    (hout : area.triggered = false) : area.isArmed = some false := by
  rw [(refreshAreas_lookup h).2, Option.map_eq_some_iff] at harea
  obtain ⟨row, -, rfl⟩ := harea
  have hunset : ModeUnset row := by
    by_contra hset
    simp [areaIn, halarm, hset] at hout
  have hmode : (Area.ofRow row a).armMode = some .unset := armMode_ofRow_iff.mpr hunset
  have hsame : (p.areaIn row a).armMode = some .unset := hmode
  unfold Area.isArmed
  rw [hsame]
  rfl

/-! ## Events -/

/-- The areas after the flag of one of them is raised, if it is known. -/
def raised (areas : Table ℤ Area) : Option ℤ → Table ℤ Area
  | some a => areas.modify a fun area => { area with triggered := true }
  | none => areas

/-- An event for no area raises no alarm. -/
@[simp] theorem raised_none (areas : Table ℤ Area) : raised areas none = areas := rfl

/-- An event for an area that is not there raises no alarm. -/
theorem raised_of_unknown {areas : Table ℤ Area} {a : ℤ} (h : areas.lookup a = none) :
    raised areas (some a) = areas := modify_of_none h

/-- Raising a flag raises that one only. -/
theorem alarm_of_raised {area? : Option ℤ} (h : p'.areas = raised p.areas area?) (a : ℤ) :
    p'.alarm a = if area? = some a then (p.alarm a).map fun _ => true else p.alarm a := by
  unfold alarm
  rw [h]
  cases area? with
  | none => rfl
  | some b =>
      unfold raised
      dsimp only
      rw [modify_lookup]
      by_cases hb : a = b
      · subst hb
        simp [Function.comp_def]
      · rw [if_neg hb, if_neg fun h => hb (Option.some.inj h).symm]

/-- The zone that an event names, and whether the event opens it; nothing for the events that
`apply_event` ignores. -/
def zoneEvent (ev : SiaEvent) : Option (ℤ × Bool) :=
  (number (strip ev.address)).bind fun z => (opens (upper ev.siaCode)).map fun open_ => (z, open_)

/-- The area of the zone that an alarm names. -/
def alarmArea (p : Panel) (ev : SiaEvent) : Option ℤ :=
  if IsAlarm (upper ev.siaCode) then
    (number (strip ev.address)).bind fun z => (p.zones.lookup z).map Zone.areaId
  else none

/-- The token of an open or a closed zone. -/
def zoneToken (open_ : Bool) : Text := if open_ then zoneOpen else zoneClosed

/-- An alarm opens its zone. -/
theorem opens_of_alarm {code : Text} (h : IsAlarm code) : opens code = some true := by
  unfold opens
  rw [if_neg ?_, if_pos (.inr h)]
  rintro rfl
  revert h
  decide

variable {ev : SiaEvent}

/-- **What `apply_event` changes**: the input of the zone that the event names, and for an
alarm the flag of the area of that zone. -/
theorem applied_eq : p.applied ev = {
    zones := match zoneEvent ev with
      | some (z, open_) => p.zones.modify z fun zone => { zone with input := zoneToken open_ }
      | none => p.zones
    areas := raised p.areas (p.alarmArea ev) } := by
  unfold applied applyEvent zoneEvent alarmArea number
  by_cases hdigit : isdigit (strip ev.address) = true
  · simp only [hdigit, if_true]
    cases hint : pyInt (strip ev.address) with
    | none => simp [toInt, hint, bind, Except.bind, Except.map, assigned]
    | some z =>
        simp only [toInt, hint, bind, Except.bind, pure, Except.pure, Option.bind_some]
        cases hopens : opens (upper ev.siaCode) with
        | none =>
            have hcode : ¬IsAlarm (upper ev.siaCode) := by
              intro h
              rw [opens_of_alarm h] at hopens
              cases hopens
            rw [if_neg hcode]
            rfl
        | some open_ =>
            dsimp only [Option.map_some, Option.bind_some]
            cases hzone : p.zones.lookup z with
            | none =>
                simp only [Option.map_none, ite_self, modify_of_none hzone]
                rfl
            | some zone =>
                dsimp only
                by_cases hcode : IsAlarm (upper ev.siaCode)
                · rw [if_pos hcode, if_pos hcode]
                  cases harea : p.areas.lookup zone.areaId with
                  | none =>
                      simp only [Option.map_some, raised_of_unknown harea]
                      rfl
                  | some area => rfl
                · rw [if_neg hcode, if_neg hcode]
                  rfl
  · simp [hdigit, pure, Except.pure, Except.map, assigned]

/-- **The zone that an event names** is open or closed then, as the event says. -/
theorem applied_isOpen {z : ℤ} {open_ : Bool} (hevent : zoneEvent ev = some (z, open_))
    (hknown : p.zones.lookup z ≠ none) :
    ((p.applied ev).zones.lookup z).bind Zone.isOpen = some open_ := by
  obtain ⟨zone, hzone⟩ := Option.ne_none_iff_exists'.mp hknown
  rw [applied_eq, hevent]
  dsimp only
  rw [modify_lookup, if_pos rfl, hzone, Option.map_some, Option.bind_some]
  cases open_ <;> rfl

/-- **The flags after an event.** -/
theorem applied_alarm (a : ℤ) : (p.applied ev).alarm a =
    if p.alarmArea ev = some a then (p.alarm a).map fun _ => true else p.alarm a :=
  alarm_of_raised (by rw [applied_eq]) a

/-- Events leave every area known, and every flag that is set. -/
theorem alarm_foldl_applied (evs : List SiaEvent) (a : ℤ) :
    ((evs.foldl applied p).alarm a = none ↔ p.alarm a = none) ∧
    (p.alarm a = some true → (evs.foldl applied p).alarm a = some true) := by
  induction evs generalizing p with
  | nil => exact ⟨Iff.rfl, id⟩
  | cons ev evs ih =>
      obtain ⟨hknown, hset⟩ := ih (p := p.applied ev)
      rw [List.foldl_cons, hknown]
      refine ⟨?_, fun h => hset ?_⟩
      · rw [applied_alarm]
        split <;> simp
      · rw [applied_alarm]
        split <;> simp [h]

/-- The area that a verified alarm names. -/
def verifiedArea (ev : SiaEvent) : Option ℤ :=
  if upper ev.siaCode = text "BV" then number (strip ev.address) else none

/-- A verified alarm raises the flag of the area that it names. -/
theorem markVerified_eq (areaIds : Finset ℤ) :
    (p.markVerified ev areaIds).1 = { p with areas := raised p.areas (verifiedArea ev) } := by
  unfold markVerified verifiedArea number
  dsimp only
  by_cases hcode : upper ev.siaCode = text "BV"
  · by_cases hdigit : isdigit (strip ev.address) = true
    · rw [if_pos ⟨hcode, hdigit⟩, if_pos hcode, if_pos hdigit]
      unfold toInt
      cases pyInt (strip ev.address) with
      | none => rfl
      | some a =>
          dsimp only
          cases harea : p.areas.lookup a with
          | none => rw [raised_of_unknown harea]
          | some area => rfl
    · rw [if_neg fun h => hdigit h.2, if_pos hcode, if_neg hdigit]
      rfl
  · rw [if_neg fun h => hcode h.1, if_neg hcode]
    rfl

/-- `reconcile_event` behind its command: a refresh, and then a verified alarm. -/
theorem reconcileAreas_eq (areaIds : Finset ℤ) : (p.reconcileAreas ev areaIds reply).1 =
    match p.refreshAreas reply with
    | .ok p' => { p' with areas := raised p'.areas (verifiedArea ev) }
    | .error _ => p := by
  unfold reconcileAreas
  cases p.refreshAreas reply with
  | error e => rfl
  | ok p' => exact markVerified_eq _

/-- Every other event goes to `apply_event`. -/
theorem reconcileEvent_applied {outcome : Except Client.Outcome XmlReply}
    (h : ¬NeedsAreaStatus (upper ev.siaCode)) : (p.reconcileEvent ev outcome).1 = p.applied ev := by
  unfold reconcileEvent applied
  rw [if_neg h]
  cases p.applyEvent ev <;> rfl

end Panel

end Spcedp
