import Spcedp.Lib.Table
import Spcedp.Model.Commands

/-!
# The panel snapshot

`spcedp/panel.py`: areas and zones as the panel reported them last, changed by pushed
events. A call that waits for a command is given what the command returned or raised;
`PanelTasks` lets such calls overlap. The two dictionaries are tables, whose order nothing
reads. Logging, the panel's identity and the zone types are left out.
-/

set_option autoImplicit false

namespace Spcedp

open Lib Spcedp.PyText Spcedp.Xmlcmd Spcedp.Events Spcedp.Client

/-! ## Constants -/

/-- The commands that read the panel's identity, its areas and its zones. -/
@[simp] abbrev xmlInfo : Text := text "info"
@[simp] abbrev xmlAreaStatus : Text := text "area_status"
@[simp] abbrev xmlZoneStatus : Text := text "zone_status"

/-- The events whose address may be a user; they need an `AREA_STATUS` read. -/
@[simp] abbrev areaStatusSiaCodes : List Text := ["BV", "CG", "CL", "NL", "OG", "OP"].map text

/-- The alarms of a zone. -/
@[simp] abbrev alarmSiaCodes : List Text := ["BA", "FA", "PA", "HA", "TA"].map text

def NeedsAreaStatus (code : Text) : Prop := code ∈ areaStatusSiaCodes

def IsAlarm (code : Text) : Prop := code ∈ alarmSiaCodes

instance : DecidablePred NeedsAreaStatus := fun code =>
  inferInstanceAs (Decidable (code ∈ areaStatusSiaCodes))

instance : DecidablePred IsAlarm := fun code => inferInstanceAs (Decidable (code ∈ alarmSiaCodes))

/-! ## Areas and zones -/

inductive ArmMode
  | unset
  | partA
  | partB
  | full
  deriving DecidableEq, Repr

/-- `ArmMode(token)`; `none` where Python raises. -/
def ArmMode.ofToken (token : Text) : Option ArmMode :=
  if token = text "0" then some unset
  else if token = text "1" then some partA
  else if token = text "2" then some partB
  else if token = text "3" then some full
  else none

structure Area where
  id : ℤ
  name : Text := []
  mode : Text := []
  triggered : Bool := false
  deriving DecidableEq, Repr

def Area.armMode (area : Area) : Option ArmMode := ArmMode.ofToken area.mode

def Area.isArmed (area : Area) : Option Bool := area.armMode.map fun mode => mode ≠ .unset

structure Zone where
  id : ℤ
  type : Text
  name : Text
  areaId : ℤ
  input : Text
  deriving DecidableEq, Repr

/-- `ZoneInput.CLOSED` and `ZoneInput.OPEN`. -/
@[simp] abbrev zoneClosed : Text := text "0"
@[simp] abbrev zoneOpen : Text := text "1"

def Zone.isOpen (zone : Zone) : Option Bool :=
  if zone.input = zoneOpen then some true
  else if zone.input = zoneClosed then some false
  else none

/-! ## Rows -/

/-- What a call of the panel raises: `int` on characters that only `isdigit` takes for digits,
or on too many digits, and what the command ended with instead of a reply. -/
inductive PanelError
  | badInt (raw : Text)
  | command (outcome : Outcome)

/-- `int(raw)`, once `raw.isdigit()`. -/
def toInt (raw : Text) : Except PanelError ℤ :=
  match pyInt raw with
  | some n => .ok n
  | none => .error (.badInt raw)

/-- `_parse_id`. -/
def parseId (row : Row) : Except PanelError (Option ℤ) :=
  match row.get (text "ID") with
  | none => .ok none
  | some raw => if isdigit raw then some <$> toInt raw else .ok none

def Area.fromRow (row : Row) : Except PanelError (Option Area) := do
  match ← parseId row with
  | none => return none
  | some areaId =>
      return some {
        id := areaId
        name := (row.get (text "NAME")).getD []
        mode := (row.get (text "MODE")).getD [] }

/-- `int(row.get("AREA", "0") or 0)`, and 0 where that raises. -/
def Zone.areaOfRow (row : Row) : ℤ :=
  let raw := (row.get (text "AREA")).getD (text "0")
  if raw = [] then 0 else (pyInt raw).getD 0

def Zone.fromRow (row : Row) : Except PanelError (Option Zone) := do
  match ← parseId row with
  | none => return none
  | some zoneId =>
      return some {
        id := zoneId
        type := (row.get (text "TYPE")).getD []
        name := (row.get (text "ZONE_NAME")).getD []
        areaId := areaOfRow row
        input := (row.get (text "INPUT")).getD [] }

/-! ## The panel -/

/-- The entities that a call has changed. -/
structure EventStateUpdate where
  zoneIds : Finset ℤ := ∅
  areaIds : Finset ℤ := ∅
  deriving DecidableEq

structure Panel where
  areas : Table ℤ Area := ∅
  zones : Table ℤ Zone := ∅

namespace Panel

/-- The alarm that an area keeps in a refresh: that of the snapshot so far, unless the area is
reported unset. -/
def keptAlarm (p : Panel) (area : Area) : Bool :=
  match p.areas.lookup area.id with
  | some previous => if area.armMode ≠ some .unset then previous.triggered else false
  | none => false

/-- The body of the loop of `refresh_areas`. -/
def areaOfRow (p : Panel) (row : Row) : Except PanelError (Option Area) := do
  let area ← Area.fromRow row
  return area.map fun area => { area with triggered := p.keptAlarm area }

/-- `refresh_areas`, from the reply on. -/
def refreshAreas (p : Panel) (reply : XmlReply) : Except PanelError Panel := do
  let areas ← Table.load Area.id p.areaOfRow (reply.get (text "AREA_STATUS"))
  return { p with areas := areas }

/-- `refresh_zones`, from the reply on. -/
def refreshZones (p : Panel) (reply : XmlReply) : Except PanelError Panel := do
  let zones ← Table.load Zone.id Zone.fromRow (reply.get (text "ZONE_STATUS"))
  return { p with zones := zones }

/-- Does an event open or close the zone it names? -/
def opens (code : Text) : Option Bool :=
  if code = text "ZC" then some false
  else if code = text "ZO" ∨ IsAlarm code then some true
  else none

/-- `apply_event`: the panel afterwards, and the entities changed. -/
def applyEvent (p : Panel) (ev : SiaEvent) : Except PanelError (Panel × EventStateUpdate) := do
  let code := upper ev.siaCode
  let addr := strip ev.address
  if isdigit addr then
    let target ← toInt addr
    match opens code with
    | none => return (p, {})
    | some open_ =>
        match p.zones.lookup target with
        | none => return (p, {})
        | some zone =>
            let input := if open_ then zoneOpen else zoneClosed
            let p :=
              { p with zones := p.zones.modify target fun zone => { zone with input := input } }
            if IsAlarm code then
              match p.areas.lookup zone.areaId with
              | none => return (p, { zoneIds := {zone.id} })
              | some area =>
                  let areas :=
                    p.areas.modify zone.areaId fun area => { area with triggered := true }
                  return ({ p with areas := areas }, { zoneIds := {zone.id}, areaIds := {area.id} })
            else return (p, { zoneIds := {zone.id} })
  else return (p, {})

/-- The IDs of the areas. -/
def areaIds (p : Panel) : Finset ℤ := p.areas.keys.toFinset

/-- The part of `reconcile_event` behind the refresh: a verified alarm is marked. -/
def markVerified (p : Panel) (ev : SiaEvent) (areaIds : Finset ℤ) :
    Panel × Except PanelError EventStateUpdate :=
  let addr := strip ev.address
  if upper ev.siaCode = text "BV" ∧ isdigit addr then
    match toInt addr with
    | .error e => (p, .error e)
    | .ok target =>
        match p.areas.lookup target with
        | none => (p, .ok { areaIds := areaIds })
        | some area =>
            let areas := p.areas.modify target fun area => { area with triggered := true }
            ({ p with areas := areas }, .ok { areaIds := insert area.id areaIds })
  else (p, .ok { areaIds := areaIds })

/-- `reconcile_event` for a code that needs an `AREA_STATUS` read, from the reply on;
`areaIds` are the areas from before the command. What is raised comes with the panel as it
is then. -/
def reconcileAreas (p : Panel) (ev : SiaEvent) (areaIds : Finset ℤ) (reply : XmlReply) :
    Panel × Except PanelError EventStateUpdate :=
  match p.refreshAreas reply with
  | .error e => (p, .error e)
  | .ok p => p.markVerified ev (areaIds ∪ p.areaIds)

/-- `reconcile_event` of a panel that nothing else changes meanwhile, given how its command
ends. -/
def reconcileEvent (p : Panel) (ev : SiaEvent) (reply : Except Outcome XmlReply) :
    Panel × Except PanelError EventStateUpdate :=
  if NeedsAreaStatus (upper ev.siaCode) then
    match reply with
    | .error outcome => (p, .error (.command outcome))
    | .ok reply => p.reconcileAreas ev p.areaIds reply
  else
    match p.applyEvent ev with
    | .error e => (p, .error e)
    | .ok (p, update) => (p, .ok update)

end Panel

end Spcedp
