import Spcedp.Model.Panel

/-!
# Calls of the panel

`Panel.refresh_areas`, `Panel.refresh_zones` and `Panel.reconcile_event` wait for one
command each. `PanelCall` lists the calls as they are when nothing overlaps them; in a
`PanelWorld` the command is a task of the session, and what stands behind the `await` runs
on in the step in which the command ends, on the panel as it is then.
-/

set_option autoImplicit false

namespace Spcedp

open Spcedp.PyText Spcedp.Xmlcmd Spcedp.Events Spcedp.Client

/-- The panel that is assigned, or the old one where the call raises. -/
def Panel.assigned (p : Panel) : Except PanelError Panel → Panel
  | .ok p => p
  | .error _ => p

/-- The panel after `apply_event`. -/
def Panel.applied (p : Panel) (ev : SiaEvent) : Panel := p.assigned ((p.applyEvent ev).map Prod.fst)

/-! ## Calls one after the other -/

/-- A call of the panel, with how its command ends. -/
inductive PanelCall
  | applyEvent (ev : SiaEvent)
  | reconcileEvent (ev : SiaEvent) (reply : Except Outcome XmlReply)
  | refreshAreas (reply : Except Outcome XmlReply)
  | refreshZones (reply : Except Outcome XmlReply)

/-- The panel after a call. -/
def Panel.call (p : Panel) : PanelCall → Panel
  | .applyEvent ev => p.applied ev
  | .reconcileEvent ev reply => (p.reconcileEvent ev reply).1
  | .refreshAreas (.ok reply) => p.assigned (p.refreshAreas reply)
  | .refreshZones (.ok reply) => p.assigned (p.refreshZones reply)
  | .refreshAreas (.error _) | .refreshZones (.error _) => p

/-! ## Calls that overlap -/

/-- A call of the panel that waits for its command, with its local variables. -/
inductive Job
  | refreshAreas
  | refreshZones
  | reconcile (ev : SiaEvent) (areaIds : Finset ℤ)
  deriving DecidableEq

def Job.commandId : Job → Text
  | refreshZones => xmlZoneStatus
  | refreshAreas | reconcile _ _ => xmlAreaStatus

/-- The command of a job, with the timeout that is the default of `xml_command`. -/
def Job.command (job : Job) : Command := .xml job.commandId 5 []

/-- The part of a job behind its `await`. -/
def Panel.finish (p : Panel) (job : Job) (reply : XmlReply) : Panel :=
  match job with
  | .refreshAreas => p.assigned (p.refreshAreas reply)
  | .refreshZones => p.assigned (p.refreshZones reply)
  | .reconcile ev areaIds => (p.reconcileAreas ev areaIds reply).1

/-- A panel on its session. `jobs` are the tasks that the panel has started. -/
structure PanelWorld where
  world : World
  panel : Panel := {}
  jobs : ℕ → Option Job := fun _ => none

/-- What can happen next. -/
inductive PanelAction
  | refreshAreas (t : ℕ)
  | refreshZones (t : ℕ)
  /-- Task `t` calls `reconcile_event`. -/
  | reconcileEvent (t : ℕ) (ev : SiaEvent)
  | applyEvent (ev : SiaEvent)
  /-- Anything else that happens on the session. -/
  | session (a : Action)

namespace PanelWorld

/-- `Panel(session)`, on a session that has just come in. -/
def new (panelId receiverId : ℤ) (key : Option Wire.Bytes) (now : ℚ) : PanelWorld where
  world := World.new panelId receiverId key now

def applyEvent (pw : PanelWorld) (ev : SiaEvent) : PanelWorld :=
  { pw with panel := pw.panel.applied ev }

section

variable (env : Env)

/-- Task `t` calls the command of a job. -/
def start (pw : PanelWorld) (t : ℕ) (job : Job) : Option PanelWorld :=
  (pw.world.step env (.call t job.command)).map fun world =>
    { pw with world := world, jobs := Function.update pw.jobs t (some job) }

/-- The panel after action `a` has led to `world`: a job whose command has its reply runs
to its end. -/
def landed (pw : PanelWorld) (a : Action) (world : World) : Panel :=
  match a with
  | .resume t =>
      match pw.jobs t, (world.tasks t).pc with
      | some job, .finished (.reply reply) => pw.panel.finish job reply
      | _, _ => pw.panel
  | _ => pw.panel

def step (pw : PanelWorld) : PanelAction → Option PanelWorld
  | .refreshAreas t => pw.start env t .refreshAreas
  | .refreshZones t => pw.start env t .refreshZones
  | .reconcileEvent t ev =>
      if NeedsAreaStatus (upper ev.siaCode) then
        pw.start env t (.reconcile ev pw.panel.areaIds)
      else some (pw.applyEvent ev)
  | .applyEvent ev => some (pw.applyEvent ev)
  | .session a =>
      (pw.world.step env a).map fun world =>
        { pw with world := world, panel := pw.landed a world }

end

end PanelWorld

end Spcedp
