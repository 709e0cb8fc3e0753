import Spcedp.Model.EventStream
import Spcedp.Model.Link
import Spcedp.Model.PanelTasks

/-!
# The application

`on_session` of `examples/listen.py`: it reads the snapshot with `Panel.from_session` and then
hands every event of `Panel.events` to `Panel.reconcile_event`. It runs at the receiver's end of a
link, beside anything else that happens there; the commands that it waits for are tasks of the
session, as in `PanelTasks`. Between two of its steps other tasks may run even where the code does
not suspend. `wait_ready` is given by what it waits for; its wake-ups are in `WaitReady`. What is
printed is left out.
-/

set_option autoImplicit false

namespace Spcedp

open Spcedp.PyText Spcedp.Xmlcmd Spcedp.Events Spcedp.Client

/-! ## The identity of the panel -/

structure PanelInfo where
  type : Text := []
  variant : Text := []
  version : Text := []
  sn : Text := []
  hwVerMajor : Text := []
  hwVerMinor : Text := []
  deriving DecidableEq, Repr

def PanelInfo.fromRow (row : Row) : PanelInfo where
  type := (row.get (text "TYPE")).getD []
  variant := (row.get (text "VARIANT")).getD []
  version := (row.get (text "VERSION")).getD []
  sn := (row.get (text "SN")).getD []
  hwVerMajor := (row.get (text "HW_VER_MAJOR")).getD []
  hwVerMinor := (row.get (text "HW_VER_MINOR")).getD []

/-- `_apply_info`. -/
def PanelInfo.ofReply (reply : XmlReply) : PanelInfo :=
  match reply.get (text "INFO") with
  | row :: _ => fromRow row
  | [] => {}

/-! ## Events in the history -/

/-- The event that a frame carries. -/
def pushedEvent (f : Wire.Frame) : Option SiaEvent :=
  if f.major = Wire.MajorCode.event.value ∧ f.minor = Wire.MinorCode.eventPush.value then
    (SiaEvent.parseBytes f.payload).toOption
  else none

/-- The events that a session has emitted, by its history. -/
def emittedEvents (log : List Entry) : List SiaEvent :=
  log.filterMap fun
    | .dispatched f => pushedEvent f
    | _ => none

/-! ## The task of `on_session` -/

/-- A command that the application waits for. -/
inductive Query
  | info
  | job (job : Job)
  deriving DecidableEq

def Query.command : Query → Command
  | info => .xml xmlInfo 5 []
  | job j => j.command

/-- Where `on_session` stands: in `wait_ready`, before or in the `await` of a command, at the head
of its loop, or at its end. -/
inductive Stage
  | starting
  | calling (q : Query)
  | awaiting (q : Query) (t : ℕ)
  | looping
  | ended (e : TaskEnd)
  deriving DecidableEq

/-- The application at its link. `info` is a field of the panel, and `yielded` are the events that
the generator has yielded so far; nothing reads these two. -/
structure Listener where
  link : Link
  stage : Stage := .starting
  generator : Generator := .finished .closed
  panel : Panel := {}
  info : PanelInfo := {}
  yielded : List SiaEvent := []

inductive ListenerAction
  /-- Anything that happens at the link. -/
  | link (a : LinkAction)
  /-- `wait_ready` returns or raises. -/
  | ready
  /-- `on_session` is cancelled before it has got past `wait_ready`. -/
  | cancel
  /-- The next command is called, as task `t`. -/
  | call (t : ℕ)
  /-- The command has ended. -/
  | settled
  /-- A step of the generator. -/
  | next (a : StreamAction)

/-- What the loop and the tasks of `__anext__` do with the generator. -/
def Client.StreamAction.FromLoop : StreamAction → Bool
  | .anext | .resume | .cancel | .getTask | .closedTask => true
  | _ => false

section

variable (server : PanelServer) (env : Env)

/-- The panel has just connected, and `on_session` is still to come. -/
def Client.PanelServer.listener (now : ℚ) (panelId : ℤ) : Listener where
  link := server.link now panelId

namespace Listener

def sess (l : Listener) : Session := l.link.handler.sess

/-- The session with the generator, and what it has emitted and yielded. -/
def stream (l : Listener) : Stream where
  sess := l.sess
  generator := l.generator
  emitted := emittedEvents l.sess.log
  yielded := l.yielded

/-- The end of `from_session`: the loop asks for its generator. -/
def enterLoop (l : Listener) : Listener := { l with stage := .looping, generator := .fresh }

/-- The application has the reply to its command. -/
def answered (l : Listener) (q : Query) (reply : XmlReply) : Listener :=
  match q with
  | .info => { l with info := .ofReply reply, stage := .calling (.job .refreshAreas) }
  | .job .refreshAreas =>
      match l.panel.refreshAreas reply with
      | .ok panel => { l with panel := panel, stage := .calling (.job .refreshZones) }
      | .error _ => { l with stage := .ended .raised }
  | .job .refreshZones =>
      match l.panel.refreshZones reply with
      | .ok panel => { l with panel := panel }.enterLoop
      | .error _ => { l with stage := .ended .raised }
  | .job (.reconcile ev areaIds) =>
      match l.panel.reconcileAreas ev areaIds reply with
      | (panel, .ok _) => { l with panel := panel, stage := .looping }
      | (panel, .error _) => { l with panel := panel, stage := .ended .raised }

/-- `reconcile_event`, up to its command if it has one. -/
def receive (l : Listener) (ev : SiaEvent) : Listener :=
  if NeedsAreaStatus (upper ev.siaCode) then
    { l with stage := .calling (.job (.reconcile ev l.panel.areaIds)) }
  else
    match l.panel.applyEvent ev with
    | .ok (panel, _) => { l with panel := panel }
    | .error _ => { l with stage := .ended .raised }

/-- The loop after a step of the generator: it has an event, or is over. -/
def turn (l : Listener) (st : Stream) : Listener :=
  let l' : Listener := { l with
    link := { l.link with handler := l.link.handler.setSess st.sess }
    generator := st.generator
    yielded := st.yielded }
  match st.yielded.drop l.yielded.length with
  | ev :: _ => l'.receive ev
  | [] =>
      match st.generator with
      | .finished .returned => { l' with stage := .ended .returned }
      | .finished .cancelled => { l' with stage := .ended .cancelled }
      | _ => l'

/-- One step. The task of `on_session` ends when the application does. -/
def step (l : Listener) : ListenerAction → Option Listener
  | .link (.handler (.sessionEnds e)) =>
      if l.stage = .ended e then
        (l.link.step server env (.handler (.sessionEnds e))).map fun link => { l with link := link }
      else none
  | .link a => (l.link.step server env a).map fun link => { l with link := link }
  | .ready =>
      match l.stage with
      | .starting =>
          if !l.link.handler.conn.sessionTask then none
          else if 1 ≤ l.sess.pollCount then some { l with stage := .calling .info }
          else if l.sess.closed then some { l with stage := .ended .raised }
          else none
      | _ => none
  | .cancel =>
      match l.stage with
      | .starting =>
          if !l.link.handler.conn.sessionTask then none
          else some { l with stage := .ended .cancelled }
      | _ => none
  | .call t =>
      match l.stage with
      | .calling q =>
          (l.link.step server env (.handler (.app (.call t q.command)))).map fun link =>
            { l with link := link, stage := .awaiting q t }
      | _ => none
  | .settled =>
      match l.stage with
      | .awaiting q t =>
          match (l.link.handler.conn.world.tasks t).pc with
          | .finished (.reply reply) => some (l.answered q reply)
          | .finished .cancelled => some { l with stage := .ended .cancelled }
          | .finished _ => some { l with stage := .ended .raised }
          | _ => none
      | _ => none
  | .next a =>
      match l.stage with
      | .looping => if a.FromLoop then (l.stream.step a).map l.turn else none
      | _ => none

end Listener

end

end Spcedp
