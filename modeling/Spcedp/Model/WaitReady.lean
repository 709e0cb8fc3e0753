import Spcedp.Lib.Event
import Spcedp.Model.Commands

/-!
# Waiting for polls

`Session.wait_ready`. Any number of tasks wait on the event `ready` of a session, and each of
them clears it before it waits; dispatched polls and teardown set it. Of `asyncio.Event` it is
assumed that `set` schedules the tasks that wait when it turns the event on, and that `clear`
takes no wake-up back.
-/

set_option autoImplicit false

namespace Spcedp.Client

open Lib.Event

/-- How `wait_ready` ends, unless it is cancelled: it returns, or raises `SpcConnectionLost`. -/
inductive ReadyEnd
  | returned
  | connectionLost
  deriving DecidableEq, Repr

/-- The head of the loop of `wait_ready`; `min_polls` is any integer. -/
def Session.checkReady (s : Session) (minPolls : ℤ) : Option ReadyEnd :=
  if (s.pollCount : ℤ) < minPolls then
    if s.closed then some .connectionLost else none
  else some .returned

/-- `wait_ready`: the event is cleared right before `wait`, which therefore always suspends. -/
def waitReady : Loop World ℤ ReadyEnd where
  isSet := fun w => w.sess.ready
  clear := fun w => { w with sess := { w.sess with ready := false } }
  head := fun w minPolls => w.sess.checkReady minPolls

/-- A session with the calls of `wait_ready` on it. -/
abbrev ReadyWorld := System World ℤ ReadyEnd

/-- What can happen next: to a call of `wait_ready`, or anything else on the session. -/
abbrev ReadyAction := Lib.Event.Action Action ℤ

namespace ReadyWorld

def new (panelId receiverId : ℤ) (key : Option Wire.Bytes) (now : ℚ) : ReadyWorld where
  state := World.new panelId receiverId key now

def step (env : Env) (sys : ReadyWorld) (a : ReadyAction) : Option ReadyWorld :=
  System.step waitReady (World.step env) sys a

end ReadyWorld

end Spcedp.Client
