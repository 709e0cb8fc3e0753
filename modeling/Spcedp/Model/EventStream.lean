import Spcedp.Model.Session

/-!
# The event stream

The generator `Session.events`, its one consumer, and the two tasks that `__anext__` waits
for. A cancellation is thrown where `__anext__` is suspended: in `asyncio.wait` or in the
`gather` of the `finally` clause. Of `asyncio` it is assumed that a cancelled `Queue.get`
removes nothing and one that completes removes the head.
-/

set_option autoImplicit false

namespace Spcedp.Client

open Spcedp.Events Spcedp.Wire

/-! ## The tasks of `__anext__` -/

/-- A task; a pending one may have been cancelled. -/
inductive TaskState (α : Type)
  | pending (cancelRequested : Bool)
  | done (result : α)
  | cancelled
  deriving DecidableEq, Repr

namespace TaskState

variable {α : Type}

/-- `done()`. -/
def settled : TaskState α → Bool
  | pending _ => false
  | _ => true

/-- `cancel()`. -/
def cancel : TaskState α → TaskState α
  | pending _ => pending true
  | task => task

/-- The result. -/
def result? : TaskState α → Option α
  | done a => some a
  | _ => none

end TaskState

/-- How a generator ends: it returns, a cancellation passes through it, or it is closed. -/
inductive GeneratorEnd
  | returned
  | cancelled
  | closed
  deriving DecidableEq, Repr

/-- The two suspension points of `__anext__`. -/
inductive Await
  | wait
  | gather
  deriving DecidableEq, Repr

/-- Where the generator stands. `suspended` is inside `__anext__`, with its two tasks and
whether it was cancelled. -/
inductive Generator
  | fresh
  | suspended (place : Await) (getTask : TaskState SiaEvent) (closedTask : TaskState Unit)
      (cancelled : Bool)
  /-- At `yield get_task.result()`. -/
  | atYield
  /-- At the `yield` of the loop that drains the queue. -/
  | draining
  | finished (how : GeneratorEnd)
  deriving DecidableEq

/-- `__anext__` is suspended. -/
def Generator.Suspended : Generator → Prop
  | suspended _ _ _ _ => True
  | _ => False

/-- The session and the current generator, with what was emitted and yielded so far. -/
structure Stream where
  sess : Session
  generator : Generator := .finished .closed
  emitted : List SiaEvent := []
  yielded : List SiaEvent := []

inductive StreamAction
  /-- `Session.events()`. -/
  | events
  | anext
  /-- `__anext__` runs on. -/
  | resume
  /-- `__anext__` is cancelled. -/
  | cancel
  | aclose
  /-- The `Queue.get` task gets to run. -/
  | getTask
  /-- The `Event.wait` task gets to run. -/
  | closedTask
  | emitEvent (event : SiaEvent)
  | requestTeardown

namespace Stream

/-- A new session, and no generator yet. -/
def new (panelId receiverId : ℤ) (key : Option Bytes) : Stream where
  sess := { panelId := panelId, receiverId := receiverId, key := key }

/-- `if not get_task.cancel() and not get_task.cancelled()`: put a pulled event back. -/
def requeueCompletedGet (s : Session) (getTask : TaskState SiaEvent) : Session :=
  match getTask with
  | .pending _ => s
  | .cancelled => s
  | .done event => s.requeueEvent event

/-- The head of the loop that drains the queue. -/
def drain (st : Stream) : Stream :=
  match st.sess.events with
  | [] => { st with generator := .finished .returned }
  | event :: rest =>
      { st with
        sess := { st.sess with events := rest }
        generator := .draining
        yielded := st.yielded ++ [event] }

/-- `__anext__` is called between two items. -/
def anext (st : Stream) : Option Stream :=
  match st.generator with
  | .fresh | .atYield =>
      some { st with generator := .suspended .wait (.pending false) (.pending false) false }
  | .draining => some st.drain
  | .finished _ => some st
  | .suspended _ _ _ _ => none

/-- `__anext__` runs on. -/
def resume (st : Stream) : Option Stream :=
  match st.generator with
  | .suspended .wait getTask closedTask cancelled =>
      if cancelled || getTask.settled || closedTask.settled then
        some { st with
          generator := .suspended .gather getTask.cancel closedTask.cancel cancelled }
      else none
  | .suspended .gather getTask closedTask cancelled =>
      if getTask.settled && closedTask.settled then
        if cancelled then some { st with
          sess := requeueCompletedGet st.sess getTask
          generator := .finished .cancelled }
        else
          match getTask with
          | .done event =>
              some { st with generator := .atYield, yielded := st.yielded ++ [event] }
          | _ => some st.drain
      else none
  | _ => none

/-- What a cancellation reaches: the wait, or the two tasks that are gathered. -/
def cancel (st : Stream) : Option Stream :=
  match st.generator with
  | .suspended .wait getTask closedTask _ =>
      some { st with generator := .suspended .wait getTask closedTask true }
  | .suspended .gather getTask closedTask _ =>
      some { st with generator := .suspended .gather getTask.cancel closedTask.cancel true }
  | _ => none

/-- The generator is closed between two items. -/
def aclose (st : Stream) : Option Stream :=
  match st.generator with
  | .fresh | .atYield | .draining => some { st with generator := .finished .closed }
  | .finished _ => some st
  | .suspended _ _ _ _ => none

/-- `Queue.get` runs: it is cancelled, takes the head of the queue, or goes on waiting. -/
def runGet (s : Session) : TaskState SiaEvent → Option (Session × TaskState SiaEvent)
  | .pending true => some (s, .cancelled)
  | .pending false =>
      match s.events with
      | [] => none
      | event :: rest => some ({ s with events := rest }, .done event)
  | _ => none

/-- `Event.wait` runs. -/
def runClosed (s : Session) : TaskState Unit → Option (TaskState Unit)
  | .pending true => some .cancelled
  | .pending false => if s.closed then some (.done ()) else none
  | _ => none

/-- One step. A new generator is taken only between two calls of `__anext__`. -/
def step (st : Stream) : StreamAction → Option Stream
  | .events =>
      match st.generator with
      | .suspended _ _ _ _ => none
      | _ => some { st with generator := .fresh }
  | .anext => st.anext
  | .resume => st.resume
  | .cancel => st.cancel
  | .aclose => st.aclose
  | .getTask =>
      match st.generator with
      | .suspended place getTask closedTask cancelled =>
          (runGet st.sess getTask).map fun (sess, getTask) =>
            { st with sess := sess, generator := .suspended place getTask closedTask cancelled }
      | _ => none
  | .closedTask =>
      match st.generator with
      | .suspended place getTask closedTask cancelled =>
          (runClosed st.sess closedTask).map fun closedTask =>
            { st with generator := .suspended place getTask closedTask cancelled }
      | _ => none
  | .emitEvent event =>
      some { st with sess := st.sess.emitEvent event, emitted := st.emitted ++ [event] }
  | .requestTeardown => some { st with sess := st.sess.requestTeardown }

end Stream

end Spcedp.Client
