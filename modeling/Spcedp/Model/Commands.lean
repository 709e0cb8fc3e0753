import Spcedp.Model.Session

/-!
# Commands as tasks of the event loop

`Session.xml_command`, `Session.binary_command` and `Session._wait_to_send`. Every call
is a task of its own, and a task runs without interruption from one `await` to the next;
`Pc` lists the places where it can be suspended. Everything else that touches the
session (dispatched frames, timeouts, cancellation, teardown, the writer, the clock) is
an `Action` between two such segments, in any order.

A timeout may fire whenever the code inside `asyncio.timeout` is suspended. A fired
timeout and a cancellation both cancel what the task waits for; which of the two the
task sees when it runs again is decided as in `asyncio.timeout`: a cancellation wins.
-/

set_option autoImplicit false

namespace Spcedp.Client

open Lib.FairLock Spcedp.PyText Spcedp.Wire Spcedp.Xmlcmd

/-! ## Calls and their ends -/

/-- A call, with its arguments. The opcode of a binary command is any integer. -/
inductive Command
  | xml (commandId : Text) (timeout : ℚ) (attrs : List (Text × AttrValue))
  | binary (op : ℤ) (targetId : ℤ) (timeout : ℚ)

/-- `BinaryOp(op)`. -/
def BinaryOp.ofInt (n : ℤ) : Option BinaryOp :=
  [areaSet, areaUnset, areaSetA, areaSetB].find? fun op => (op.value.toNat : ℤ) = n

/-- How a call ends. -/
inductive Outcome
  | reply (r : XmlReply)
  | ok
  | spcError (e : SpcError)
  | cancelled
  /-- `ValueError` for an area ID or an opcode that does not exist, or `TypeError` for an
  attribute that has the name of a parameter. -/
  | badArgument
  /-- The request could not be built. -/
  | buildError (e : BuildError)
  /-- The request could not be encoded. -/
  | wireError (e : WireError)
  /-- `LookupError` out of `expat`. -/
  | lookupError

/-- Where a task stands: not called yet, suspended in `lock.acquire`, in the sleep of
`_wait_to_send` or in `wait_for` on a future, or at its end. -/
inductive Pc
  | idle
  | lockWait
  | quiet
  | awaiting (n : ℕ) (seq : ℤ)
  | finished (outcome : Outcome)

/-- Suspended between `acquire` and `release`. -/
def Pc.InCommand : Pc → Prop
  | quiet | awaiting _ _ => True
  | _ => False

/-- A command that has passed the checks of its arguments. -/
inductive Request
  | xml (commandId : Text) (timeout : ℚ) (attrs : List (Text × AttrValue))
  | binary (op : BinaryOp) (targetId : ℤ) (timeout : ℚ)

def Request.channel : Request → Channel
  | xml _ _ _ => .xml
  | binary _ _ _ => .bin

/-- The names of the parameters of `xml_command`: no attribute can have them. -/
def xmlCommandParameters : List Text := [text "self", text "command_id", text "timeout"]

/-- The arguments of a call are bound and checked before the lock is asked for. -/
def Command.check : Command → Option Request
  | .xml commandId timeout attrs =>
      if attrs.any fun a => xmlCommandParameters.any (· = a.1) then none
      else some (.xml commandId timeout attrs)
  | .binary op targetId timeout =>
      if 1 ≤ targetId ∧ targetId ≤ 255 then
        (BinaryOp.ofInt op).map fun op => .binary op targetId timeout
      else none

/-- A task and its local variables. `lastRequest` is the frame it sent last and the future
registered for it; nothing reads it. -/
structure Task where
  pc : Pc := .idle
  request : Option Request := none
  assembler : Bytes := []
  rounds : ℕ := 0
  /-- `Task.cancel` was called. -/
  cancelRequested : Bool := false
  /-- The `asyncio.timeout` that the task is in has fired. -/
  expired : Bool := false
  lastRequest : Option (Frame × ℕ) := none

/-- The session with its tasks and the clock. -/
structure World where
  sess : Session
  tasks : ℕ → Task := fun _ => {}
  now : ℚ := 0

/-- A world before the first call: a new session, and no task has started. -/
def World.new (panelId receiverId : ℤ) (key : Option Bytes) (now : ℚ) : World where
  sess := { panelId := panelId, receiverId := receiverId, key := key }
  now := now

/-- The code outside the repository that a session uses. -/
structure Env where
  aes : AesEcb
  expat : Bytes → ExpatResult

/-! ## Segments inside the lock -/

section

variable (env : Env)

/-- What a segment leaves behind: the session, and the task suspended or at its end. -/
abbrev Segment := Session × Task

/-- The payload of the next request frame. -/
def Request.payload (r : Request) (continuation : Bool) : Except Outcome Bytes :=
  match r with
  | .xml commandId _ attrs =>
      match buildRequest commandId continuation attrs with
      | .ok payload => .ok payload
      | .error e => .error (.buildError e)
  | .binary op targetId _ => .ok [op.value, UInt8.ofNat targetId.toNat, 0]

/-- Allocate a number, register a future under it, queue the request and wait. -/
def sendRequest (s : Session) (task : Task) (r : Request) : Segment :=
  let (s, seq) := s.allocSeq
  match r.payload (task.rounds ≠ 0) with
  | .error e => (s, { task with pc := .finished e })
  | .ok payload =>
      let n := s.futures.length
      let s := s.register r.channel seq
      let request := s.frame r.channel.major MinorCode.request.value payload seq
      match s.send env.aes request with
      | .error e => (s, { task with pc := .finished (.wireError e) })
      | .ok s => (s, { task with pc := .awaiting n seq, lastRequest := some (request, n) })

/-- `_wait_to_send` from the head of its loop, and the request that follows it. -/
def waitToSend (now : ℚ) (s : Session) (task : Task) (r : Request) : Segment :=
  if s.lastReceived + commandQuietTime - now > 0 then
    if s.closed then (s, { task with pc := .finished (.spcError .panelDisconnected) })
    else (s, { task with pc := .quiet })
  else if s.closed then (s, { task with pc := .finished (.spcError .panelDisconnected) })
  else sendRequest env s task r

/-- The command once it holds the lock. -/
def enterCommand (now : ℚ) (s : Session) (task : Task) (r : Request) : Segment :=
  if s.closed then (s, { task with pc := .finished (.spcError .panelDisconnected) })
  else waitToSend env now s { task with assembler := [], rounds := 0, expired := false } r

/-- What the command makes of the reply to its request. -/
def handleReply (now : ℚ) (s : Session) (task : Task) (r : Request) (payload : Bytes) : Segment :=
  match r with
  | .xml commandId _ _ =>
      match assemble task.assembler payload with
      | .error e => (s, { task with pc := .finished (.spcError (.malformedFragment commandId e)) })
      | .ok (_, some assembled) =>
          match parseReply env.expat assembled with
          | .ok reply => (s, { task with pc := .finished (.reply reply) })
          | .error (.valueError e) =>
              (s, { task with pc := .finished (.spcError (.unparsedReply commandId e)) })
          | .error .lookupError => (s, { task with pc := .finished .lookupError })
      | .ok (buf, none) =>
          let task := { task with assembler := buf, rounds := task.rounds + 1, expired := false }
          if task.rounds < maxXmlFragments then waitToSend env now s task r
          else (s, { task with pc := .finished (.spcError (.neverClosed commandId)) })
  | .binary op targetId _ =>
      match payload with
      | [] => (s, { task with pc := .finished (.spcError (.emptyReply op targetId)) })
      | code :: _ =>
          if code ≠ replyOk then
            (s, { task with pc := .finished (.spcError (.panelRejected code op targetId)) })
          else (s, { task with pc := .finished .ok })

/-- The error of a reply that did not come in time. -/
def Request.timeoutError : Request → SpcError
  | .xml commandId timeout _ => .noXmlReply commandId timeout
  | .binary op targetId timeout => .noBinaryReply op targetId timeout

/-- The task wakes up in `_wait_to_send`. -/
def wakeQuiet (now : ℚ) (s : Session) (task : Task) (r : Request) : Segment :=
  if task.cancelRequested then (s, { task with pc := .finished .cancelled })
  else if task.expired then (s, { task with pc := .finished (.spcError .notIdle) })
  else waitToSend env now s task r

/-- The task wakes up in `wait_for`; the `finally` clause takes the request off its
dictionary. -/
def wakeAwaiting (now : ℚ) (s : Session) (task : Task) (r : Request) (n : ℕ) (seq : ℤ) : Segment :=
  let outcome := (s.futures[n]?).map Future.state
  let s := s.setPending r.channel ((s.pendingOf r.channel).erase seq)
  if task.cancelRequested then (s, { task with pc := .finished .cancelled })
  else if task.expired then (s, { task with pc := .finished (.spcError r.timeoutError) })
  else
    match outcome with
    | some (.result payload) => handleReply env now s task r payload
    | some (.failed e) => (s, { task with pc := .finished (.spcError e) })
    | _ => (s, { task with pc := .finished .cancelled })

/-! ## The event loop -/

namespace World

/-- Store what a segment of task `t` left; a command that has ended has released the
lock. -/
def settle (w : World) (t : ℕ) (seg : Segment) : World :=
  let (s, task) := seg
  let s := match task.pc with
    | .finished _ => { s with commandLock := s.commandLock.release t }
    | _ => s
  { w with sess := s, tasks := Function.update w.tasks t task }

/-- Task `t` calls a command and runs up to its first suspension. -/
def call (w : World) (t : ℕ) (cmd : Command) : World :=
  match cmd.check with
  | none =>
      { w with tasks := Function.update w.tasks t { w.tasks t with pc := .finished .badArgument } }
  | some r =>
      let (lock, entered) := w.sess.commandLock.acquire t
      let s := { w.sess with commandLock := lock }
      let task := { w.tasks t with request := some r }
      if entered then w.settle t (enterCommand env w.now s task r)
      else { w with
        sess := s
        tasks := Function.update w.tasks t { task with pc := .lockWait } }

/-- Task `t`, whose wait is over, runs up to its next suspension. -/
def resume (w : World) (t : ℕ) : Option World :=
  let task := w.tasks t
  match task.pc, task.request with
  | .lockWait, some r =>
      if task.cancelRequested then
        some { w with
          sess := { w.sess with commandLock := w.sess.commandLock.giveUp t }
          tasks := Function.update w.tasks t { task with pc := .finished .cancelled } }
      else if (t, Waiter.woken) ∈ w.sess.commandLock.waiters then
        let s := { w.sess with commandLock := w.sess.commandLock.enter t }
        some (w.settle t (enterCommand env w.now s task r))
      else none
  | .quiet, some r => some (w.settle t (wakeQuiet env w.now w.sess task r))
  | .awaiting n seq, some r =>
      if (w.sess.futures[n]?).map Future.state = some .pending then none
      else some (w.settle t (wakeAwaiting env w.now w.sess task r n seq))
  | _, _ => none

/-- `task.cancel()` reaches what the task waits for. -/
def interrupt (w : World) (t : ℕ) : Session :=
  match (w.tasks t).pc with
  | .lockWait => { w.sess with commandLock := w.sess.commandLock.cancel t }
  | .awaiting n _ => { w.sess with futures := complete w.sess.futures n .cancelled }
  | _ => w.sess

end World

/-- What can happen next. -/
inductive Action
  | call (t : ℕ) (cmd : Command)
  | resume (t : ℕ)
  | cancel (t : ℕ)
  | expire (t : ℕ)
  | dispatch (f : Frame)
  | tick (d : ℚ)
  | failPending (e : SpcError)
  | requestTeardown
  /-- `PanelServer._teardown` up to its first `await`. -/
  | teardown
  /-- The writer takes a frame off the queue. -/
  | write

/-- One step of the event loop. -/
def World.step (w : World) : Action → Option World
  | .call t cmd =>
      match (w.tasks t).pc with
      | .idle => some (w.call env t cmd)
      | _ => none
  | .resume t => w.resume env t
  | .cancel t =>
      match (w.tasks t).pc with
      | .lockWait | .quiet | .awaiting _ _ => some { w with
          sess := w.interrupt t
          tasks := Function.update w.tasks t { w.tasks t with cancelRequested := true } }
      | _ => none
  | .expire t =>
      match (w.tasks t).pc with
      | .quiet | .awaiting _ _ => some { w with
          sess := w.interrupt t
          tasks := Function.update w.tasks t { w.tasks t with expired := true } }
      | _ => none
  | .dispatch f => some { w with sess := (w.sess.dispatch env.aes w.now f).1 }
  | .tick d =>
      if 0 ≤ d then some { w with
        sess := { w.sess with log := w.sess.log ++ [.ticked d] }
        now := w.now + d }
      else none
  | .failPending e => some { w with sess := w.sess.failPending e }
  | .requestTeardown => some { w with sess := w.sess.requestTeardown }
  | .teardown => some { w with sess := (w.sess.failPending .panelDisconnected).requestTeardown }
  | .write =>
      match w.sess.writeQueue with
      | [] => none
      | _ :: rest => some { w with sess := { w.sess with writeQueue := rest } }

end

end Spcedp.Client
