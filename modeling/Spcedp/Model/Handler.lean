import Spcedp.Model.Connection

/-!
# The tasks of one connection

`PanelServer._handle` as a task with its places of suspension, the writer task
(`Session._writer_loop`) and the task of `on_session` beside it, their done-callbacks, and
`PanelServer._teardown` to its end. What the read loop does with a chunk is
`Connection.readChunk`.

The socket is the environment: it decides when `_read_chunk` gets data, fails or times out,
and when a write fails. A cancelled task gets its `CancelledError` where it is suspended; what
`on_session` does with that is up to it.
-/

set_option autoImplicit false

namespace Spcedp.Client

open Spcedp.PyText Spcedp.Wire

/-- `reader.read(4096)`. -/
@[simp] abbrev readSize : ℕ := 4096

/-! ## Background tasks -/

/-- How a task ends. -/
inductive TaskEnd
  | returned
  | raised
  | cancelled
  deriving DecidableEq, Repr

/-- The writer task, or that of `on_session`. -/
structure Background where
  ended : Option TaskEnd := none
  /-- `Task.cancel` was called before the end. -/
  cancelRequested : Bool := false
  /-- The done-callback is scheduled. -/
  callbackDue : Bool := false
  deriving DecidableEq, Repr

namespace Background

def cancel (b : Background) : Background :=
  match b.ended with
  | none => { b with cancelRequested := true }
  | some _ => b

def finish (b : Background) (e : TaskEnd) : Background :=
  { b with ended := some e, callbackDue := true }

end Background

/-- What `writer.write` or `writer.drain` raises: an `OSError`, after which the loop returns, or
anything else. -/
inductive SocketFault
  | osError
  | other
  deriving DecidableEq, Repr

def SocketFault.end : SocketFault → TaskEnd
  | osError => .returned
  | other => .raised

/-- `_on_writer_done`. -/
def onWriterDone (e : TaskEnd) (s : Session) : Session :=
  match e with
  | .cancelled => s
  | .returned | .raised => s.requestTeardown

/-- `_on_session_done`. -/
def onSessionDone (e : TaskEnd) (s : Session) : Session :=
  match e with
  | .raised => s.requestTeardown
  | .cancelled | .returned => s

/-! ## The handler -/

/-- What `asyncio.wait` in `_read_chunk` ends with. -/
inductive ReadResult
  /-- The read task has got data, or the end of the stream. -/
  | data (chunk : Bytes)
  /-- The read task raised. -/
  | failed
  | teardown
  | timeout
  | cancelled
  deriving DecidableEq, Repr

/-- Where `_handle` is suspended: in `asyncio.wait` of `_read_chunk`, in its `finally` clause,
in an `await` of `_teardown`, or at its end. -/
inductive Place
  | reading
  | reclaiming (r : ReadResult)
  | awaitWriter
  | awaitSession
  | closing
  | ended
  deriving DecidableEq, Repr

/-- Still inside the read loop. -/
def Place.InLoop : Place → Prop
  | reading | reclaiming _ => True
  | _ => False

/-- The connection with its tasks. `draining` tells the two `await`s of the writer apart, and
`written` is what it has given to `writer.write`; nothing reads that. -/
structure Handler where
  conn : Connection
  place : Place := .reading
  writer : Background := {}
  draining : Bool := false
  session : Background := {}
  written : List Bytes := []
  socketClosed : Bool := false

/-- What can happen next. -/
inductive HandlerAction
  /-- `asyncio.wait` in `_read_chunk` returns. -/
  | read (r : ReadResult)
  /-- The tasks of `_read_chunk` are reclaimed, and the loop takes a turn. -/
  | reclaim
  /-- The `await` of `_teardown` is over. -/
  | await
  /-- `_handle` is cancelled. -/
  | cancel
  /-- The writer task runs up to its next `await`. -/
  | writer
  | writerFails (fault : SocketFault)
  /-- The done-callback of the writer task runs. -/
  | writerDone
  | sessionEnds (e : TaskEnd)
  /-- The done-callback of `on_session` runs. -/
  | sessionDone
  /-- Anything that the application or the clock does. -/
  | app (a : Action)

/-- Frames come in and go out through the tasks of the connection only. -/
def Action.FromApp : Action → Bool
  | .dispatch _ | .teardown | .write => false
  | _ => true

section

variable (server : PanelServer) (env : Env)

/-- `_handle` up to its first suspension. -/
def PanelServer.accept (now : ℚ) : Handler where
  conn := server.connect now

namespace Handler

def sess (h : Handler) : Session := h.conn.world.sess

def setSess (h : Handler) (s : Session) : Handler :=
  { h with conn := { h.conn with world := { h.conn.world with sess := s } } }

/-! ## The writer -/

/-- `_writer_loop` from one `await` to the next. -/
def runWriter (h : Handler) : Option Handler :=
  if h.writer.ended.isSome then none
  else if h.writer.cancelRequested then some { h with writer := h.writer.finish .cancelled }
  else if h.draining then some { h with draining := false }
  else
    match h.sess.writeQueue with
    | [] => none
    | data :: rest =>
        some { h.setSess { h.sess with writeQueue := rest } with
          draining := true
          written := h.written ++ [data] }

/-- A write raises before it has written, or `drain` raises. -/
def failWriter (h : Handler) (fault : SocketFault) : Option Handler :=
  if h.writer.ended.isSome || h.writer.cancelRequested then none
  else if h.draining then some { h with writer := h.writer.finish fault.end }
  else
    match h.sess.writeQueue with
    | [] => none
    | _ :: rest =>
        some { h.setSess { h.sess with writeQueue := rest } with
          writer := h.writer.finish fault.end }

/-! ## The read loop and the teardown -/

/-- `_teardown` up to its first `await`, where the connection has stopped. -/
def teardown (h : Handler) (conn : Connection) : Handler :=
  { h with
    conn := conn
    place := .awaitWriter
    writer := h.writer.cancel
    session := if conn.sessionTask then h.session.cancel else h.session }

/-- The read loop, from the end of `_read_chunk` to the next suspension. -/
def turn (h : Handler) (r : ReadResult) : Handler :=
  match r with
  | .data chunk =>
      let conn := h.conn.readChunk server env chunk
      if !conn.reading then h.teardown conn
      else if conn.world.sess.teardownRequested then h.teardown conn.stop
      else { h with conn := conn, place := .reading }
  | .failed | .teardown | .timeout | .cancelled => h.teardown h.conn.stop

/-- `writer.close()`. -/
def close (h : Handler) : Handler := { h with place := .closing, socketClosed := true }

/-- One step of the event loop. -/
def step (h : Handler) : HandlerAction → Option Handler
  | .read r =>
      match h.place, r with
      | .reading, .teardown =>
          if h.sess.teardownRequested then some { h with place := .reclaiming .teardown } else none
      | .reading, .data chunk =>
          if chunk.length ≤ readSize then some { h with place := .reclaiming (.data chunk) }
          else none
      | .reading, r => some { h with place := .reclaiming r }
      | _, _ => none
  | .reclaim =>
      match h.place with
      | .reclaiming r => some (h.turn server env r)
      | _ => none
  | .await =>
      match h.place with
      | .awaitWriter =>
          if h.writer.ended.isSome then
            some (if h.conn.sessionTask then { h with place := .awaitSession } else h.close)
          else none
      | .awaitSession => if h.session.ended.isSome then some h.close else none
      | .closing => some { h with place := .ended }
      | _ => none
  | .cancel =>
      match h.place with
      | .reclaiming _ => some { h with place := .reclaiming .cancelled }
      -- the `CancelledError` is taken for that of the awaited task
      | .awaitWriter | .awaitSession => some h
      | .closing => some { h with place := .ended }
      | _ => none
  | .writer => h.runWriter
  | .writerFails fault => h.failWriter fault
  | .writerDone =>
      match h.writer.callbackDue, h.writer.ended with
      | true, some e =>
          some { h.setSess (onWriterDone e h.sess) with
            writer := { h.writer with callbackDue := false } }
      | _, _ => none
  | .sessionEnds e =>
      if h.conn.sessionTask && h.session.ended.isNone then
        some { h with session := h.session.finish e }
      else none
  | .sessionDone =>
      match h.session.callbackDue, h.session.ended with
      | true, some e =>
          some { h.setSess (onSessionDone e h.sess) with
            session := { h.session with callbackDue := false } }
      | _, _ => none
  | .app a =>
      if a.FromApp then (h.conn.step server env (.session a)).map fun conn => { h with conn := conn }
      else none

end Handler

end

end Spcedp.Client
