import Spcedp.Model.Events
import Spcedp.Model.Wire
import Spcedp.Model.Xmlcmd
import Spcedp.Lib.FairLock

/-!
# One session: its state and the calls that do not suspend

The class `Session` of `spcedp/client.py`, and `PanelServer._dispatch`. A session is one
value that the methods return changed. A future is a place in the list `futures`; the
two dictionaries of pending requests hold such places. Logging is left out.

`log` is a history variable: nothing reads it. It records what is dispatched and queued,
in order, and the time that passes in between.
-/

set_option autoImplicit false

namespace Spcedp.Client

open Lib.FairLock Spcedp.PyText Spcedp.Wire Spcedp.Xmlcmd Spcedp.Events

/-! ## Constants -/

@[simp] abbrev eventQueueMaxsize : ℕ := 1024
@[simp] abbrev maxXmlFragments : ℕ := 64
@[simp] abbrev commandQuietTime : ℚ := 1 / 10
@[simp] abbrev writeQueueWarn : ℕ := 256
@[simp] abbrev writeQueueMaxsize : ℕ := 2048

/-- The alarm-area commands. -/
inductive BinaryOp
  | areaSet
  | areaUnset
  | areaSetA
  | areaSetB
  deriving DecidableEq, Repr

def BinaryOp.value : BinaryOp → UInt8
  | areaSet => 0x01
  | areaUnset => 0x02
  | areaSetA => 0x0F
  | areaSetB => 0x10

/-- `ReplyCode.OK`. -/
@[simp] abbrev replyOk : UInt8 := 0xF0

/-! ## Errors -/

/-- The subclasses of `SpcError` that are raised, with the values their messages quote. -/
inductive SpcError
  | panelRejected (code : UInt8) (op : BinaryOp) (targetId : ℤ)
  | noXmlReply (commandId : Text) (timeout : ℚ)
  | noBinaryReply (op : BinaryOp) (targetId : ℤ) (timeout : ℚ)
  | notIdle
  | panelDisconnected
  | malformedFragment (commandId : Text) (e : ReplyError)
  | unparsedReply (commandId : Text) (e : ReplyError)
  | neverClosed (commandId : Text)
  | emptyReply (op : BinaryOp) (targetId : ℤ)
  deriving DecidableEq, Repr

inductive SpcErrorClass
  | panelRejected
  | spcTimeout
  | spcConnectionLost
  | spcProtocolError
  deriving DecidableEq, Repr

def SpcError.cls : SpcError → SpcErrorClass
  | panelRejected _ _ _ => .panelRejected
  | noXmlReply _ _ | noBinaryReply _ _ _ | notIdle => .spcTimeout
  | panelDisconnected => .spcConnectionLost
  | malformedFragment _ _ | unparsedReply _ _ | neverClosed _ | emptyReply _ _ => .spcProtocolError

/-! ## Futures -/

/-- Which of the two dictionaries a request is registered in. -/
inductive Channel
  | xml
  | bin
  deriving DecidableEq, Repr

/-- The major code of the requests of a channel. -/
def Channel.major : Channel → ℤ
  | xml => MajorCode.xmlCmd.value
  | bin => MajorCode.binaryCmd.value

/-- The minor code of the replies of a channel. -/
def Channel.replyMinor : Channel → ℤ
  | xml => MinorCode.reply.value
  | bin => MinorCode.binaryReply.value

inductive FutureState
  | pending
  | result (payload : Bytes)
  | failed (e : SpcError)
  | cancelled
  deriving DecidableEq, Repr

/-- A future, with the channel and the sequence number it was registered under. -/
structure Future where
  state : FutureState
  channel : Channel
  seq : ℤ
  deriving DecidableEq, Repr

/-- The end of a future, unless it has one already. -/
def complete (futures : List Future) (n : ℕ) (outcome : FutureState) : List Future :=
  futures.modify n fun f => if f.state = .pending then { f with state := outcome } else f

/-- `dict[int, Future]`. -/
abbrev Pending := AList fun _ : ℤ => ℕ

/-- The futures of a dictionary, in order. -/
def Pending.values (pending : Pending) : List ℕ := pending.entries.map Sigma.snd

/-! ## The session -/

/-- An entry of the history. `queued` also records whether the session was closed and
which tasks held the command lock when the frame was put on the queue. -/
inductive Entry
  | ticked (d : ℚ)
  | dispatched (f : Frame)
  | queued (f : Frame) (data : Bytes) (closed : Bool) (holders : List ℕ)
  | sessionStarted
  deriving DecidableEq, Repr

structure Session where
  panelId : ℤ
  receiverId : ℤ
  nextSeq : ℤ := 0
  key : Option Bytes := none
  pendingXml : Pending := ∅
  pendingBin : Pending := ∅
  ready : Bool := false
  events : List SiaEvent := []
  writeQueue : List Bytes := []
  closed : Bool := false
  pollCount : ℕ := 0
  commandLock : Lock ℕ := {}
  lastReceived : ℚ := 0
  writeWarned : Bool := false
  teardownRequested : Bool := false
  futures : List Future := []
  log : List Entry := []

namespace Session

def pendingOf (s : Session) : Channel → Pending
  | .xml => s.pendingXml
  | .bin => s.pendingBin

def setPending (s : Session) (c : Channel) (pending : Pending) : Session :=
  match c with
  | .xml => { s with pendingXml := pending }
  | .bin => { s with pendingBin := pending }

/-- `create_future`, stored in the dictionary of `c` under `seq`. -/
def register (s : Session) (c : Channel) (seq : ℤ) : Session :=
  { s.setPending c ((s.pendingOf c).insert seq s.futures.length) with
    futures := s.futures ++ [{ state := .pending, channel := c, seq := seq }] }

/-- The number is returned with the session that has counted it. -/
def allocSeq (s : Session) : Session × ℤ :=
  let nextSeq : ℤ := mask 4 (s.nextSeq + 1)
  ({ s with nextSeq := nextSeq }, nextSeq)

/-- An outbound frame, addressed from this receiver to the panel. -/
def frame (s : Session) (major minor : ℤ) (payload : Bytes) (sequence : ℤ) : Frame where
  srcId := s.receiverId
  dstId := s.panelId
  sequence := sequence
  major := major
  minor := minor
  payload := payload
  srcFlag := flagFromReceiver

def requestTeardown (s : Session) : Session :=
  { s with closed := true, ready := true, teardownRequested := true }

/-- Queue a frame for the writer. A full queue tears the session down instead. -/
def send (aes : AesEcb) (s : Session) (f : Frame) : Except WireError Session := do
  let (data, f) ← f.encode aes s.key
  if s.writeQueue.length ≥ writeQueueMaxsize then return s.requestTeardown
  let s : Session := { s with
    writeQueue := s.writeQueue ++ [data]
    log := s.log ++ [.queued f data s.closed s.commandLock.inside] }
  if s.writeQueue.length ≥ writeQueueWarn then return { s with writeWarned := true }
  else return { s with writeWarned := false }

/-- The inner loop of `fail_pending`, over the futures of one dictionary. -/
def failAll (futures : List Future) (pending : Pending) (e : SpcError) : List Future :=
  pending.values.foldl (fun futures n => complete futures n (.failed e)) futures

/-- Resolve every request in flight with `e`. -/
def failPending (s : Session) (e : SpcError) : Session :=
  { s with
    futures := failAll (failAll s.futures s.pendingXml e) s.pendingBin e
    pendingXml := ∅
    pendingBin := ∅ }

/-- Queue a frame that echoes the request's sequence and payload. -/
def replyEcho (aes : AesEcb) (s : Session) (req : Frame) (minor : ℤ) : Except WireError Session :=
  s.send aes (s.frame req.major minor req.payload req.sequence)

/-- Push an event; a full stream drops its oldest event. -/
def emitEvent (s : Session) (event : SiaEvent) : Session :=
  if s.events.length < eventQueueMaxsize then { s with events := s.events ++ [event] }
  else { s with events := s.events.drop 1 ++ [event] }

/-- Restore an undelivered event at the front; a full stream drops its newest event. -/
def requeueEvent (s : Session) (event : SiaEvent) : Session :=
  { s with events := (event :: s.events).take eventQueueMaxsize }

/-! ## Dispatch -/

/-- `pop` the future that waits for the reply `f`, and complete it. -/
def dispatchReply (s : Session) (c : Channel) (f : Frame) : Session :=
  match (s.pendingOf c).lookup f.sequence with
  | some n =>
      { s.setPending c ((s.pendingOf c).erase f.sequence) with
        futures := complete s.futures n (.result f.payload) }
  | none => s

/-- `PanelServer._dispatch`. What it raises comes with the session as it is then. -/
def dispatch (aes : AesEcb) (now : ℚ) (s : Session) (f : Frame) : Session × Option WireError :=
  let s : Session := { s with
    lastReceived := now
    nextSeq := max s.nextSeq f.sequence
    log := s.log ++ [.dispatched f] }
  if f.major = MajorCode.xmlCmd.value ∧ f.minor = MinorCode.reply.value then
    (s.dispatchReply .xml f, none)
  else if f.major = MajorCode.binaryCmd.value ∧ f.minor = MinorCode.binaryReply.value then
    (s.dispatchReply .bin f, none)
  else if f.major = MajorCode.session.value then
    if f.minor = MinorCode.poll.value then
      match s.replyEcho aes f MinorCode.pollAck.value with
      | .ok s => ({ s with pollCount := s.pollCount + 1, ready := true }, none)
      | .error e => (s, some e)
    else if f.minor = MinorCode.hello.value then
      match s.replyEcho aes f MinorCode.helloAck.value with
      | .ok s => (s, none)
      | .error e => (s, some e)
    else (s, none)
  else if f.major = MajorCode.event.value ∧ f.minor = MinorCode.eventPush.value then
    match s.replyEcho aes f MinorCode.eventAck.value with
    | .ok s =>
        match SiaEvent.parseBytes f.payload with
        | .ok event => (s.emitEvent event, none)
        | .error _ => (s, none)
    | .error e => (s, some e)
  else (s, none)

end Session

end Spcedp.Client
