import Spcedp.Model.Handler

/-!
# A panel and its connection

The panel of the tests, `MockPanel` of `tests/mockpanel.py`, at the other end of a connection:
it writes the frames that `hello`, `poll`, `push_event` and `_reply` build, and reads with a
`FrameDecoder` of its own. Between the two are the bytes on their way, which arrive in pieces of
any size. What the script of the panel answers, and when, is left open; a reply is only made to
a frame that the panel has read. The raw injectors are left out.
-/

set_option autoImplicit false

namespace Spcedp.Client

open Spcedp.PyText Spcedp.Wire

/-! ## The panel -/

/-- `inbound` are the frames read so far, whoever has taken them off the queue since. `sent` are
the frames written and `replies` the requests answered, with the payloads; nothing reads
these two. -/
structure MockPanel where
  panelId : ℤ
  receiverId : ℤ
  key : Option Bytes
  decoder : FrameDecoder
  /-- The read pump runs. -/
  pumping : Bool := true
  inbound : List Frame := []
  sent : List Frame := []
  replies : List (Frame × Bytes) := []

/-- `MockPanel.__init__`. -/
def MockPanel.new (panelId receiverId : ℤ) (key : Option Bytes) : MockPanel where
  panelId := panelId
  receiverId := receiverId
  key := key
  decoder := { key := key }

/-- What the panel starts an exchange with: `hello`, `poll` and `push_event`. -/
inductive PanelMessage
  | hello
  | poll
  | event
  deriving DecidableEq, Repr

def PanelMessage.major : PanelMessage → ℤ
  | hello | poll => MajorCode.session.value
  | event => MajorCode.event.value

def PanelMessage.minor : PanelMessage → ℤ
  | hello => MinorCode.hello.value
  | poll => MinorCode.poll.value
  | event => MinorCode.eventPush.value

/-- `_reply_minor`. -/
def replyMinor (req : Frame) : ℤ :=
  if req.major = MajorCode.xmlCmd.value then MinorCode.reply.value
  else if req.major = MajorCode.binaryCmd.value then MinorCode.binaryReply.value
  else MinorCode.reply.value

namespace MockPanel

/-- `_panel_frame`. -/
def panelFrame (p : MockPanel) (major minor : ℤ) (payload : Bytes) (sequence : ℤ) : Frame where
  srcId := p.panelId
  dstId := p.receiverId
  sequence := sequence
  major := major
  minor := minor
  payload := payload
  srcFlag := 0

/-- `_write` of an encoded frame. -/
def write (aes : AesEcb) (p : MockPanel) (f : Frame) : Option (MockPanel × Bytes) :=
  match f.encode aes p.key with
  | .ok (data, f) => some ({ p with sent := p.sent ++ [f] }, data)
  | .error _ => none

/-- One turn of `_pump_inbound`. What the decoder raises ends the pump. -/
def pump (aes : AesEcb) (p : MockPanel) (chunk : Bytes) : MockPanel :=
  match p.decoder.feed aes chunk with
  | (decoder, .ok frames) => { p with decoder := decoder, inbound := p.inbound ++ frames }
  | (decoder, .error _) => { p with decoder := decoder, pumping := false }

end MockPanel

/-! ## The link -/

/-- A handler, a panel, and the bytes on their way between them. -/
structure Link where
  handler : Handler
  panel : MockPanel
  toReceiver : Bytes := []
  toPanel : Bytes := []

inductive LinkAction
  /-- The panel starts an exchange. -/
  | start (m : PanelMessage) (payload : Bytes) (sequence : ℤ)
  /-- The panel answers a frame it has read. -/
  | reply (req : Frame) (payload : Bytes)
  /-- The first `n` bytes on their way reach `_read_chunk`. -/
  | arrive (n : ℕ)
  /-- The first `n` bytes on their way reach the panel. -/
  | depart (n : ℕ)
  /-- Anything else at the receiver. -/
  | handler (a : HandlerAction)

/-- Bytes come from the panel only. -/
def HandlerAction.BringsData : HandlerAction → Bool
  | .read (.data (_ :: _)) => true
  | _ => false

section

variable (server : PanelServer) (env : Env)

/-- The panel has just connected; both ends have the same key. -/
def PanelServer.link (now : ℚ) (panelId : ℤ) : Link where
  handler := server.accept now
  panel := MockPanel.new panelId server.receiverId server.key.val

namespace Link

/-- A step of the handler. What it writes goes on its way. -/
def handle (l : Link) (a : HandlerAction) : Option Link :=
  (l.handler.step server env a).map fun h =>
    { l with
      handler := h
      toPanel := l.toPanel ++ (h.written.drop l.handler.written.length).flatten }

/-- The panel writes a frame. -/
def send (l : Link) (f : Frame) : Option Link :=
  (l.panel.write env.aes f).map fun (panel, data) =>
    { l with panel := panel, toReceiver := l.toReceiver ++ data }

def step (l : Link) : LinkAction → Option Link
  | .start m payload sequence =>
      l.send env (l.panel.panelFrame m.major m.minor payload sequence)
  | .reply req payload =>
      if req ∈ l.panel.inbound then
        (l.send env (l.panel.panelFrame req.major (replyMinor req) payload req.sequence)).map
          fun l => { l with panel := { l.panel with replies := l.panel.replies ++ [(req, payload)] } }
      else none
  | .arrive n =>
      if 0 < n ∧ n ≤ l.toReceiver.length then
        (l.handle server env (.read (.data (l.toReceiver.take n)))).map
          fun l => { l with toReceiver := l.toReceiver.drop n }
      else none
  | .depart n =>
      if l.panel.pumping ∧ 0 < n ∧ n ≤ l.toPanel.length then
        some { l with
          panel := l.panel.pump env.aes (l.toPanel.take n)
          toPanel := l.toPanel.drop n }
      else none
  | .handler a => if a.BringsData then none else l.handle server env a

end Link

end

end Spcedp.Client
