import Spcedp.Model.Commands
import Spcedp.Model.Decoder

/-!
# One connection of a panel

`PanelServer.__init__` and `PanelServer._handle` of `spcedp/client.py`. The read loop
takes a chunk, feeds the decoder and handles the frames it gets, without suspending in
between; the commands of the session run between two chunks. Address and port, the idle
time and the log are left out: an idle timeout is one of the ways in which the loop stops.
-/

set_option autoImplicit false

namespace Spcedp.Client

open Spcedp.PyText Spcedp.Wire

/-! ## The key -/

/-- A key as the caller passes it. -/
inductive KeyArg
  | none
  | bytes (key : Bytes)
  | str (key : Text)

inductive KeyError
  | notHex
  | badLength (n : ℕ)
  deriving DecidableEq, Repr

def hexDigit (c : ℕ) : Option ℕ :=
  if 48 ≤ c ∧ c ≤ 57 then some (c - 48)
  else if 65 ≤ c ∧ c ≤ 70 then some (c - 55)
  else if 97 ≤ c ∧ c ≤ 102 then some (c - 87)
  else none

/-- `bytes.fromhex`: pairs of digits, with ASCII whitespace between two pairs. -/
def fromhex : Text → Option Bytes
  | [] => some []
  | c :: rest =>
      if c = 32 ∨ (9 ≤ c ∧ c ≤ 13) then fromhex rest
      else
        match rest with
        | [] => none
        | d :: rest => do
            let high ← hexDigit c
            let low ← hexDigit d
            let bytes ← fromhex rest
            return UInt8.ofNat (16 * high + low) :: bytes

/-- No key, or 16 bytes. -/
abbrev Key := { key : Option Bytes // ∀ k ∈ key, k.length = 16 }

/-- No key. -/
def Key.clear : Key := ⟨none, nofun⟩

/-- The length check of `_normalise_key`. -/
def checkKey (key : Bytes) : Except KeyError Key :=
  if h : key.length = 16 then .ok ⟨some key, by rintro k ⟨⟩; exact h⟩
  else .error (.badLength key.length)

def normaliseKey : KeyArg → Except KeyError Key
  | .none => .ok .clear
  | .str key =>
      match fromhex key with
      | some key => checkKey key
      | none => .error .notHex
  | .bytes key => checkKey key

/-! ## The server -/

/-- `onSession` tells whether a callback is given. -/
structure PanelServer where
  receiverId : ℤ
  key : Key
  onSession : Bool

def PanelServer.init (receiverId : ℤ) (key : KeyArg) (onSession : Bool) :
    Except KeyError PanelServer := do
  let key ← normaliseKey key
  return { receiverId := receiverId, key := key, onSession := onSession }

/-- The local variables of `_handle`. `sessionTask` tells that `on_session` was started,
`reading` that the loop has not stopped. -/
structure Connection where
  world : World
  decoder : FrameDecoder
  handshakeStarted : Bool := false
  sessionTask : Bool := false
  reading : Bool := true

/-- What can happen next. -/
inductive ConnectionAction
  /-- The read loop gets data. -/
  | chunk (data : Bytes)
  /-- The read loop stops: end of stream, timeout, reset, or a teardown was requested. -/
  | stop
  /-- Anything between two turns of the read loop. -/
  | session (a : Action)

section

variable (server : PanelServer) (env : Env)

/-- A connection that has just come in. -/
def PanelServer.connect (now : ℚ) : Connection where
  world := World.new 0 server.receiverId server.key.val now
  decoder := { key := server.key.val }

namespace Connection

/-- One turn of `for frame in frames`. What `_dispatch` raises is logged. -/
def handleFrame (c : Connection) (f : Frame) : Connection :=
  let sess := if c.handshakeStarted then c.world.sess else { c.world.sess with panelId := f.srcId }
  let (sess, _) := sess.dispatch env.aes c.world.now f
  if !c.sessionTask && server.onSession then
    { c with
      world := { c.world with sess := { sess with log := sess.log ++ [.sessionStarted] } }
      handshakeStarted := true
      sessionTask := true }
  else { c with world := { c.world with sess := sess }, handshakeStarted := true }

/-- The end of the read loop, and `_teardown` up to its first `await`. -/
def stop (c : Connection) : Connection :=
  { c with
    world := { c.world with
      sess := (c.world.sess.failPending .panelDisconnected).requestTeardown }
    reading := false }

/-- One turn of the read loop on a chunk. -/
def readChunk (c : Connection) (data : Bytes) : Connection :=
  match data with
  | [] => c.stop
  | data =>
      match c.decoder.feed env.aes data with
      | (decoder, .ok frames) => frames.foldl (handleFrame server env) { c with decoder := decoder }
      | (decoder, .error _) => { c with decoder := decoder }.stop

/-- A session is handed out by `on_session` only, so that commands are called once that
is started; frames come in through the read loop only. -/
def step (c : Connection) : ConnectionAction → Option Connection
  | .chunk data => if c.reading then some (c.readChunk server env data) else none
  | .stop => if c.reading then some c.stop else none
  | .session (.dispatch _) => none
  | .session (.call t cmd) =>
      if c.sessionTask then
        (c.world.step env (.call t cmd)).map fun world => { c with world := world }
      else none
  | .session a => (c.world.step env a).map fun world => { c with world := world }

end Connection

end

end Spcedp.Client
