import Spcedp.Interface.Session
import Spcedp.Model.Handler

/-!
# What a step of a connection does

One case for each thing that can happen to a connection (`Connection.step_does`) and to its tasks
(`Handler.step_does`), and what a turn of the read loop leaves (`turn_cases`): the loop goes on, or
the connection has stopped and `_teardown` has begun. The servers are those that the constructor
gives (`exists_init`).
-/

set_option autoImplicit false

namespace Spcedp.Client

open Spcedp.PyText Spcedp.Wire

/-! ## The server -/

/-- **The constructor gives every server**: a key that it lets through is none or has 16 bytes, and
each such key is let through. -/
theorem exists_init (server : PanelServer) :
    ∃ key, PanelServer.init server.receiverId key server.onSession = .ok server := by
  obtain ⟨receiverId, ⟨key, hkey⟩, onSession⟩ := server
  cases key with
  | none => exact ⟨.none, rfl⟩
  | some k =>
      have hcheck : normaliseKey (.bytes k) = .ok ⟨some k, hkey⟩ := dif_pos (hkey k rfl)
      refine ⟨.bytes k, ?_⟩
      unfold PanelServer.init
      rw [hcheck]
      rfl

/-! ## A turn of the loop -/

section Turn

variable {server : PanelServer} {env : Env} {c : Connection}

/-- A frame does not end the read loop. -/
theorem handleFrame_reading (f : Frame) : (c.handleFrame server env f).reading = c.reading := by
  unfold Connection.handleFrame
  dsimp only
  split <;> rfl

/-- Nor does a row of frames. -/
theorem foldl_handleFrame_reading (frames : List Frame) :
    (frames.foldl (Connection.handleFrame server env) c).reading = c.reading := by
  induction frames generalizing c with
  | nil => rfl
  | cons f frames ih => rw [List.foldl_cons, ih, handleFrame_reading]

/-- Handling a frame does not look at the decoder. -/
theorem handleFrame_decoder (d : FrameDecoder) (f : Frame) :
    Connection.handleFrame server env { c with decoder := d } f =
      { c.handleFrame server env f with decoder := d } := by
  unfold Connection.handleFrame
  dsimp only
  split <;> rfl

/-- Handling frames and feeding bytes do not meddle. -/
theorem foldl_handleFrame_decoder (d : FrameDecoder) (frames : List Frame) :
    frames.foldl (Connection.handleFrame server env) { c with decoder := d } =
      { frames.foldl (Connection.handleFrame server env) c with decoder := d } := by
  induction frames generalizing c with
  | nil => rfl
  | cons f frames ih =>
      rw [List.foldl_cons, List.foldl_cons, handleFrame_decoder]
      exact ih

/-- **A chunk is decoded and its frames are handled**, or the connection stops. -/
theorem readChunk_cases (server : PanelServer) (env : Env) (c : Connection) (data : Bytes) :
    (∃ d frames, c.decoder.feed env.aes data = (d, .ok frames) ∧
      c.readChunk server env data =
        frames.foldl (Connection.handleFrame server env) { c with decoder := d }) ∨
    ∃ d, c.readChunk server env data = { c with decoder := d }.stop := by
  unfold Connection.readChunk
  split
  · exact .inr ⟨c.decoder, rfl⟩
  · split
    · rename_i d frames hfeed
      exact .inl ⟨d, frames, hfeed, rfl⟩
    · rename_i d e hfeed
      exact .inr ⟨d, rfl⟩

namespace Connection

/-- What a step of a connection does. -/
inductive Does (server : PanelServer) (env : Env) (c : Connection) :
    ConnectionAction → Connection → Prop
  | chunk {data} : c.reading = true → Does server env c (.chunk data) (c.readChunk server env data)
  | stopped : c.reading = true → Does server env c .stop c.stop
  | session {a w} : (∀ f, a ≠ .dispatch f) → (∀ t cmd, a = .call t cmd → c.sessionTask = true) →
      c.world.step env a = some w → Does server env c (.session a) { c with world := w }

/-- **Every step of a connection is one of these.** -/
theorem step_does {c' : Connection} {a : ConnectionAction}
    (hstep : c.step server env a = some c') : Does server env c a c' := by
  cases a with
  | chunk data =>
      simp only [step] at hstep
      split at hstep
      · rename_i hreading
        cases hstep
        exact .chunk hreading
      · cases hstep
  | stop =>
      simp only [step] at hstep
      split at hstep
      · rename_i hreading
        cases hstep
        exact .stopped hreading
      · cases hstep
  | session a =>
      have hsession (hdispatch : ∀ f, a ≠ .dispatch f)
          (hcall : ∀ t cmd, a = .call t cmd → c.sessionTask = true)
          (hmap : (c.world.step env a).map (fun world => { c with world := world }) = some c') :
          Does server env c (.session a) c' := by
        obtain ⟨w, hw, rfl⟩ := Option.map_eq_some_iff.mp hmap
        exact .session hdispatch hcall hw
      cases a with
      | dispatch f => cases hstep
      | call t cmd =>
          simp only [step] at hstep
          split at hstep
          · rename_i htask
            exact hsession (by simp) (fun _ _ _ => htask) hstep
          · cases hstep
      | resume t => exact hsession (by simp) (by simp) hstep
      | cancel t => exact hsession (by simp) (by simp) hstep
      | expire t => exact hsession (by simp) (by simp) hstep
      | tick d => exact hsession (by simp) (by simp) hstep
      | failPending e => exact hsession (by simp) (by simp) hstep
      | requestTeardown => exact hsession (by simp) (by simp) hstep
      | teardown => exact hsession (by simp) (by simp) hstep
      | write => exact hsession (by simp) (by simp) hstep

end Connection

namespace Handler

variable {h h' : Handler} {r : ReadResult}

/-- **The loop goes on after a chunk, or it is left.** -/
theorem turn_cases (server : PanelServer) (env : Env) (hreading : h.conn.reading = true)
    (r : ReadResult) :
    (∃ chunk, r = .data chunk ∧
      (h.conn.readChunk server env chunk).reading = true ∧
      (h.conn.readChunk server env chunk).world.sess.teardownRequested = false ∧
      h.turn server env r =
        { h with conn := h.conn.readChunk server env chunk, place := .reading }) ∨
    ∃ conn, h.turn server env r = h.teardown conn.stop ∧
      ((∃ chunk, r = .data chunk ∧ conn.stop = h.conn.readChunk server env chunk) ∨
        (∃ chunk, r = .data chunk ∧ conn = h.conn.readChunk server env chunk ∧
          conn.reading = true ∧ conn.world.sess.teardownRequested = true) ∨
        conn = h.conn) := by
  cases r with
  | data chunk =>
      unfold turn
      dsimp only
      obtain ⟨d, frames, hfeed, hread⟩ | ⟨d, hread⟩ :=
        readChunk_cases server env h.conn chunk
      · have hstill : (h.conn.readChunk server env chunk).reading = true := by
          rw [hread, foldl_handleFrame_reading]
          exact hreading
        rw [hstill, Bool.not_true, if_neg (by simp)]
        cases hreq : (h.conn.readChunk server env chunk).world.sess.teardownRequested with
        | false => exact .inl ⟨chunk, rfl, hstill, hreq, if_neg (by simp)⟩
        | true => exact .inr ⟨_, if_pos rfl, .inr (.inl ⟨chunk, rfl, rfl, hstill, hreq⟩)⟩
      · refine .inr ⟨{ h.conn with decoder := d }, ?_, .inl ⟨chunk, rfl, hread.symm⟩⟩
        rw [hread]
        rfl
  | failed => exact .inr ⟨h.conn, rfl, .inr (.inr rfl)⟩
  | teardown => exact .inr ⟨h.conn, rfl, .inr (.inr rfl)⟩
  | timeout => exact .inr ⟨h.conn, rfl, .inr (.inr rfl)⟩
  | cancelled => exact .inr ⟨h.conn, rfl, .inr (.inr rfl)⟩

end Handler

end Turn

/-! ## Steps -/

namespace Handler

/-- What a step does. -/
inductive Does (server : PanelServer) (env : Env) (h : Handler) : HandlerAction → Handler → Prop
  | read {r} : h.place = .reading → (r = .teardown → h.sess.teardownRequested = true) →
      Does server env h (.read r) { h with place := .reclaiming r }
  | turned {r} : h.place = .reclaiming r →
      Does server env h .reclaim (h.turn server env r)
  | recancelled {r} : h.place = .reclaiming r →
      Does server env h .cancel { h with place := .reclaiming .cancelled }
  | absorbed : h.place = .awaitWriter ∨ h.place = .awaitSession → Does server env h .cancel h
  | joined : h.place = .awaitWriter → h.writer.ended.isSome → h.conn.sessionTask = true →
      Does server env h .await { h with place := .awaitSession }
  | closed : h.place = .awaitWriter ∧ h.writer.ended.isSome ∧ h.conn.sessionTask = false ∨
      h.place = .awaitSession ∧ h.session.ended.isSome → Does server env h .await h.close
  | left {a} : a = .await ∨ a = .cancel → h.place = .closing →
      Does server env h a { h with place := .ended }
  | stopped : h.writer.ended = none → h.writer.cancelRequested = true →
      Does server env h .writer { h with writer := h.writer.finish .cancelled }
  | drained : h.writer.ended = none → h.writer.cancelRequested = false →
      Does server env h .writer { h with draining := false }
  | wrote {data rest} : h.writer.ended = none → h.writer.cancelRequested = false →
      h.sess.writeQueue = data :: rest →
      Does server env h .writer { h.setSess { h.sess with writeQueue := rest } with
        draining := true
        written := h.written ++ [data] }
  | failed {fault} : h.writer.ended = none → h.writer.cancelRequested = false →
      Does server env h (.writerFails fault) { h with writer := h.writer.finish fault.end }
  | lost {fault data rest} : h.writer.ended = none → h.writer.cancelRequested = false →
      h.sess.writeQueue = data :: rest →
      Does server env h (.writerFails fault) { h.setSess { h.sess with writeQueue := rest } with
        writer := h.writer.finish fault.end }
  | writerDone {e} : h.writer.callbackDue = true → h.writer.ended = some e →
      Does server env h .writerDone { h.setSess (onWriterDone e h.sess) with
        writer := { h.writer with callbackDue := false } }
  | sessionEnded {e} : h.conn.sessionTask = true → h.session.ended = none →
      Does server env h (.sessionEnds e) { h with session := h.session.finish e }
  | sessionDone {e} : h.session.callbackDue = true → h.session.ended = some e →
      Does server env h .sessionDone { h.setSess (onSessionDone e h.sess) with
        session := { h.session with callbackDue := false } }
  | app {a w} : a.FromApp = true → (∀ t cmd, a = .call t cmd → h.conn.sessionTask = true) →
      h.conn.world.step env a = some w →
      Does server env h (.app a) { h with conn := { h.conn with world := w } }

variable {server : PanelServer} {env : Env} {h h' : Handler}

/-- What the writer does at its turn. -/
theorem runWriter_does (hrun : h.runWriter = some h') : Does server env h .writer h' := by
  unfold runWriter at hrun
  split at hrun
  · cases hrun
  rename_i hended
  rw [Option.not_isSome_iff_eq_none] at hended
  split at hrun
  · rename_i hcancel
    cases hrun
    exact .stopped hended hcancel
  rename_i hcancel
  rw [Bool.not_eq_true] at hcancel
  split at hrun
  · cases hrun
    exact .drained hended hcancel
  · split at hrun
    · cases hrun
    · rename_i data rest hqueue
      cases hrun
      exact .wrote hended hcancel hqueue

/-- What a fault of the socket does to the writer. -/
theorem failWriter_does {fault : SocketFault} (hrun : h.failWriter fault = some h') :
    Does server env h (.writerFails fault) h' := by
  unfold failWriter at hrun
  split at hrun
  · cases hrun
  rename_i halive
  rw [Bool.or_eq_true, not_or, Option.not_isSome_iff_eq_none, Bool.not_eq_true] at halive
  split at hrun
  · cases hrun
    exact .failed halive.1 halive.2
  · split at hrun
    · cases hrun
    · rename_i data rest hqueue
      cases hrun
      exact .lost halive.1 halive.2 hqueue

/-- What the application does is a step of the session's world. -/
theorem app_does {a : Action} (hstep : h.step server env (.app a) = some h') :
    Does server env h (.app a) h' := by
  simp only [step] at hstep
  split at hstep
  case isFalse => cases hstep
  rename_i happ
  obtain ⟨conn, hconn, rfl⟩ := Option.map_eq_some_iff.mp hstep
  cases Connection.step_does hconn with
  | session _ hcall hw => exact .app happ hcall hw

/-- **Every step is one of these.** -/
theorem step_does {a : HandlerAction} (hstep : h.step server env a = some h') :
    Does server env h a h' := by
  cases a with
  | read r =>
      simp only [step] at hstep
      split at hstep
      · rename_i hplace
        split at hstep
        · rename_i hreq
          cases hstep
          exact .read hplace fun _ => hreq
        · cases hstep
      · rename_i hplace
        split at hstep
        · cases hstep
          exact .read hplace nofun
        · cases hstep
      · rename_i hplace hteardown _
        cases hstep
        exact .read hplace fun hr => absurd hr hteardown
      · cases hstep
  | reclaim =>
      simp only [step] at hstep
      split at hstep
      · rename_i r hplace
        cases hstep
        exact .turned hplace
      · cases hstep
  | await =>
      simp only [step] at hstep
      split at hstep
      · rename_i hplace
        split at hstep
        · rename_i hended
          cases htask : h.conn.sessionTask with
          | true =>
              rw [htask, if_pos rfl] at hstep
              cases hstep
              exact .joined hplace hended htask
          | false =>
              rw [htask, if_neg (by simp)] at hstep
              cases hstep
              exact .closed (.inl ⟨hplace, hended, htask⟩)
        · cases hstep
      · rename_i hplace
        split at hstep
        · rename_i hended
          cases hstep
          exact .closed (.inr ⟨hplace, hended⟩)
        · cases hstep
      · rename_i hplace
        cases hstep
        exact .left (.inl rfl) hplace
      · cases hstep
  | cancel =>
      simp only [step] at hstep
      split at hstep
      · rename_i r hplace
        cases hstep
        exact .recancelled hplace
      · rename_i hplace
        cases hstep
        exact .absorbed (.inl hplace)
      · rename_i hplace
        cases hstep
        exact .absorbed (.inr hplace)
      · rename_i hplace
        cases hstep
        exact .left (.inr rfl) hplace
      · cases hstep
  | writer => exact runWriter_does hstep
  | writerFails fault => exact failWriter_does hstep
  | writerDone =>
      simp only [step] at hstep
      split at hstep
      · rename_i e hdue hended
        cases hstep
        exact .writerDone hdue hended
      · cases hstep
  | sessionEnds e =>
      simp only [step] at hstep
      split at hstep
      · rename_i halive
        rw [Bool.and_eq_true, Option.isNone_iff_eq_none] at halive
        cases hstep
        exact .sessionEnded halive.1 halive.2
      · cases hstep
  | sessionDone =>
      simp only [step] at hstep
      split at hstep
      · rename_i e hdue hended
        cases hstep
        exact .sessionDone hdue hended
      · cases hstep
  | app a => exact app_does hstep

end Handler

end Spcedp.Client
