import Spcedp.Analysis.TheoremCodec
import Spcedp.Interface.Decoder
import Spcedp.Interface.Handler

/-!
# Chunking invariance

However a stream is cut, the decoder reads the same frames from it and ends in the same
state, or raises the same exception, as long as its bounded wait does not step in
(`feedUntil_chunking`): there it does what the splitter does, which is stable.

What is returned before an exception does depend on the cut. `feed` gives up the frames of
the call in which it raises, so all the frames before the failure are returned if and only
if a chunk ends between the last of them and the failure (`frames_kept_iff`).
-/

set_option autoImplicit false

namespace Spcedp.Wire

open Lib.Stream

namespace FrameDecoder

/-- **Chunking invariance.** Two ways of cutting a stream, in neither of which the decoder
gives up waiting: both runs raise the same exception, or neither raises and they return the
same frames and end with the same buffer and drop count. -/
theorem feedUntil_chunking (aes : AesEcb) (key : Option Bytes) (chunks₁ chunks₂ : List Bytes)
    (hcut : chunks₁.flatten = chunks₂.flatten)
    (hwait₁ : ¬GivesUpWaiting aes (fresh key) chunks₁)
    (hwait₂ : ¬GivesUpWaiting aes (fresh key) chunks₂) :
    let run₁ := feedUntil aes (fresh key) chunks₁
    let run₂ := feedUntil aes (fresh key) chunks₂
    run₁.raised.map WireError.cls = run₂.raised.map WireError.cls ∧
      (run₁.raised = none → run₁.frames = run₂.frames ∧ run₁.decoder.buf = run₂.decoder.buf ∧
        run₁.decoder.dropped = run₂.decoder.dropped) := by
  have hstable := Splitter.reader_stable aes
  have hfresh := splitter_fresh_waits aes key
  dsimp only
  cases h₁ : (feedUntil aes (fresh key) chunks₁).raised with
  | none =>
      obtain ⟨ps₁, hruns₁, hitems₁⟩ := splitter_runs hwait₁ h₁
      cases h₂ : (feedUntil aes (fresh key) chunks₂).raised with
      | none =>
          obtain ⟨ps₂, hruns₂, hitems₂⟩ := splitter_runs hwait₂ h₂
          obtain ⟨rfl, hend⟩ := hstable.runs_eq hfresh hruns₁ hruns₂ hcut
          have hbuf := congrArg Splitter.buf hend
          have hdropped := congrArg Splitter.dropped hend
          exact ⟨rfl, fun _ => ⟨hitems₁.symm.trans hitems₂, hbuf, hdropped⟩⟩
      | some e =>
          obtain ⟨ps₂, qs₂, hfails₂, -⟩ := splitter_fails hwait₂ h₂
          exact (hstable.not_runs_of_fails hfresh hruns₁ hfails₂ hcut).elim
  | some e₁ =>
      obtain ⟨ps₁, qs₁, hfails₁, -⟩ := splitter_fails hwait₁ h₁
      refine ⟨?_, by simp⟩
      cases h₂ : (feedUntil aes (fresh key) chunks₂).raised with
      | none =>
          obtain ⟨ps₂, hruns₂, -⟩ := splitter_runs hwait₂ h₂
          exact (hstable.not_runs_of_fails hfresh hruns₂ hfails₁ hcut.symm).elim
      | some e₂ =>
          obtain ⟨ps₂, qs₂, hfails₂, -⟩ := splitter_fails hwait₂ h₂
          rw [(hstable.fails_eq hfails₁ hfails₂ hcut).2]

/-- A captured frame behind a byte of garbage, whole and cut in its length prefix. -/
theorem feedUntil_chunking_poll :
    let run₁ := feedUntil pollAes (fresh none) [0x00 :: capturedPoll]
    let run₂ := feedUntil pollAes (fresh none) [[0x00, 0x1d], capturedPoll.drop 1]
    run₁.raised.map WireError.cls = run₂.raised.map WireError.cls ∧
      (run₁.raised = none → run₁.frames = run₂.frames ∧ run₁.decoder.buf = run₂.decoder.buf ∧
        run₁.decoder.dropped = run₂.decoder.dropped) :=
  feedUntil_chunking pollAes none [0x00 :: capturedPoll] [[0x00, 0x1d], capturedPoll.drop 1]
    (by decide) (not_givesUpWaiting_of_short (by decide)) (not_givesUpWaiting_of_short (by decide))

/-! ## Frames before a failure -/

/-- The bytes, read by themselves, give the frames and nothing is raised. -/
def Yields (aes : AesEcb) (key : Option Bytes) (data : Bytes) (frames : List Frame) : Prop :=
  ∃ ps, WaitsAfter (Splitter.reader aes) ⟨key, data, 0⟩ ps ∧ items ps = frames

/-- Read by themselves, the bytes give the frames and then the exception. -/
def FailsBehind (aes : AesEcb) (key : Option Bytes) (data : Bytes) (frames : List Frame)
    (e : WireError) : Prop :=
  ∃ ps, FailsAfter (Splitter.reader aes) ⟨key, data, 0⟩ ps e ∧ items ps = frames

/-- **Which frames a failing stream still gives.** The stream has certain frames before its
failure. They have all been returned when the exception surfaces if and only if one of the
chunks ends where the bytes so far give all of them and no exception. -/
theorem frames_kept_iff (aes : AesEcb) (key : Option Bytes) (chunks : List Bytes) (e : WireError)
    (hwait : ¬GivesUpWaiting aes (fresh key) chunks)
    (hraised : (feedUntil aes (fresh key) chunks).raised = some e) :
    ∃ frames, FailsBehind aes key chunks.flatten frames e ∧
      ((feedUntil aes (fresh key) chunks).frames = frames ↔
        ∃ seen, seen <+: chunks ∧ Yields aes key seen.flatten frames) := by
  have hstable := Splitter.reader_stable aes
  obtain ⟨ps, qs, hfails, hitems⟩ := splitter_fails hwait hraised
  refine ⟨items (ps ++ qs), ⟨ps ++ qs, hstable.fails_failsAfter hfails, rfl⟩, ?_⟩
  rw [← hitems]
  exact hstable.fails_items_iff (splitter_fresh_waits aes key) hfails

/-- The captured frame with its encrypted flag set. -/
def encryptedPoll : Bytes := capturedPoll.set 4 0x01

/-- A decoder that holds an encrypted frame, and no key. -/
def atEncrypted : FrameDecoder := { buf := encryptedPoll }

/-- At an encrypted frame a decoder without a key raises. -/
theorem pass_atEncrypted :
    atEncrypted.pass pollAes = .raised atEncrypted .encryptionRequired := by
  have hfront : front pollAes atEncrypted.key atEncrypted.buf = .fatal .encryptionRequired := by
    decide +kernel
  exact pass_of_fatal hfront

/-- A frame and an encrypted frame, in one chunk. -/
theorem feedUntil_together :
    feedUntil pollAes (fresh none) [capturedPoll ++ encryptedPoll] =
      ⟨atEncrypted, [], some .encryptionRequired⟩ := by
  have hfront : front pollAes ((fresh none).push (capturedPoll ++ encryptedPoll)).key
      ((fresh none).push (capturedPoll ++ encryptedPoll)).buf = .frame 31 capturedFrame := by
    decide +kernel
  have hfeed : (fresh none).feed pollAes (capturedPoll ++ encryptedPoll) =
      (atEncrypted, .error .encryptionRequired) :=
    (loop_again [] (pass_of_frame hfront)).trans (loop_raised _ pass_atEncrypted)
  rw [feedUntil, hfeed]

/-- The same bytes, in two chunks. -/
theorem feedUntil_apart :
    feedUntil pollAes (fresh none) [capturedPoll, encryptedPoll] =
      ⟨atEncrypted, [capturedFrame], some .encryptionRequired⟩ := by
  have hfront : front pollAes ((fresh none).push capturedPoll).key
      ((fresh none).push capturedPoll).buf = .frame 31 capturedFrame := by
    decide +kernel
  have hempty : front pollAes (fresh none).key (fresh none).buf = .short := by decide
  have hfeed₁ : (fresh none).feed pollAes capturedPoll = (fresh none, .ok [capturedFrame]) :=
    (loop_again [] (pass_of_frame hfront)).trans (loop_done _ (pass_of_short hempty))
  have hfeed₂ : (fresh none).feed pollAes encryptedPoll =
      (atEncrypted, .error .encryptionRequired) :=
    loop_raised [] pass_atEncrypted
  rw [feedUntil, hfeed₁]
  simp only [feedUntil, hfeed₂, List.append_nil]

/-- **A frame that shares its chunk with the failure is lost.** Cut in two, the stream gives
the captured frame before it fails; in one chunk it gives nothing. -/
theorem frame_lost :
    ¬ ∀ (aes : AesEcb) (key : Option Bytes) (chunks₁ chunks₂ : List Bytes),
      chunks₁.flatten = chunks₂.flatten → ¬GivesUpWaiting aes (fresh key) chunks₁ →
      ¬GivesUpWaiting aes (fresh key) chunks₂ →
      (feedUntil aes (fresh key) chunks₁).raised.isSome →
      (feedUntil aes (fresh key) chunks₁).frames = (feedUntil aes (fresh key) chunks₂).frames := by
  intro hall
  have h := hall pollAes none [capturedPoll ++ encryptedPoll] [capturedPoll, encryptedPoll]
    (by decide) (not_givesUpWaiting_of_short (by decide)) (not_givesUpWaiting_of_short (by decide))
    (by rw [feedUntil_together]; rfl)
  rw [feedUntil_together, feedUntil_apart] at h
  cases h

/-- Cut in two, the stream gives its frame before it fails. -/
theorem frames_kept_apart :
    ∃ frames, FailsBehind pollAes none [capturedPoll, encryptedPoll].flatten frames
        .encryptionRequired ∧
      ((feedUntil pollAes (fresh none) [capturedPoll, encryptedPoll]).frames = frames ↔
        ∃ seen, seen <+: [capturedPoll, encryptedPoll] ∧ Yields pollAes none seen.flatten frames) :=
  frames_kept_iff pollAes none [capturedPoll, encryptedPoll] .encryptionRequired
    (not_givesUpWaiting_of_short (by decide)) (by rw [feedUntil_apart])

end FrameDecoder

end Spcedp.Wire

/-! ## The read loop -/

namespace Spcedp.Client.Connection

open Spcedp.Wire

section ReadLoop

variable (server : PanelServer) (env : Env)

/-- Turns of the read loop on chunks that come one after the other. -/
def readChunks (c : Connection) : List Bytes → Connection
  | [] => c
  | x :: xs => if c.reading then (c.readChunk server env x).readChunks xs else c

/-- **The read loop handles the frames that are returned, and no others**: chunks up to the
first exception, with the session left alone in between. -/
theorem readChunks_world (chunks : List Bytes) (hne : ∀ x ∈ chunks, x ≠ []) :
    ∀ c : Connection, c.reading = true →
      (c.readChunks server env chunks).world =
        let run := FrameDecoder.feedUntil env.aes c.decoder chunks
        let handled := run.frames.foldl (handleFrame server env) c
        if run.raised.isSome then handled.stop.world else handled.world := by
  induction chunks with
  | nil =>
      intro c _
      rfl
  | cons x xs ih =>
      intro c hreading
      obtain ⟨b, bs, rfl⟩ := List.exists_cons_of_ne_nil (hne x List.mem_cons_self)
      rw [readChunks, if_pos hreading, FrameDecoder.feedUntil]
      unfold readChunk
      dsimp only
      cases hfeed : c.decoder.feed env.aes (b :: bs) with
      | mk d result =>
          cases result with
          | ok frames =>
              dsimp only
              have hstill : (frames.foldl (handleFrame server env) c).reading = true :=
                (foldl_handleFrame_reading frames).trans hreading
              rw [foldl_handleFrame_decoder]
              rw [ih (fun y hy => hne y (List.mem_cons_of_mem _ hy)) _ (by exact hstill)]
              dsimp only
              rw [foldl_handleFrame_decoder, List.foldl_append]
              rfl
          | error e =>
              dsimp only
              cases xs with
              | nil => rfl
              | cons y ys =>
                  rw [readChunks, if_neg (by simp [stop])]
                  rfl

end ReadLoop

end Spcedp.Client.Connection
