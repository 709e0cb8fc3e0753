import Spcedp.Model.Wire

/-!
# The stream decoder

`FrameDecoder` of `spcedp/wire.py`. One pass of the `while True` of `feed` is
`FrameDecoder.pass`; a pass that continues has shortened the buffer, so the loop is a
recursion on the buffer's length. `feed` also returns the decoder when it raises: the
object keeps its state.
-/

set_option autoImplicit false

namespace Spcedp.Wire

open Lib.LittleEndian

structure FrameDecoder where
  buf : Bytes := []
  key : Option Bytes := none
  /-- Bytes dropped since the last good frame. -/
  dropped : ℕ := 0
  /-- Claimed length of the frame that is waited for. -/
  waitTotal : Option ℕ := none
  /-- Length of `buf` when the wait began. -/
  waitStartLen : ℕ := 0
  deriving DecidableEq, Repr

namespace FrameDecoder

/-- How one pass of the loop of `feed` ends. -/
inductive Pass
  | done (d : FrameDecoder)
  | again (d : FrameDecoder) (frame : Option Frame)
  | raised (d : FrameDecoder) (e : WireError)

def resetWait (d : FrameDecoder) : FrameDecoder :=
  { d with waitTotal := none, waitStartLen := 0 }

/-- Drop one byte, up to `resyncLimit` times in a row. -/
def resync (d : FrameDecoder) : Pass :=
  let d := { d with buf := d.buf.drop 1, dropped := d.dropped + 1 }
  if d.dropped > resyncLimit then .raised d (.gaveUpResyncing d.dropped) else .again d none

/-- `looks_valid`: the header claims a plausible length and has the EDP magic. -/
def looksValid (buf : Bytes) : Prop :=
  let rem := ofBytes (buf.take 2)
  let total := rem + 2
  headerLen ≤ total ∧ total ≤ maxPlausibleFrame ∧ rem ≤ maxFrameLen ∧
    buf.getD 2 0 = protocolByte ∧ buf.getD 3 0 = protocolVersion

instance (buf : Bytes) : Decidable (looksValid buf) := by unfold looksValid; infer_instance

/-- Anchor the wait for a frame of `total` bytes, unless it is anchored already. -/
def anchorWait (d : FrameDecoder) (total : ℕ) : FrameDecoder :=
  if d.waitTotal ≠ some total then { d with waitTotal := some total, waitStartLen := d.buf.length }
  else d

/-- One pass of the loop of `feed`. -/
def pass (aes : AesEcb) (d : FrameDecoder) : Pass :=
  if d.buf.length < headerLen then .done d
  else
    let total := ofBytes (d.buf.take 2) + 2
    if ¬looksValid d.buf then d.resetWait.resync
    else if d.buf.length < total then
      let d := d.anchorWait total
      if d.buf.length - d.waitStartLen > resyncLimit then d.resetWait.resync else .done d
    else
      let d := d.resetWait
      match Frame.decode aes (d.buf.take total) d.key with
      | .ok frame => .again { d with buf := d.buf.drop total, dropped := 0 } (some frame)
      | .error e =>
          match e.cls with
          | .frameDecodeError => d.resync
          | _ => .raised d e

/-- Dropping a byte shortens a nonempty buffer. -/
theorem resync_again {d d' : FrameDecoder} {frame : Option Frame}
    (h : d.resync = .again d' frame) : d'.buf = d.buf.drop 1 ∧ frame = none := by
  unfold resync at h
  dsimp only at h
  split at h
  · cases h
  · cases h
    exact ⟨rfl, rfl⟩

/-- The wait is no part of the buffer. -/
@[simp] theorem resetWait_buf (d : FrameDecoder) : d.resetWait.buf = d.buf := rfl

/-- Nor does a new wait change the buffer. -/
@[simp] theorem anchorWait_buf (d : FrameDecoder) (total : ℕ) :
    (d.anchorWait total).buf = d.buf := by
  unfold anchorWait
  split <;> rfl

/-- A pass continues after dropping one byte, or after taking off a frame that decodes. -/
theorem pass_again_cases {aes : AesEcb} {d d' : FrameDecoder} {frame : Option Frame}
    (h : d.pass aes = .again d' frame) :
    headerLen ≤ d.buf.length ∧ (frame = none ∧ d'.buf = d.buf.drop 1 ∨
      ∃ f, frame = some f ∧ ofBytes (d.buf.take 2) + 2 ≤ d.buf.length ∧
        Frame.decode aes (d.buf.take (ofBytes (d.buf.take 2) + 2)) d.key = .ok f ∧
        d'.buf = d.buf.drop (ofBytes (d.buf.take 2) + 2)) := by
  unfold pass at h
  split at h
  · cases h
  rename_i hlen
  refine ⟨not_lt.mp hlen, ?_⟩
  have hdrop (d₀ : FrameDecoder) (hbuf : d₀.buf = d.buf) (h : d₀.resync = .again d' frame) :
      frame = none ∧ d'.buf = d.buf.drop 1 :=
    ⟨(resync_again h).2, hbuf ▸ (resync_again h).1⟩
  dsimp only at h
  split at h
  · exact .inl (hdrop d.resetWait rfl h)
  split at h
  · split at h
    · exact .inl (hdrop (d.anchorWait _).resetWait (by simp) h)
    · cases h
  rename_i hge
  split at h
  · rename_i f hdec
    cases h
    exact .inr ⟨f, rfl, not_lt.mp hge, hdec, rfl⟩
  · split at h
    · exact .inl (hdrop d.resetWait rfl h)
    · cases h

/-- A pass that continues has taken bytes from the buffer. -/
theorem pass_again {aes : AesEcb} {d d' : FrameDecoder} {frame : Option Frame}
    (h : d.pass aes = .again d' frame) : d'.buf.length < d.buf.length := by
  obtain ⟨hlen, ⟨-, hbuf⟩ | ⟨f, -, -, -, hbuf⟩⟩ := pass_again_cases h
  all_goals
    rw [hbuf, List.length_drop]
    simp only [headerLen] at hlen
    omega

/-- A pass that returns has only set the wait anchor. -/
theorem pass_done {aes : AesEcb} {d d' : FrameDecoder} (h : d.pass aes = .done d') :
    d'.buf = d.buf := by
  have hresync (d₀ : FrameDecoder) : d₀.resync ≠ .done d' := by
    unfold resync
    dsimp only
    split <;> exact Pass.noConfusion
  unfold pass at h
  split at h
  · cases h
    rfl
  dsimp only at h
  split at h
  · exact absurd h (hresync _)
  split at h
  · split at h
    · exact absurd h (hresync _)
    · cases h
      exact anchorWait_buf d _
  split at h
  · cases h
  · split at h
    · exact absurd h (hresync _)
    · cases h

/-- The loop of `feed`, with the frames found so far in `out`. -/
def loop (aes : AesEcb) (d : FrameDecoder) (out : List Frame) :
    FrameDecoder × Except WireError (List Frame) :=
  match _h : d.pass aes with
  | .done d' => (d', .ok out)
  | .again d' frame => loop aes d' (out ++ frame.toList)
  | .raised d' e => (d', .error e)
termination_by d.buf.length
decreasing_by exact pass_again _h

def feed (aes : AesEcb) (d : FrameDecoder) (data : Bytes) :
    FrameDecoder × Except WireError (List Frame) :=
  loop aes { d with buf := d.buf ++ data } []

/-- Feed chunks one after the other, and note what each call returns. -/
def feedAll (aes : AesEcb) (d : FrameDecoder) :
    List Bytes → FrameDecoder × List (Except WireError (List Frame))
  | [] => (d, [])
  | chunk :: chunks =>
      let (d, result) := d.feed aes chunk
      let (d, results) := feedAll aes d chunks
      (d, result :: results)

end FrameDecoder

end Spcedp.Wire
