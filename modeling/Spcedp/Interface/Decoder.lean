import Spcedp.Lib.Stream
import Spcedp.Analysis.Segmentation

/-!
# The decoder as a reader of its stream

What a pass of `feed` does follows from the front of the buffer, read with the key:
`front` says which of five things stands there, and `pass_front` is the pass in these
terms. `reader` is the decoder as a reader in the sense of `Lib.Stream`, and `feedUntil`,
which feeds chunks up to the first exception, is a run of it.

`Splitter` is the decoder without its bounded wait: it says where a stream splits into
frames and dropped bytes, and is stable. The decoder does what the splitter does at every
pass that does not take the bounded-wait branch (`waitExpired`).
-/

set_option autoImplicit false

namespace Spcedp.Wire

open Lib.LittleEndian Lib.Stream

/-- `total` of `feed`: the length of the frame that the length prefix claims. -/
def claimed (buf : Bytes) : ℕ := ofBytes (buf.take 2) + 2

/-! ## The front of the buffer -/

/-- What stands at the front of a buffer. -/
inductive Front
  /-- Too few bytes for a header. -/
  | short
  /-- No plausible header, or a whole frame that does not decode. -/
  | junk
  /-- The header of a frame of `total` bytes that has not all arrived. -/
  | cut (total : ℕ)
  | frame (total : ℕ) (f : Frame)
  /-- A whole frame at which decoding raises something that is not caught. -/
  | fatal (e : WireError)
  deriving DecidableEq, Repr

def front (aes : AesEcb) (key : Option Bytes) (buf : Bytes) : Front :=
  if buf.length < headerLen then .short
  else if ¬FrameDecoder.looksValid buf then .junk
  else if buf.length < claimed buf then .cut (claimed buf)
  else
    match Frame.decode aes (buf.take (claimed buf)) key with
    | .ok f => .frame (claimed buf) f
    | .error e =>
        match e.cls with
        | .frameDecodeError => .junk
        | _ => .fatal e

section Front

variable {aes : AesEcb} {key : Option Bytes} {buf : Bytes}

/-- More bytes leave the length prefix as it is. -/
theorem claimed_append (hlen : headerLen ≤ buf.length) (more : Bytes) :
    claimed (buf ++ more) = claimed buf := by
  unfold claimed
  simp only [headerLen] at hlen
  rw [List.take_append_of_le_length (by omega)]

/-- More bytes leave a header as plausible as it is. -/
theorem looksValid_append (hlen : headerLen ≤ buf.length) (more : Bytes) :
    FrameDecoder.looksValid (buf ++ more) ↔ FrameDecoder.looksValid buf := by
  simp only [headerLen] at hlen
  unfold FrameDecoder.looksValid
  rw [List.take_append_of_le_length (by omega), List.getD_append _ _ _ _ (by omega),
    List.getD_append _ _ _ _ (by omega)]

/-- What claims to be a frame is not longer than the largest plausible one. -/
theorem claimed_bounds (hvalid : FrameDecoder.looksValid buf) :
    headerLen ≤ claimed buf ∧ claimed buf ≤ maxPlausibleFrame :=
  ⟨hvalid.1, hvalid.2.1⟩

/-- A frame is cut off where a plausible header claims more bytes than have come in. -/
theorem front_cut_iff {total : ℕ} : front aes key buf = .cut total ↔
    headerLen ≤ buf.length ∧ FrameDecoder.looksValid buf ∧ buf.length < claimed buf ∧
      total = claimed buf := by
  unfold front
  by_cases hlen : buf.length < headerLen
  · rw [if_pos hlen]
    exact iff_of_false (by simp) (fun h => absurd h.1 (not_le.mpr hlen))
  rw [if_neg hlen]
  by_cases hvalid : FrameDecoder.looksValid buf
  · rw [if_neg (not_not.mpr hvalid)]
    by_cases hcut : buf.length < claimed buf
    · rw [if_pos hcut, Front.cut.injEq]
      exact ⟨fun h => ⟨not_lt.mp hlen, hvalid, hcut, h.symm⟩, fun h => h.2.2.2.symm⟩
    · rw [if_neg hcut]
      refine ⟨fun h => ?_, fun h => absurd h.2.2.1 hcut⟩
      split at h
      · cases h
      · split at h <;> cases h
  · rw [if_pos hvalid]
    exact iff_of_false (by simp) (fun h => absurd h.2.1 hvalid)

/-- A frame at the front is whole, plausible and decodes. -/
theorem front_frame {total : ℕ} {f : Frame} (h : front aes key buf = .frame total f) :
    headerLen ≤ buf.length ∧ FrameDecoder.looksValid buf ∧ total = claimed buf ∧
      total ≤ buf.length ∧ Frame.decode aes (buf.take total) key = .ok f := by
  unfold front at h
  split at h
  · cases h
  rename_i hlen
  split at h
  · cases h
  rename_i hvalid
  split at h
  · cases h
  rename_i hcut
  split at h
  · rename_i f' hdec
    obtain ⟨rfl, rfl⟩ := Front.frame.inj h
    exact ⟨not_lt.mp hlen, not_not.mp hvalid, rfl, not_lt.mp hcut, hdec⟩
  · split at h <;> cases h

/-- What raises is a whole frame. -/
theorem front_fatal {e : WireError} (h : front aes key buf = .fatal e) :
    FrameDecoder.looksValid buf ∧ claimed buf ≤ buf.length ∧
      Frame.decode aes (buf.take (claimed buf)) key = .error e ∧ e.cls ≠ .frameDecodeError := by
  unfold front at h
  split at h
  · cases h
  split at h
  · cases h
  rename_i hvalid
  split at h
  · cases h
  rename_i hcut
  split at h
  · cases h
  · rename_i e' hdec
    split at h
    · cases h
    · rename_i hcls
      obtain rfl := Front.fatal.inj h
      exact ⟨not_not.mp hvalid, not_lt.mp hcut, hdec, hcls⟩

/-- Only a whole header can be junk. -/
theorem front_junk (h : front aes key buf = .junk) : headerLen ≤ buf.length := by
  unfold front at h
  split at h
  · cases h
  · rename_i hlen
    exact not_lt.mp hlen

/-- **The front does not change** when more bytes come, unless bytes were missing. -/
theorem front_append (more : Bytes) (hshort : front aes key buf ≠ .short)
    (hcut : ∀ total, front aes key buf ≠ .cut total) :
    front aes key (buf ++ more) = front aes key buf := by
  have hlen : headerLen ≤ buf.length := by
    by_contra hlen
    exact hshort (by unfold front; rw [if_pos (not_le.mp hlen)])
  have hlen' : ¬(buf ++ more).length < headerLen := by
    rw [List.length_append, not_lt]
    exact Nat.le_add_right_of_le hlen
  have hiff := looksValid_append hlen more
  by_cases hvalid : FrameDecoder.looksValid buf
  · have hwhole : ¬buf.length < claimed buf := fun hlt =>
      hcut _ (front_cut_iff.mpr ⟨hlen, hvalid, hlt, rfl⟩)
    unfold front
    rw [if_neg hlen', if_neg (not_lt.mpr hlen), if_neg (not_not.mpr (hiff.mpr hvalid)),
      if_neg (not_not.mpr hvalid), claimed_append hlen, if_neg hwhole,
      if_neg (by rw [List.length_append]; omega), List.take_append_of_le_length (by omega)]
  · unfold front
    rw [if_neg hlen', if_neg (not_lt.mpr hlen), if_pos (mt hiff.mp hvalid), if_pos hvalid]

end Front

/-! ## The splitter -/

/-- The decoder's state but for the wait. -/
structure Splitter where
  key : Option Bytes
  buf : Bytes := []
  dropped : ℕ := 0
  deriving DecidableEq, Repr

namespace Splitter

/-- Drop one byte, up to `resyncLimit` times in a row. -/
def drop (s : Splitter) : Turn Splitter Frame WireError :=
  let s := { s with buf := s.buf.drop 1, dropped := s.dropped + 1 }
  if s.dropped > resyncLimit then .fail s (.gaveUpResyncing s.dropped) else .take s none

def turn (aes : AesEcb) (s : Splitter) : Turn Splitter Frame WireError :=
  match front aes s.key s.buf with
  | .short => .wait s
  | .cut _ => .wait s
  | .junk => s.drop
  | .frame total f => .take { s with buf := s.buf.drop total, dropped := 0 } (some f)
  | .fatal e => .fail s e

def push (s : Splitter) (data : Bytes) : Splitter := { s with buf := s.buf ++ data }

/-- New bytes do not change the key. -/
@[simp] theorem push_key (s : Splitter) (data : Bytes) : (s.push data).key = s.key := rfl

/-- New bytes come behind those held. -/
@[simp] theorem push_buf (s : Splitter) (data : Bytes) : (s.push data).buf = s.buf ++ data := rfl

/-- New bytes do not change the count of those dropped. -/
@[simp] theorem push_dropped (s : Splitter) (data : Bytes) :
    (s.push data).dropped = s.dropped := rfl

/-- Dropping takes one byte off and counts it, or fails. -/
theorem drop_take {s s' : Splitter} {item : Option Frame} (h : s.drop = .take s' item) :
    s' = { s with buf := s.buf.drop 1, dropped := s.dropped + 1 } ∧ item = none ∧
      s.dropped < resyncLimit := by
  unfold drop at h
  dsimp only at h
  split at h
  · cases h
  · rename_i hle
    obtain ⟨rfl, rfl⟩ := Turn.take.inj h
    exact ⟨rfl, rfl, not_lt.mp hle⟩

/-- Dropping a byte is not waiting. -/
theorem drop_ne_wait (s s' : Splitter) : s.drop ≠ .wait s' := by
  unfold drop
  dsimp only
  split
  all_goals
    intro h
    cases h

/-- The cases of a turn that takes a piece. -/
theorem turn_take {aes : AesEcb} {s s' : Splitter} {item : Option Frame}
    (h : s.turn aes = .take s' item) :
    (front aes s.key s.buf = .junk ∧ item = none ∧ s.dropped < resyncLimit ∧
      s' = { s with buf := s.buf.drop 1, dropped := s.dropped + 1 }) ∨
    ∃ total f, front aes s.key s.buf = .frame total f ∧ item = some f ∧
      s' = { s with buf := s.buf.drop total, dropped := 0 } := by
  unfold turn at h
  cases hfront : front aes s.key s.buf with
  | short => rw [hfront] at h; cases h
  | cut total => rw [hfront] at h; cases h
  | junk =>
      rw [hfront] at h
      obtain ⟨hs, hitem, hlt⟩ := drop_take h
      exact .inl ⟨rfl, hitem, hlt, hs⟩
  | frame total f =>
      rw [hfront] at h
      obtain ⟨rfl, rfl⟩ := Turn.take.inj h
      exact .inr ⟨total, f, rfl, rfl, rfl⟩
  | fatal e => rw [hfront] at h; cases h

/-- The cases of a turn that waits. -/
theorem turn_wait {aes : AesEcb} {s s' : Splitter} (h : s.turn aes = .wait s') :
    s' = s ∧ (front aes s.key s.buf = .short ∨ ∃ total, front aes s.key s.buf = .cut total) := by
  unfold turn at h
  cases hfront : front aes s.key s.buf with
  | short =>
      rw [hfront] at h
      exact ⟨(Turn.wait.inj h).symm, .inl rfl⟩
  | cut total =>
      rw [hfront] at h
      exact ⟨(Turn.wait.inj h).symm, .inr ⟨total, rfl⟩⟩
  | junk => rw [hfront] at h; exact absurd h (drop_ne_wait s s')
  | frame total f => rw [hfront] at h; cases h
  | fatal e => rw [hfront] at h; cases h

/-- The cases of a turn that fails. -/
theorem turn_fail {aes : AesEcb} {s s' : Splitter} {e : WireError}
    (h : s.turn aes = .fail s' e) :
    (front aes s.key s.buf = .junk ∧ resyncLimit ≤ s.dropped ∧
      e = .gaveUpResyncing (s.dropped + 1)) ∨ front aes s.key s.buf = .fatal e := by
  unfold turn at h
  cases hfront : front aes s.key s.buf with
  | short => rw [hfront] at h; cases h
  | cut total => rw [hfront] at h; cases h
  | junk =>
      rw [hfront] at h
      dsimp only [drop] at h
      split at h
      · rename_i hgt
        obtain ⟨-, rfl⟩ := Turn.fail.inj h
        exact .inl ⟨rfl, Nat.le_of_lt_succ hgt, rfl⟩
      · cases h
  | frame total f => rw [hfront] at h; cases h
  | fatal e' =>
      rw [hfront] at h
      obtain ⟨-, rfl⟩ := Turn.fail.inj h
      exact .inr rfl

/-- The splitter on a stream, as a reader. -/
def reader (aes : AesEcb) : Reader Splitter UInt8 Frame WireError where
  turn := turn aes
  held := buf
  push := push
  held_push _ _ := rfl
  push_nil s := by rw [push, List.append_nil]
  push_push s xs ys := by rw [push, push, push, List.append_assoc]
  held_wait s s' h := by rw [(turn_wait h).1]
  held_take s s' item h := by
    obtain ⟨hfront, -, -, rfl⟩ | ⟨total, f, hfront, -, rfl⟩ := turn_take h
    · have hlen := front_junk hfront
      simp only [headerLen] at hlen
      refine ⟨s.buf.take 1, ?_, (List.take_append_drop _ _).symm⟩
      rw [← List.length_pos_iff, List.length_take]
      omega
    · obtain ⟨hlen, hvalid, rfl, hle, -⟩ := front_frame hfront
      have hmin := (claimed_bounds hvalid).1
      simp only [headerLen] at hlen hmin
      refine ⟨s.buf.take (claimed s.buf), ?_, (List.take_append_drop _ _).symm⟩
      rw [← List.length_pos_iff, List.length_take]
      omega

section Push

variable {aes : AesEcb} {s : Splitter} (xs : Bytes)

/-- Junk stays junk when more comes in. -/
theorem turn_push_junk (h : front aes s.key s.buf = .junk) :
    (s.push xs).turn aes = (s.push xs).drop := by
  have hfront := front_append xs (by rw [h]; simp) (by rw [h]; simp)
  unfold turn
  rw [push_key, push_buf, hfront, h]

/-- A frame stays one when more comes in. -/
theorem turn_push_frame {total : ℕ} {f : Frame} (h : front aes s.key s.buf = .frame total f) :
    (s.push xs).turn aes =
      .take ({ s with buf := s.buf.drop total, dropped := 0 }.push xs) (some f) := by
  have hfront := front_append xs (by rw [h]; simp) (by rw [h]; simp)
  obtain ⟨-, -, -, hle, -⟩ := front_frame h
  unfold turn
  rw [push_key, push_buf, hfront, h]
  dsimp only [push]
  rw [List.drop_append_of_le_length hle]

/-- An error stays one when more comes in. -/
theorem turn_push_fatal {e : WireError} (h : front aes s.key s.buf = .fatal e) :
    (s.push xs).turn aes = .fail (s.push xs) e := by
  have hfront := front_append xs (by rw [h]; simp) (by rw [h]; simp)
  unfold turn
  rw [push_key, push_buf, hfront, h]

end Push

/-- **Bytes that come later change nothing** that the splitter has decided. -/
theorem reader_stable (aes : AesEcb) : Stable (reader aes) where
  wait s s' h := (turn_wait h).1
  take s s' item xs h := by
    show (s.push xs).turn aes = .take (s'.push xs) item
    obtain ⟨hfront, rfl, hlt, rfl⟩ | ⟨total, f, hfront, rfl, rfl⟩ := turn_take h
    · have hlen := front_junk hfront
      simp only [headerLen] at hlen
      rw [turn_push_junk xs hfront]
      unfold drop
      dsimp only [push]
      rw [if_neg (not_lt.mpr hlt), List.drop_append_of_le_length (by omega)]
    · exact turn_push_frame xs hfront
  fail s s' e xs h := by
    show ∃ s'', (s.push xs).turn aes = .fail s'' e
    obtain ⟨hfront, hle, rfl⟩ | hfront := turn_fail h
    · rw [turn_push_junk xs hfront]
      unfold drop
      dsimp only [push]
      rw [if_pos (Nat.lt_succ_of_le hle)]
      exact ⟨_, rfl⟩
    · exact ⟨_, turn_push_fatal xs hfront⟩

end Splitter

/-! ## The decoder -/

namespace FrameDecoder

/-- A new decoder. -/
abbrev fresh (key : Option Bytes) : FrameDecoder := { key := key }

/-- The pass is one that takes the bounded-wait branch of `feed`. -/
def waitExpired (d : FrameDecoder) : Prop :=
  headerLen ≤ d.buf.length ∧ looksValid d.buf ∧ d.buf.length < claimed d.buf ∧
    d.buf.length - (d.anchorWait (claimed d.buf)).waitStartLen > resyncLimit

instance (d : FrameDecoder) : Decidable d.waitExpired := by unfold waitExpired; infer_instance

def push (d : FrameDecoder) (data : Bytes) : FrameDecoder := { d with buf := d.buf ++ data }

def Pass.turn : Pass → Turn FrameDecoder Frame WireError
  | .done d => .wait d
  | .again d frame => .take d frame
  | .raised d e => .fail d e

/-- The wait does not touch the key. -/
@[simp] theorem resetWait_key (d : FrameDecoder) : d.resetWait.key = d.key := rfl

/-- Nor does it touch the count of dropped bytes. -/
@[simp] theorem resetWait_dropped (d : FrameDecoder) : d.resetWait.dropped = d.dropped := rfl

/-- A new wait does not touch the key. -/
@[simp] theorem anchorWait_key (d : FrameDecoder) (total : ℕ) :
    (d.anchorWait total).key = d.key := by
  unfold anchorWait
  split <;> rfl

/-- Nor does it touch the count of dropped bytes. -/
@[simp] theorem anchorWait_dropped (d : FrameDecoder) (total : ℕ) :
    (d.anchorWait total).dropped = d.dropped := by
  unfold anchorWait
  split <;> rfl

/-- **A pass, from the front of the buffer.** -/
theorem pass_front (aes : AesEcb) (d : FrameDecoder) : d.pass aes =
    match front aes d.key d.buf with
    | .short => .done d
    | .junk => d.resetWait.resync
    | .cut total =>
        if d.buf.length - (d.anchorWait total).waitStartLen > resyncLimit then
          (d.anchorWait total).resetWait.resync
        else .done (d.anchorWait total)
    | .frame total f => .again { d.resetWait with buf := d.buf.drop total, dropped := 0 } (some f)
    | .fatal e => .raised d.resetWait e := by
  unfold pass front
  by_cases hlen : d.buf.length < headerLen
  · rw [if_pos hlen, if_pos hlen]
  rw [if_neg hlen, if_neg hlen]
  by_cases hvalid : looksValid d.buf
  swap
  · rw [if_pos hvalid, if_pos hvalid]
  rw [if_neg (not_not.mpr hvalid), if_neg (not_not.mpr hvalid)]
  by_cases hcut : d.buf.length < claimed d.buf
  · rw [if_pos hcut]
    have hcut' : d.buf.length < ofBytes (d.buf.take 2) + 2 := hcut
    rw [if_pos hcut']
    simp only [anchorWait_buf, claimed]
    rfl
  · rw [if_neg hcut]
    have hcut' : ¬d.buf.length < ofBytes (d.buf.take 2) + 2 := hcut
    rw [if_neg hcut']
    dsimp only [resetWait_buf, resetWait_key]
    unfold claimed
    cases hdec : Frame.decode aes (d.buf.take (ofBytes (d.buf.take 2) + 2)) d.key with
    | ok f => rfl
    | error e => cases e <;> rfl

section Front

variable {aes : AesEcb} {d : FrameDecoder}

/-- Less than a header ends the calls of the loop. -/
theorem pass_of_short (h : front aes d.key d.buf = .short) : d.pass aes = .done d := by
  rw [pass_front, h]

/-- Junk costs its first byte, below the limit. -/
theorem pass_of_junk (h : front aes d.key d.buf = .junk) (hlt : d.dropped < resyncLimit) :
    d.pass aes =
      .again { d.resetWait with buf := d.buf.drop 1, dropped := d.dropped + 1 } none := by
  rw [pass_front, h]
  dsimp only
  unfold resync
  dsimp only [resetWait_dropped]
  rw [if_neg (not_lt.mpr hlt)]
  rfl

/-- A frame is taken off, and the count of dropped bytes starts again. -/
theorem pass_of_frame {total : ℕ} {f : Frame} (h : front aes d.key d.buf = .frame total f) :
    d.pass aes = .again { d.resetWait with buf := d.buf.drop total, dropped := 0 } (some f) := by
  rw [pass_front, h]

/-- An error of `decode` that the loop does not catch is raised. -/
theorem pass_of_fatal {e : WireError} (h : front aes d.key d.buf = .fatal e) :
    d.pass aes = .raised d.resetWait e := by
  rw [pass_front, h]

end Front

/-- `_resync` drops one byte and counts it, or raises. -/
theorem resync_again_eq {d d' : FrameDecoder} {item : Option Frame}
    (h : d.resync = .again d' item) :
    d' = { d with buf := d.buf.drop 1, dropped := d.dropped + 1 } ∧ item = none ∧
      d.dropped < resyncLimit := by
  unfold resync at h
  dsimp only at h
  split at h
  · cases h
  · rename_i hle
    obtain ⟨rfl, rfl⟩ := Pass.again.inj h
    exact ⟨rfl, rfl, not_lt.mp hle⟩

/-- `_resync` raises when it has dropped a byte too many. -/
theorem resync_raised_eq {d d' : FrameDecoder} {e : WireError} (h : d.resync = .raised d' e) :
    d' = { d with buf := d.buf.drop 1, dropped := d.dropped + 1 } ∧
      e = .gaveUpResyncing (d.dropped + 1) ∧ resyncLimit ≤ d.dropped := by
  unfold resync at h
  dsimp only at h
  split at h
  · rename_i hgt
    obtain ⟨rfl, rfl⟩ := Pass.raised.inj h
    exact ⟨rfl, rfl, Nat.le_of_lt_succ hgt⟩
  · cases h

/-- `_resync` goes on or raises. -/
theorem resync_ne_done (d d' : FrameDecoder) : d.resync ≠ .done d' := by
  unfold resync
  dsimp only
  split
  all_goals
    intro h
    cases h

section Cases

variable {aes : AesEcb} {d d' : FrameDecoder} {item : Option Frame} {e : WireError}

/-- The wait is over when more than `resyncLimit` bytes have come in behind an anchor. -/
theorem waitExpired_iff : d.waitExpired ↔ ∃ total, front aes d.key d.buf = .cut total ∧
    d.buf.length - (d.anchorWait total).waitStartLen > resyncLimit := by
  constructor
  · rintro ⟨hlen, hvalid, hlt, hgt⟩
    exact ⟨claimed d.buf, front_cut_iff.mpr ⟨hlen, hvalid, hlt, rfl⟩, hgt⟩
  · rintro ⟨total, hfront, hgt⟩
    obtain ⟨hlen, hvalid, hlt, rfl⟩ := front_cut_iff.mp hfront
    exact ⟨hlen, hvalid, hlt, hgt⟩

/-- `feed` returns at a short buffer, or at a frame that it goes on waiting for. -/
theorem pass_done_cases (h : d.pass aes = .done d') :
    (front aes d.key d.buf = .short ∧ d' = d) ∨
    ∃ total, front aes d.key d.buf = .cut total ∧ d' = d.anchorWait total ∧
      d.buf.length - d'.waitStartLen ≤ resyncLimit := by
  rw [pass_front] at h
  cases hfront : front aes d.key d.buf with
  | short =>
      rw [hfront] at h
      exact .inl ⟨rfl, (Pass.done.inj h).symm⟩
  | junk =>
      rw [hfront] at h
      exact absurd h (resync_ne_done _ _)
  | cut total =>
      rw [hfront] at h
      dsimp only at h
      split at h
      · exact absurd h (resync_ne_done _ _)
      · rename_i hle
        obtain rfl := Pass.done.inj h
        exact .inr ⟨total, rfl, rfl, not_lt.mp hle⟩
  | frame total f => rw [hfront] at h; cases h
  | fatal e => rw [hfront] at h; cases h

/-- `feed` goes on after dropping a byte, from junk or from a frame it has waited for too
long, and after taking off a frame. -/
theorem pass_again_front (h : d.pass aes = .again d' item) :
    d'.key = d.key ∧ d'.waitTotal = none ∧
      ((item = none ∧ d'.buf = d.buf.drop 1 ∧ d'.dropped = d.dropped + 1 ∧
          d.dropped < resyncLimit ∧ headerLen ≤ d.buf.length ∧
          (front aes d.key d.buf = .junk ∨ d.waitExpired)) ∨
        ∃ total f, front aes d.key d.buf = .frame total f ∧ item = some f ∧
          d'.buf = d.buf.drop total ∧ d'.dropped = 0) := by
  rw [pass_front] at h
  cases hfront : front aes d.key d.buf with
  | short => rw [hfront] at h; cases h
  | junk =>
      rw [hfront] at h
      obtain ⟨rfl, rfl, hlt⟩ := resync_again_eq h
      exact ⟨rfl, rfl, .inl ⟨rfl, rfl, rfl, hlt, front_junk hfront, .inl rfl⟩⟩
  | cut total =>
      rw [hfront] at h
      dsimp only at h
      split at h
      · rename_i hgt
        obtain ⟨rfl, rfl, hlt⟩ := resync_again_eq h
        have hlen := (front_cut_iff.mp hfront).1
        rw [resetWait_dropped, anchorWait_dropped] at hlt
        refine ⟨?_, rfl, .inl ⟨rfl, ?_, ?_, hlt, hlen,
          .inr (waitExpired_iff.mpr ⟨total, hfront, hgt⟩)⟩⟩
        · simp
        · simp
        · simp
      · cases h
  | frame total f =>
      rw [hfront] at h
      obtain ⟨rfl, rfl⟩ := Pass.again.inj h
      exact ⟨rfl, rfl, .inr ⟨total, f, rfl, rfl, rfl, rfl⟩⟩
  | fatal e => rw [hfront] at h; cases h

/-- `feed` raises when it has dropped too many bytes, or from `Frame.decode`. -/
theorem pass_raised_front (h : d.pass aes = .raised d' e) :
    d'.key = d.key ∧ d'.waitTotal = none ∧
      ((e = .gaveUpResyncing (d.dropped + 1) ∧ resyncLimit ≤ d.dropped ∧
          (front aes d.key d.buf = .junk ∨ d.waitExpired)) ∨
        front aes d.key d.buf = .fatal e) := by
  rw [pass_front] at h
  cases hfront : front aes d.key d.buf with
  | short => rw [hfront] at h; cases h
  | junk =>
      rw [hfront] at h
      obtain ⟨rfl, rfl, hle⟩ := resync_raised_eq h
      exact ⟨rfl, rfl, .inl ⟨rfl, hle, .inl rfl⟩⟩
  | cut total =>
      rw [hfront] at h
      dsimp only at h
      split at h
      · rename_i hgt
        obtain ⟨rfl, rfl, hle⟩ := resync_raised_eq h
        rw [resetWait_dropped, anchorWait_dropped] at hle ⊢
        refine ⟨?_, rfl, .inl ⟨rfl, hle, .inr (waitExpired_iff.mpr ⟨total, hfront, hgt⟩)⟩⟩
        simp
      · cases h
  | frame total f => rw [hfront] at h; cases h
  | fatal e' =>
      rw [hfront] at h
      obtain ⟨rfl, rfl⟩ := Pass.raised.inj h
      exact ⟨rfl, rfl, .inr rfl⟩

end Cases

/-- The decoder, as a reader of the bytes it is fed. -/
def reader (aes : AesEcb) : Reader FrameDecoder UInt8 Frame WireError where
  turn d := (d.pass aes).turn
  held := buf
  push := push
  held_push _ _ := rfl
  push_nil d := by rw [push, List.append_nil]
  push_push d xs ys := by rw [push, push, push, List.append_assoc]
  held_wait d d' h := by
    cases hpass : d.pass aes with
    | done d₁ =>
        rw [hpass] at h
        obtain rfl := Turn.wait.inj h
        exact pass_done hpass
    | again d₁ item => rw [hpass] at h; cases h
    | raised d₁ e => rw [hpass] at h; cases h
  held_take d d' item h := by
    cases hpass : d.pass aes with
    | done d₁ => rw [hpass] at h; cases h
    | again d₁ item' =>
        rw [hpass] at h
        obtain ⟨rfl, rfl⟩ := Turn.take.inj h
        obtain ⟨n, hn⟩ : ∃ n, d₁.buf = d.buf.drop n := by
          obtain ⟨-, ⟨-, hbuf⟩ | ⟨f, -, -, -, hbuf⟩⟩ := pass_again_cases hpass
          · exact ⟨1, hbuf⟩
          · exact ⟨_, hbuf⟩
        have hlt := pass_again hpass
        rw [hn, List.length_drop] at hlt
        refine ⟨d.buf.take n, ?_, by rw [hn, List.take_append_drop]⟩
        rw [← List.length_pos_iff, List.length_take]
        omega
    | raised d₁ e => rw [hpass] at h; cases h

section Reader

variable {aes : AesEcb} {d d' : FrameDecoder} {item : Option Frame} {e : WireError}

/-- The reader waits where a pass of the loop leaves it. -/
theorem reader_wait_iff : (reader aes).turn d = .wait d' ↔ d.pass aes = .done d' := by
  show (d.pass aes).turn = .wait d' ↔ d.pass aes = .done d'
  cases d.pass aes <;> simp [Pass.turn]

/-- The reader takes a piece where the loop goes round. -/
theorem reader_take_iff : (reader aes).turn d = .take d' item ↔ d.pass aes = .again d' item := by
  show (d.pass aes).turn = .take d' item ↔ d.pass aes = .again d' item
  cases d.pass aes <;> simp [Pass.turn]

/-- The reader fails where a pass of the loop raises. -/
theorem reader_fail_iff : (reader aes).turn d = .fail d' e ↔ d.pass aes = .raised d' e := by
  show (d.pass aes).turn = .fail d' e ↔ d.pass aes = .raised d' e
  cases d.pass aes <;> simp [Pass.turn]

/-- What the loop of `feed` does is a row of turns. -/
theorem loop_takes (aes : AesEcb) (d : FrameDecoder) (out : List Frame) :
    ∃ ps d₁, Takes (reader aes) d ps d₁ ∧
    ∃ d', (d₁.pass aes = .done d' ∧ loop aes d out = (d', .ok (out ++ items ps))) ∨
      ∃ e, d₁.pass aes = .raised d' e ∧ loop aes d out = (d', .error e) := by
  induction d, out using loop.induct aes with
  | case1 d out d' hpass =>
      refine ⟨[], d, .refl d, d', .inl ⟨hpass, ?_⟩⟩
      rw [loop_done out hpass, items_nil, List.append_nil]
  | case2 d out d' frame hpass ih =>
      obtain ⟨ps, d₁, htakes, d₂, hend⟩ := ih
      have hturn := reader_take_iff.mpr hpass
      obtain ⟨p, -, hheld⟩ := (reader aes).held_take _ _ _ hturn
      refine ⟨⟨p, frame⟩ :: ps, d₁, .head hturn hheld htakes, d₂, ?_⟩
      rw [loop_again out hpass, items_cons, ← List.append_assoc]
      exact hend
  | case3 d out d' e hpass =>
      exact ⟨[], d, .refl d, d', .inr ⟨e, hpass, loop_raised out hpass⟩⟩

/-- A call of `feed` that returns. -/
theorem feed_ok {data : Bytes} {frames : List Frame} (h : d.feed aes data = (d', .ok frames)) :
    ∃ ps d₁, Takes (reader aes) (d.push data) ps d₁ ∧ (reader aes).turn d₁ = .wait d' ∧
      items ps = frames := by
  obtain ⟨ps, d₁, htakes, d₂, ⟨hpass, hloop⟩ | ⟨e, hpass, hloop⟩⟩ :=
    loop_takes aes (d.push data) []
  · have heq := h.symm.trans hloop
    simp only [Prod.mk.injEq, Except.ok.injEq, List.nil_append] at heq
    obtain ⟨rfl, rfl⟩ := heq
    exact ⟨ps, d₁, htakes, reader_wait_iff.mpr hpass, rfl⟩
  · have heq := h.symm.trans hloop
    simp at heq

/-- A call of `feed` that raises. -/
theorem feed_error {data : Bytes} (h : d.feed aes data = (d', .error e)) :
    ∃ ps, FailsAfter (reader aes) (d.push data) ps e := by
  obtain ⟨ps, d₁, htakes, d₂, ⟨hpass, hloop⟩ | ⟨e', hpass, hloop⟩⟩ :=
    loop_takes aes (d.push data) []
  · have heq := h.symm.trans hloop
    simp at heq
  · have heq := h.symm.trans hloop
    simp only [Prod.mk.injEq, Except.error.injEq] at heq
    obtain ⟨rfl, rfl⟩ := heq
    exact ⟨ps, d₁, d', htakes, reader_fail_iff.mpr hpass⟩

end Reader

/-! ## Runs -/

/-- What comes of a row of calls of `feed`: the decoder, the frames returned, and the
exception that ended the row. -/
structure Outcome where
  decoder : FrameDecoder
  frames : List Frame
  raised : Option WireError
  deriving DecidableEq, Repr

/-- Feed chunks one after the other, up to the first exception. -/
def feedUntil (aes : AesEcb) (d : FrameDecoder) : List Bytes → Outcome
  | [] => ⟨d, [], none⟩
  | chunk :: chunks =>
      match d.feed aes chunk with
      | (d', .ok frames) =>
          let rest := feedUntil aes d' chunks
          { rest with frames := frames ++ rest.frames }
      | (d', .error e) => ⟨d', [], some e⟩

/-- While the chunks are fed, `feed` takes its bounded-wait branch. -/
def GivesUpWaiting (aes : AesEcb) (d : FrameDecoder) (chunks : List Bytes) : Prop :=
  ∃ before chunk after ps qs d', chunks = before ++ chunk :: after ∧
    Visits (reader aes) d before chunk ps qs d' ∧ d'.waitExpired

section Run

variable {aes : AesEcb} {d : FrameDecoder} {chunks : List Bytes}

/-- **Chunks fed up to the first exception are a run of the reader**, or fail in one of the
chunks; what has been returned was read in the chunks before it. -/
theorem feedUntil_runs (aes : AesEcb) (chunks : List Bytes) : ∀ d : FrameDecoder,
    ((feedUntil aes d chunks).raised = none ∧
      ∃ ps, Runs (reader aes) d chunks ps (feedUntil aes d chunks).decoder ∧
        items ps = (feedUntil aes d chunks).frames) ∨
    ∃ e ps qs, (feedUntil aes d chunks).raised = some e ∧
      Fails (reader aes) d chunks ps qs e ∧ items ps = (feedUntil aes d chunks).frames := by
  induction chunks with
  | nil =>
      intro d
      exact .inl ⟨rfl, [], .nil d, rfl⟩
  | cons x xs ih =>
      intro d
      cases hfeed : d.feed aes x with
      | mk d' out =>
          cases out with
          | ok frames =>
              obtain ⟨ps, d₁, htakes, hwait, rfl⟩ := feed_ok hfeed
              simp only [feedUntil, hfeed]
              obtain ⟨hnone, qs, hruns, hitems⟩ | ⟨e, qs, qs', hsome, hfails, hitems⟩ := ih d'
              · refine .inl ⟨hnone, ps ++ qs, .cons htakes hwait hruns, ?_⟩
                rw [items_append, hitems]
              · obtain ⟨before, y, after, d₂, rfl, hruns, hfail⟩ := hfails
                refine .inr ⟨e, ps ++ qs, qs', hsome, ?_, ?_⟩
                · exact ⟨x :: before, y, after, d₂, rfl, .cons htakes hwait hruns, hfail⟩
                · rw [items_append, hitems]
          | error e =>
              obtain ⟨ps, hfail⟩ := feed_error hfeed
              simp only [feedUntil, hfeed]
              exact .inr ⟨e, [], ps, rfl, ⟨[], x, xs, d, rfl, .nil d, hfail⟩, rfl⟩

/-- Calls without an exception are a run of the reader. -/
theorem feedUntil_none (h : (feedUntil aes d chunks).raised = none) :
    ∃ ps, Runs (reader aes) d chunks ps (feedUntil aes d chunks).decoder ∧
      items ps = (feedUntil aes d chunks).frames := by
  obtain ⟨-, hruns⟩ | ⟨e, -, -, hsome, -⟩ := feedUntil_runs aes chunks d
  · exact hruns
  · rw [h] at hsome
    cases hsome

/-- Calls up to an exception are a run of the reader to its failure. -/
theorem feedUntil_some {e : WireError} (h : (feedUntil aes d chunks).raised = some e) :
    ∃ ps qs, Fails (reader aes) d chunks ps qs e ∧
      items ps = (feedUntil aes d chunks).frames := by
  obtain ⟨hnone, -⟩ | ⟨e', ps, qs, hsome, hfails⟩ := feedUntil_runs aes chunks d
  · rw [h] at hnone
    cases hnone
  · obtain rfl := Option.some.inj (h.symm.trans hsome)
    exact ⟨ps, qs, hfails⟩

/-- The run of the reader leaves the passes that do not give up where the calls do. -/
theorem strays_iff : Strays (reader aes) (fun d => ¬d.waitExpired) d chunks ↔
    GivesUpWaiting aes d chunks := by
  unfold Strays GivesUpWaiting
  simp only [not_not]

/-- A stream that is not longer than the limit never makes the decoder give up waiting. -/
theorem not_givesUpWaiting_of_short (h : (d.buf ++ chunks.flatten).length ≤ resyncLimit) :
    ¬GivesUpWaiting aes d chunks := by
  rintro ⟨before, chunk, after, ps, qs, d', rfl, hvisits, -, -, -, hgt⟩
  have hheld := congrArg List.length hvisits.held
  simp only [List.length_append, List.flatten_append, List.flatten_cons] at h hheld
  have hbuf : (reader aes).held d' = d'.buf := rfl
  have hbuf' : (reader aes).held d = d.buf := rfl
  rw [hbuf, hbuf'] at hheld
  omega

end Run

/-! ## Decoder and splitter -/

/-- The decoder without its wait. -/
def splitter (d : FrameDecoder) : Splitter := ⟨d.key, d.buf, d.dropped⟩

/-- **The decoder does what the splitter does**, except where it takes the bounded-wait
branch. -/
theorem splitter_simulates (aes : AesEcb) :
    Simulates (reader aes) (Splitter.reader aes) splitter (fun d => ¬d.waitExpired) where
  held _ := rfl
  push _ _ := rfl
  wait d d' _ h := by
    show (splitter d).turn aes = .wait (splitter d')
    unfold Splitter.turn
    obtain ⟨hfront, rfl⟩ | ⟨total, hfront, rfl, -⟩ := pass_done_cases (reader_wait_iff.mp h)
    · rw [show front aes (splitter d').key (splitter d').buf = .short from hfront]
    · rw [show front aes (splitter d).key (splitter d).buf = .cut total from hfront]
      simp [splitter]
  take d d' item hok h := by
    show (splitter d).turn aes = .take (splitter d') item
    unfold Splitter.turn
    obtain ⟨hkey, -, ⟨rfl, hbuf, hdropped, hlt, -, hfront⟩ |
      ⟨total, f, hfront, rfl, hbuf, hdropped⟩⟩ := pass_again_front (reader_take_iff.mp h)
    · have hjunk := hfront.resolve_right hok
      rw [show front aes (splitter d).key (splitter d).buf = .junk from hjunk]
      unfold Splitter.drop
      dsimp only [splitter]
      rw [if_neg (not_lt.mpr hlt), hkey, hbuf, hdropped]
    · rw [show front aes (splitter d).key (splitter d).buf = .frame total f from hfront]
      dsimp only [splitter]
      rw [hkey, hbuf, hdropped]
  fail d d' e hok h := by
    show ∃ s, (splitter d).turn aes = .fail s e
    unfold Splitter.turn
    obtain ⟨-, -, ⟨rfl, hle, hfront⟩ | hfront⟩ := pass_raised_front (reader_fail_iff.mp h)
    · have hjunk := hfront.resolve_right hok
      rw [show front aes (splitter d).key (splitter d).buf = .junk from hjunk]
      unfold Splitter.drop
      dsimp only [splitter]
      rw [if_pos (Nat.lt_succ_of_le hle)]
      exact ⟨_, rfl⟩
    · rw [show front aes (splitter d).key (splitter d).buf = .fatal e from hfront]
      exact ⟨_, rfl⟩

section Run

variable {aes : AesEcb} {key : Option Bytes} {chunks : List Bytes}

/-- A new splitter waits. -/
theorem splitter_fresh_waits (aes : AesEcb) (key : Option Bytes) :
    (Splitter.reader aes).turn (splitter (fresh key)) = .wait (splitter (fresh key)) := by
  show (splitter (fresh key)).turn aes = _
  unfold Splitter.turn front
  rw [if_pos (by simp [splitter])]

/-- A run that returns, as a run of the splitter. -/
theorem splitter_runs (hwait : ¬GivesUpWaiting aes (fresh key) chunks)
    (h : (feedUntil aes (fresh key) chunks).raised = none) :
    ∃ ps, Runs (Splitter.reader aes) (splitter (fresh key)) chunks ps
        (splitter (feedUntil aes (fresh key) chunks).decoder) ∧
      items ps = (feedUntil aes (fresh key) chunks).frames := by
  obtain ⟨ps, hruns, hitems⟩ := feedUntil_none h
  exact ⟨ps, (splitter_simulates aes).runs_of_not_strays hruns (mt strays_iff.mp hwait), hitems⟩

/-- A run that raises, as a failure of the splitter. -/
theorem splitter_fails {e : WireError} (hwait : ¬GivesUpWaiting aes (fresh key) chunks)
    (h : (feedUntil aes (fresh key) chunks).raised = some e) :
    ∃ ps qs, Fails (Splitter.reader aes) (splitter (fresh key)) chunks ps qs e ∧
      items ps = (feedUntil aes (fresh key) chunks).frames := by
  obtain ⟨ps, qs, hfails, hitems⟩ := feedUntil_some h
  exact ⟨ps, qs, (splitter_simulates aes).fails_of_not_strays hfails (mt strays_iff.mp hwait),
    hitems⟩

end Run

end FrameDecoder

end Spcedp.Wire
