import Spcedp.Analysis.TheoremSegmentation

/-!
# A decoder that keeps up with its sender

The frames that a sender has written so far, the bytes that have come through, the decoder they
were fed to, and the frames that it has returned: `Tracks` ties them together while all four
grow. The sender may write another frame (`Tracks.send`) and any part of the bytes on their
way may come through (`Tracks.feed`), in any order, as long as the frames are short enough not to
be given up on.
-/

set_option autoImplicit false

namespace Spcedp.Wire

open Lib.LittleEndian

/-- The longest frame that may be cut anywhere. -/
@[simp] abbrev maxCutFrame : ℕ := headerLen + resyncLimit + 1

/-- The wire bytes of a frame with `n` bytes of payload. -/
def wireLength (key : Option Bytes) (n : ℕ) : ℕ :=
  23 + n + if key.isSome then (padding n).length else 0

/-- **What is encoded is one whole frame**, whose length depends on the payload alone. -/
theorem encode_whole {aes : AesEcb} {f g : Frame} {key : Option Bytes} {w : Bytes}
    (hkey : ∀ k ∈ key, k.length = 16) (hflag : Frame.encryptedBit f.srcFlag = false)
    (henc : f.encode aes key = .ok (w, g)) :
    WholeFrame aes key w g.onWire ∧ w.length = wireLength key f.payload.length ∧
      f.payload.length ≤ 65514 := by
  have hlen : f.payload.length ≤ 65514 := by
    by_contra hlt
    obtain ⟨e, he, -⟩ := encode_too_large f aes key hkey (by omega)
    rw [he] at henc
    cases henc
  cases key with
  | none =>
      obtain ⟨w', henc', hw, hwhole⟩ := decode_encode_clear aes f hflag hlen
      rw [henc, Except.ok.injEq, Prod.mk.injEq] at henc'
      obtain ⟨rfl, rfl⟩ := henc'
      exact ⟨hwhole, hw, hlen⟩
  | some k =>
      obtain ⟨w', henc', hw, hwhole⟩ := decode_encode_encrypted aes f k (hkey k rfl) hflag hlen
      rw [henc, Except.ok.injEq, Prod.mk.injEq] at henc'
      obtain ⟨rfl, rfl⟩ := henc'
      exact ⟨hwhole, hw, hlen⟩

/-- Under a key nothing is written that reads without it. -/
theorem encode_hidden {aes : AesEcb} {f g : Frame} {k w : Bytes} (hk : k.length = 16)
    (hlen : f.payload.length ≤ 65514) (henc : f.encode aes (some k) = .ok (w, g)) :
    Frame.decode aes w none = .error .encryptionRequired := by
  have hct := length_encrypt_padded aes (f.innerOf (f.srcFlag ||| flagEncrypted) (by omega))
    f.payload k hk
  have hflag (rem : ℕ) (hrem : rem < 256 ^ 2) :
      Frame.encryptedBit (f.headOf (f.srcFlag ||| flagEncrypted) rem hrem).flag = true :=
    encryptedBit_set f.srcFlag
  rw [encode_encrypted f aes k hk hlen, Except.ok.injEq, Prod.mk.injEq] at henc
  obtain ⟨rfl, -⟩ := henc
  rw [decode_head aes _ none (by rw [hct]; omega), if_neg, if_neg (by simp [Frame.headOf]),
    if_pos (hflag _ _)]
  · rfl
  · rw [hct]
    simp only [Frame.headOf]
    omega

namespace FrameDecoder

section

variable {aes : AesEcb} {key : Option Bytes} {sent : List (Sent aes key)} {seen c : Bytes}
  {d : FrameDecoder} {out : List Frame}

/-- The decoder has been fed the bytes `seen` of the stream of `sent`, in some chunks, and has
returned the frames `out`. -/
def Tracks (sent : List (Sent aes key)) (seen : Bytes) (d : FrameDecoder) (out : List Frame) :
    Prop :=
  ∃ chunks past rest, sent = past ++ rest ∧ out = past.map Sent.frame ∧ chunks.flatten = seen ∧
    InStep chunks seen d past rest

/-- A new decoder. -/
theorem tracks_new : Tracks ([] : List (Sent aes key)) [] { key := key } [] := by
  refine ⟨[], [], [], rfl, rfl, rfl, rfl, by simp, ?_, ?_⟩
  · intro s more hrest
    cases hrest
  · intro total htotal
    cases htotal

/-- What has been returned was sent, in this order. -/
theorem Tracks.out_prefix (h : Tracks sent seen d out) : out <+: sent.map Sent.frame := by
  obtain ⟨chunks, past, rest, rfl, rfl, -, -⟩ := h
  rw [List.map_append]
  exact List.prefix_append _ _

/-- **Another frame is sent.** -/
theorem Tracks.send (h : Tracks sent seen d out) (hseen : seen <+: stream sent)
    (s : Sent aes key) : Tracks (sent ++ [s]) seen d out := by
  obtain ⟨chunks, past, rest, rfl, hout, hchunks, hstep⟩ := h
  refine ⟨chunks, past, rest ++ [s], List.append_assoc _ _ _, hout, hchunks, hstep.key, hstep.seen,
    ?_, ?_⟩
  · cases rest with
    | nil =>
        rintro s' more ⟨⟩
        -- nothing is left over where the next frame was not there yet
        rw [hstep.seen, List.append_nil] at hseen
        have hle := hseen.length_le
        rw [List.length_append] at hle
        have hlen := s.whole.header_le
        simp only [headerLen] at hlen
        omega
    | cons s' rest =>
        rintro s'' more heq
        rw [List.cons_append, List.cons.injEq] at heq
        exact heq.1 ▸ hstep.partly s' rest rfl
  · intro total htotal
    obtain ⟨s', more, rfl, htotal', hle, hbound⟩ := hstep.anchored total htotal
    exact ⟨s', more ++ [s], rfl, htotal', hle, hbound⟩

/-- A boundary of the chunks is one when another chunk comes. -/
theorem Boundary.append {chunks : List Bytes} {p : ℕ} (h : Boundary chunks p) (c : Bytes) :
    Boundary (chunks ++ [c]) p := by
  obtain ⟨pre, hpre, hlen⟩ := h
  exact ⟨pre, hpre.trans (List.prefix_append _ _), hlen⟩

/-- **More bytes come through**: the decoder returns the frames that they complete. -/
theorem Tracks.feed (h : Tracks sent seen d out)
    (hshort : ∀ s ∈ sent, s.wire.length ≤ maxCutFrame) (hseen : seen ++ c <+: stream sent) :
    ∃ d' now, d.feed aes c = (d', .ok now) ∧ Tracks sent (seen ++ c) d' (out ++ now) := by
  obtain ⟨chunks, past, rest, rfl, rfl, rfl, hstep⟩ := h
  have hflat : (chunks ++ [c]).flatten = stream past ++ (d.buf ++ c) := by
    rw [List.flatten_concat, hstep.seen, List.append_assoc]
  have hpre : d.buf ++ c <+: stream rest := by
    rw [hstep.seen, stream_append, List.append_assoc, List.prefix_append_right_inj] at hseen
    exact hseen
  have hwait : WaitsBounded ((past ++ rest).map Sent.wire) (chunks ++ [c]) := by
    apply waitsBounded_of_short
    intro w hw
    obtain ⟨s, hs, rfl⟩ := List.mem_map.mp hw
    exact hshort s hs
  have hanch : Anchored (chunks ++ [c]) d (stream past).length rest := by
    intro total htotal
    obtain ⟨s, more, hrest, htotal', hle, hbound⟩ := hstep.anchored total htotal
    exact ⟨s, more, hrest, htotal', hle, hbound.append c⟩
  obtain ⟨d', now, rest', rfl, hloop, hstep'⟩ := loop_inStep (chunks ++ [c]) rest past
    (chunks ++ [c]).flatten { d with buf := d.buf ++ c } [] hwait
    ⟨chunks ++ [c], List.prefix_rfl, rfl⟩ hstep.key hflat hpre hanch
  refine ⟨d', now.map Sent.frame, ?_, chunks ++ [c], past ++ now, rest', ?_, ?_, ?_, ?_⟩
  · simpa [FrameDecoder.feed] using hloop
  · rw [List.append_assoc]
  · rw [List.map_append]
  · rw [List.flatten_concat]
  · rwa [List.flatten_concat] at hstep'

/-- When all bytes have come through, so have all frames. -/
theorem Tracks.finished (h : Tracks sent (stream sent) d out) : out = sent.map Sent.frame := by
  obtain ⟨chunks, past, rest, rfl, rfl, -, hstep⟩ := h
  obtain ⟨rfl, -⟩ := hstep.finished
  rw [List.append_nil]

end

end FrameDecoder

end Spcedp.Wire
