import Spcedp.Analysis.TheoremCodec
import Spcedp.Interface.Checksum

/-!
# One corrupted byte

A cleartext frame with one byte changed does not decode. The checksum finds the change where
it covers the byte; the length prefix, the magic and a payload length that has grown fail
checks of their own, and a changed slot no longer fits the rest. A payload length that has
shrunk stops the checksum early, and is left out here.
-/

set_option autoImplicit false

namespace Spcedp.Wire

open Lib.LittleEndian

/-- `w'` is `w` with another byte at `i`. -/
structure DiffersAt (w w' : Bytes) (i : ℕ) : Prop where
  length : w'.length = w.length
  here : w'[i]? ≠ w[i]?
  elsewhere : ∀ j, j ≠ i → w'[j]? = w[j]?

/-- The payload-length field. -/
def dlenField (w : Bytes) : ℕ := ofBytes ((w.drop 21).take 2)

section

variable {w w' : Bytes} {i : ℕ}

/-- A byte that differs is one of the buffer. -/
theorem DiffersAt.lt (h : DiffersAt w w' i) : i < w.length := by
  by_contra hge
  have hlen := h.length
  apply h.here
  rw [List.getElem?_eq_none (by omega), List.getElem?_eq_none (by omega)]

/-- Fields without the changed byte are the same. -/
theorem DiffersAt.field (h : DiffersAt w w' i) (off width : ℕ)
    (hi : i < off ∨ off + width ≤ i) : (w'.drop off).take width = (w.drop off).take width := by
  apply List.ext_getElem?
  intro j
  rw [List.getElem?_take, List.getElem?_take]
  split
  · rw [List.getElem?_drop, List.getElem?_drop]
    exact h.elsewhere (off + j) (by omega)
  · rfl

/-- The field with the changed byte has changed. -/
theorem DiffersAt.field_ne (h : DiffersAt w w' i) (off width : ℕ) (hoff : off ≤ i)
    (hi : i < off + width) : (w'.drop off).take width ≠ (w.drop off).take width := by
  intro heq
  apply h.here
  have hget (v : Bytes) : ((v.drop off).take width)[i - off]? = v[i]? := by
    rw [List.getElem?_take, if_pos (by omega), List.getElem?_drop, Nat.add_sub_cancel' hoff]
  rw [← hget w', ← hget w, heq]

/-- Behind the length prefix the offsets are two less. -/
theorem getD_drop_two (v : Bytes) (j : ℕ) : (v.drop 2).getD j 0 = (v[2 + j]?).getD 0 := by
  rw [List.getD_eq_getElem?_getD, List.getElem?_drop]

/-- Without its slot, the checksum does not see the change. -/
theorem DiffersAt.checksumLoop_eq (h : DiffersAt w w' i) (stop : ℕ) (hslot : i = 19 ∨ i = 20) :
    checksumLoop (w'.drop 2) stop = checksumLoop (w.drop 2) stop := by
  apply checksumLoop_congr
  intro j hj hlow hhigh
  rw [getD_drop_two, getD_drop_two, h.elsewhere (2 + j) (by omega)]

/-- A changed byte that the checksum covers changes the state of its loop. -/
theorem DiffersAt.checksumLoop_ne (h : DiffersAt w w' i) (stop : ℕ) (hi : 2 ≤ i)
    (hstop : i < stop + 2) (hslot : i ≠ 19 ∧ i ≠ 20) :
    checksumLoop (w'.drop 2) stop ≠ checksumLoop (w.drop 2) stop := by
  have hbyte (v : Bytes) (hv : i < v.length) : v[i]? = some ((v[i]?).getD 0) := by
    rw [List.getElem?_eq_getElem hv]
    rfl
  refine Wire.checksumLoop_ne (i := i - 2) (by omega) (by simp only [csumOffsetLow]; omega)
    (by simp only [csumOffsetHigh]; omega) (fun j hj => ?_) ?_
  · rw [getD_drop_two, getD_drop_two, h.elsewhere (2 + j) (by omega)]
  · rw [getD_drop_two, getD_drop_two, Nat.add_sub_cancel' hi]
    intro heq
    apply h.here
    rw [hbyte w' (h.length ▸ h.lt), hbyte w h.lt, heq]

end

/-! ## What the fields of a frame say -/

namespace ClearLayout

variable {buf : Bytes} {h : Head} {n : Inner} {body : Bytes}

/-- The length of a clear layout. -/
theorem length_eq (hl : ClearLayout buf h n body) : buf.length = 23 + body.length := by
  rw [hl.bytes, List.length_append, List.length_append, Head.length_bytes, Inner.length_bytes]
  omega

/-- The bytes of the length prefix. -/
theorem rem_field (hl : ClearLayout buf h n body) : (buf.drop 0).take 2 = toBytes 2 h.rem := by
  rw [hl.bytes, List.drop_zero, Head.bytes, List.append_assoc,
    List.take_left' (length_toBytes 2 h.rem)]

/-- The bytes of the checksum. -/
theorem csum_field (hl : ClearLayout buf h n body) : (buf.drop 19).take 2 = toBytes 2 n.csum := by
  have hdrop : buf.drop 19 = toBytes 2 n.csum ++ (toBytes 2 n.dlen ++ body) := by
    rw [hl.bytes, Inner.bytes, List.append_assoc, List.append_assoc, ← List.append_assoc h.bytes]
    exact List.drop_left' (by simp)
  rw [hdrop, List.take_left' (length_toBytes 2 n.csum)]

/-- The number in the field of the payload length. -/
theorem dlen_field (hl : ClearLayout buf h n body) : dlenField buf = n.dlen := by
  unfold dlenField
  rw [hl.bytes, show (21 : ℕ) = 17 + 4 from rfl, ← List.drop_drop, List.drop_left' h.length_bytes,
    dlen_of_bytes]

/-- Two frames with the same bytes in the slot have the same checksum. -/
theorem csum_eq {buf' : Bytes} {h' : Head} {n' : Inner} {body' : Bytes}
    (hl : ClearLayout buf h n body) (hl' : ClearLayout buf' h' n' body')
    (hfield : (buf'.drop 19).take 2 = (buf.drop 19).take 2) : n'.csum = n.csum := by
  rw [hl.csum_field, hl'.csum_field] at hfield
  have hvalue := congrArg ofBytes hfield
  rwa [ofBytes_toBytes, ofBytes_toBytes, Nat.mod_eq_of_lt n.csum_lt,
    Nat.mod_eq_of_lt n'.csum_lt] at hvalue

/-- A frame as long as one that fills its bytes, with no smaller payload length, fills them as
well. -/
theorem lengths_eq {buf' : Bytes} {h' : Head} {n' : Inner} {body' : Bytes}
    (hl : ClearLayout buf h n body) (hl' : ClearLayout buf' h' n' body')
    (hbody : body.length = n.dlen) (hrem : h.rem + 2 = buf.length)
    (hlen : buf'.length = buf.length) (hdlen : dlenField buf ≤ dlenField buf') :
    h'.rem = h.rem ∧ n'.dlen = n.dlen := by
  have hle := hl'.rem_le
  have hge := hl'.dlen_le
  have hlength := hl.length_eq
  have hlength' := hl'.length_eq
  rw [hl.dlen_field, hl'.dlen_field] at hdlen
  simp only [headerLen] at hle hge
  omega

/-- The checksum in the slot is that of the struct bytes. -/
theorem checksum_eq (hl : ClearLayout buf h n body) :
    checksumValue (checksumLoop (buf.drop 2) (n.dlen + 0x15)) = n.csum := by
  have hrem := hl.rem_le
  have hdlen := hl.dlen_le
  simp only [headerLen] at hrem hdlen
  have hlen : (body.take n.dlen).length = n.dlen := List.length_take_of_le (by omega)
  have hcsum := checksum_struct_eq h n (body.take n.dlen) (body.drop n.dlen) h.flag hl.proto hl.ver
    hlen
  rw [List.take_append_drop, List.append_assoc, hl.csum,
    edpChecksum_eq _ _ (by simp; omega)] at hcsum
  rw [hl.bytes, drop_two_bytes]
  exact Except.ok.inj hcsum

end ClearLayout

/-- What `encode` writes without a key is a frame that fills its bytes. -/
theorem encode_clearLayout {aes : AesEcb} {f f' : Frame} {w : Bytes}
    (hflag : Frame.encryptedBit f.srcFlag = false) (henc : f.encode aes none = .ok (w, f')) :
    ∃ h n body, ClearLayout w h n body ∧ body.length = n.dlen ∧ h.rem + 2 = w.length := by
  have hlen : f.payload.length ≤ 65514 := by
    by_contra hlong
    obtain ⟨e, he, -⟩ := encode_too_large f aes none (by simp) (by omega)
    rw [he] at henc
    cases henc
  rw [encode_clear f aes hlen, Except.ok.injEq, Prod.mk.injEq] at henc
  obtain ⟨rfl, -⟩ := henc
  have hcsum := computedChecksum_frameOf f f.srcFlag (21 + f.payload.length) (by omega)
    (show f.payload.length < 256 ^ 2 by omega)
  refine ⟨_, _, _, ⟨rfl, rfl, rfl, hflag, ?_, ?_, ?_⟩, rfl, ?_⟩
  · simp only [Frame.headOf, headerLen]
    omega
  · simp only [Frame.headOf, Frame.innerOf, headerLen]
    omega
  · rw [show (f.innerOf f.srcFlag _).dlen = f.payload.length from rfl, List.take_length]
    exact hcsum
  · simp only [List.length_append, Head.length_bytes, Inner.length_bytes, Frame.headOf]
    omega

/-- **One corrupted byte is found.** A cleartext frame with any one byte changed, unless the
change makes its payload length smaller, is refused by `decode` with a `FrameDecodeError`, of
which `EncryptionRequired` is one. -/
theorem corruption_detected (aes : AesEcb) (f f' : Frame) (w w' : Bytes) (i : ℕ)
    (hflag : Frame.encryptedBit f.srcFlag = false) (henc : f.encode aes none = .ok (w, f'))
    (hdiff : DiffersAt w w' i) (hdlen : dlenField w ≤ dlenField w') :
    ∃ e, Frame.decode aes w' none = .error e ∧
      (e.cls = .frameDecodeError ∨ e.cls = .encryptionRequired) := by
  cases hdec : Frame.decode aes w' none with
  | error e => exact ⟨e, rfl, decode_none_error_cls hdec⟩
  | ok g =>
      exfalso
      obtain ⟨h, n, body, hl, hbody, hrem⟩ := encode_clearLayout hflag henc
      obtain ⟨h', n', body', hl', -⟩ | ⟨k, -, -, -, -, -, hk, -⟩ := decode_ok_cases hdec
      · -- The payload is as long as before, and fills the frame as before.
        obtain ⟨hsameRem, hsameDlen⟩ := hl.lengths_eq hl' hbody hrem hdiff.length hdlen
        have hchecksum := hl.checksum_eq
        have hchecksum' := hl'.checksum_eq
        rw [hsameDlen] at hchecksum'
        by_cases hprefix : i < 2
        · apply hdiff.field_ne 0 2 (by omega) (by omega)
          rw [hl.rem_field, hl'.rem_field, hsameRem]
        by_cases hslot : i = 19 ∨ i = 20
        · apply hdiff.field_ne 19 2 (by omega) (by omega)
          rw [hl.csum_field, hl'.csum_field, ← hchecksum, ← hchecksum',
            hdiff.checksumLoop_eq (n.dlen + 0x15) hslot]
        · have hlt := hdiff.lt
          rw [hl.length_eq, hbody] at hlt
          have hsame := hl.csum_eq hl' (hdiff.field 19 2 (by omega))
          apply hdiff.checksumLoop_ne (n.dlen + 0x15) (by omega) (by omega) (by omega)
          apply checksumValue_injOn (checksumLoop_lt _ _) (checksumLoop_lt _ _)
          rw [hchecksum, hchecksum', hsame]
      · cases hk

/-- The captured frame with one bit of its payload flipped. -/
theorem corruption_detected_payload :
    ∃ e, Frame.decode pollAes (capturedPoll.set 30 0xa2) none = .error e ∧
      (e.cls = .frameDecodeError ∨ e.cls = .encryptionRequired) := by
  refine corruption_detected pollAes capturedFrame capturedFrame capturedPoll
    (capturedPoll.set 30 0xa2) 30 (by decide) (by decide +kernel) ⟨rfl, by decide, ?_⟩ (by decide)
  intro j hj
  rw [List.getElem?_set_ne (Ne.symm hj)]

end Spcedp.Wire
