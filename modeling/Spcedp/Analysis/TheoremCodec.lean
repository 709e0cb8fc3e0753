import Spcedp.Analysis.Codec

/-!
# The codec theorems

* `encode_spec`: when `encode` raises, and that `decode` reads back what it wrote.
* `reencode_iff_filled`: when a frame that `decode` accepted encodes to the bytes it
  was read from. The length prefix is not covered by the checksum, and `decode` bounds
  the payload length from above only, so the payload may end before the frame does
  (`decode_swallows_poll`).
-/

set_option autoImplicit false

namespace Spcedp.Wire

open Lib.LittleEndian Lib.BlockCipher

/-! ## Encoding, then decoding -/

/-- **Round trip of the codec.** `encode` raises a `ValueError` exactly when the payload
has more than 65514 bytes. Otherwise its length prefix counts the bytes behind it, the
region under encryption is made of whole blocks, and `decode` returns the frame cut to
its field widths, with the checksum that `encode` computed. -/
theorem encode_spec (aes : AesEcb) (f : Frame) (key : Option Bytes)
    (hkey : ∀ k ∈ key, k.length = 16) (hflag : Frame.encryptedBit f.srcFlag = false) :
    (65514 < f.payload.length → ∃ e, f.encode aes key = .error e ∧ e.cls = .valueError) ∧
    (f.payload.length ≤ 65514 → ∃ w f', f.encode aes key = .ok (w, f') ∧
      f' = { f with checksum := f'.checksum } ∧
      2 + ofBytes (w.take 2) = w.length ∧
      (key.isSome → 16 ∣ (w.drop 17).length) ∧
      Frame.decode aes w key = .ok f'.onWire) := by
  constructor
  · exact encode_too_large f aes key hkey
  · intro hlen
    obtain ⟨w, henc, hblocks, hw⟩ := decode_encode aes f key hkey hflag hlen
    exact ⟨w, f.encoded key, henc, rfl, hw.length_prefix, hblocks, hw.decode⟩

/-- A block cipher that maps one block as AES-128 does under the key `pollKey`: the
plaintext tail of `pollFrame` and its ciphertext. -/
def pollAes : AesEcb :=
  ecb fun _ => Equiv.swap
    ⟨[1, 0, 195, 1, 8, 0, 97, 98, 99, 100, 101, 102, 103, 104, 0, 0], rfl⟩
    ⟨[0x28, 0x9b, 0x21, 0x3c, 0xf9, 0xf1, 0xd7, 0x28,
      0x05, 0xd9, 0x09, 0x00, 0xcf, 0x74, 0x40, 0x13], rfl⟩

def pollKey : Bytes :=
  [0x00, 0x11, 0x22, 0x33, 0x44, 0x55, 0x66, 0x77, 0x88, 0x99, 0xAA, 0xBB, 0xCC, 0xDD, 0xEE, 0xFF]

/-- The frame of `tests/test_encryption.py`. -/
def pollFrame : Frame where
  srcId := 1000
  dstId := 1001
  sequence := 0xA1E92AAB
  major := MajorCode.session.value
  minor := MinorCode.poll.value
  payload := [97, 98, 99, 100, 101, 102, 103, 104]

/-- A POLL, encoded under a key and decoded. -/
theorem encode_spec_poll :
    ∃ w f', pollFrame.encode pollAes (some pollKey) = .ok (w, f') ∧
      f' = { pollFrame with checksum := f'.checksum } ∧
      2 + ofBytes (w.take 2) = w.length ∧
      ((some pollKey).isSome → 16 ∣ (w.drop 17).length) ∧
      Frame.decode pollAes w (some pollKey) = .ok f'.onWire :=
  (encode_spec pollAes pollFrame (some pollKey) (by rintro k ⟨⟩; rfl) (by decide)).2 (by decide)

/-! ## Decoding, then encoding -/

/-- The payload length in `buf` fills the frame: in the clear the length prefix counts
the header and the payload, and under encryption only the zero padding to whole blocks
follows the payload. -/
def Filled (aes : AesEcb) (buf : Bytes) (key : Option Bytes) : Prop :=
  if Frame.encryptedBit (buf.getD 4 0) then
    ∀ k ∈ key,
      let plain := aes.decrypt k ((buf.take (2 + ofBytes (buf.take 2))).drop 17)
      let dlen := ofBytes ((plain.drop 4).take 2)
      plain.drop (6 + dlen) = padding dlen
  else ofBytes (buf.take 2) = 21 + ofBytes ((buf.drop 21).take 2)

section Reencode

variable (h : Head) (n : Inner)

/-- The head `encode` writes for a frame that was read from the head `h`. -/
theorem headOf_frameOf (payload : Bytes) (rem : ℕ) (hrem : rem < 256 ^ 2)
    (hproto : h.proto = protocolByte) (hver : h.ver = protocolVersion) :
    (frameOf h n payload).headOf h.flag rem hrem = { h with rem := rem, rem_lt := hrem } := by
  obtain ⟨rem', proto, ver, flag, seq, src, dst, hr, hseq, hsrc, hdst⟩ := h
  subst hproto
  subst hver
  simp only [Frame.headOf, frameOf, mask_natCast 4 _ hseq, mask_natCast 4 _ hsrc,
    mask_natCast 4 _ hdst]

/-- The inner part `encode` writes for a frame that was read from `n` and passed the
checksum. -/
theorem innerOf_frameOf (payload : Bytes) (hlen : payload.length < 256 ^ 2)
    (hdlen : payload.length = n.dlen)
    (hcsum : (frameOf h n payload).computedChecksum h.flag = n.csum) :
    (frameOf h n payload).innerOf h.flag hlen = n := by
  have hbyte (b : UInt8) : UInt8.ofNat (mask 1 (b.toNat : ℤ)) = b := by
    simpa [toBytes] using toBytes_one_toNat b
  obtain ⟨maj, mn, csum, dlen, hc, hd⟩ := n
  unfold Frame.innerOf
  congr 1
  · exact hbyte maj
  · exact hbyte mn

/-- The length prefix of a buffer that starts with a head. -/
theorem rem_of_bytes (x : Bytes) : ofBytes ((h.bytes ++ x).take 2) = h.rem := by
  rw [Head.bytes, List.append_assoc, List.take_left' (length_toBytes 2 h.rem), ofBytes_toBytes,
    Nat.mod_eq_of_lt h.rem_lt]

/-- The payload length of the inner part. -/
theorem dlen_of_bytes (x : Bytes) : ofBytes (((n.bytes ++ x).drop 4).take 2) = n.dlen := by
  have hdrop : (n.bytes ++ x).drop 4 = toBytes 2 n.dlen ++ x := by
    rw [Inner.bytes, List.append_assoc]
    exact List.drop_left' (by simp)
  rw [hdrop, List.take_left' (length_toBytes 2 n.dlen), ofBytes_toBytes, Nat.mod_eq_of_lt n.dlen_lt]

/-- Heads that differ in the length prefix only write different bytes. -/
theorem rem_eq_of_bytes_eq (rem : ℕ) (hrem : rem < 256 ^ 2) (x y : Bytes)
    (heq : ({ h with rem := rem, rem_lt := hrem } : Head).bytes ++ x = h.bytes ++ y) :
    rem = h.rem := by
  rw [← rem_of_bytes h y, ← heq, rem_of_bytes]

end Reencode

section Accepted

variable {aes : AesEcb} {buf : Bytes} {h : Head} {n : Inner} {body : Bytes}

/-- A frame read in the clear encodes to the bytes consumed iff the payload fills it. -/
theorem ClearLayout.reencode_iff (hl : ClearLayout buf h n body) :
    (∃ f', (frameOf h n (body.take n.dlen)).encode aes none = .ok (buf.take (2 + h.rem), f')) ↔
      h.rem = 21 + n.dlen := by
  obtain ⟨rfl, hproto, hver, hflag, hrem, hdlen, hcsum⟩ := hl
  simp only [headerLen] at hrem hdlen
  set payload := body.take n.dlen with hpayload
  have hlen : payload.length = n.dlen := List.length_take_of_le (by omega)
  have hsrc : (frameOf h n payload).srcFlag = h.flag := flag_clear_of_not_encrypted h.flag hflag
  have hle : (frameOf h n payload).payload.length ≤ 65514 := by
    have := h.rem_lt
    simp only [frameOf, hlen]
    omega
  have hinner := innerOf_frameOf h n payload (by have := n.dlen_lt; omega) hlen hcsum
  have henc := encode_clear (frameOf h n payload) aes hle
  simp only [hsrc, headOf_frameOf h n payload _ _ hproto hver] at henc
  have hpay : (frameOf h n payload).payload = payload := rfl
  have htake : (h.bytes ++ (n.bytes ++ body)).take (2 + h.rem) =
      h.bytes ++ (n.bytes ++ body.take (h.rem - 21)) := by
    rw [List.take_append, List.take_append, Head.length_bytes, Inner.length_bytes,
      List.take_of_length_le (by simp; omega), List.take_of_length_le (by simp; omega)]
    congr 3
    omega
  rw [henc, htake]
  simp only [Except.ok.injEq, Prod.mk.injEq, exists_and_left, exists_eq', and_true]
  constructor
  · intro heq
    have := rem_eq_of_bytes_eq h _ _ _ _ heq
    rw [hpay, hlen] at this
    exact this.symm
  · intro heq
    have hhead : ({ h with rem := 21 + n.dlen, rem_lt := heq ▸ h.rem_lt } : Head) = h := by
      simp only [← heq]
    simp only [hpay, hlen, hinner, hhead]
    rw [hpayload, heq, Nat.add_sub_cancel_left]

/-- A frame read under a key encodes to the bytes consumed iff only padding follows the
payload. -/
theorem EncryptedLayout.reencode_iff {k ct more : Bytes}
    (hl : EncryptedLayout aes k buf h ct more n body) :
    (∃ f', (frameOf h n (body.take n.dlen)).encode aes (some k) =
      .ok (buf.take (2 + h.rem), f')) ↔ body.drop n.dlen = padding n.dlen := by
  obtain ⟨rfl, hproto, hver, hflag, hk, hrem, hblocks, hplain, hdlen, hcsum⟩ := hl
  simp only [headerLen] at hdlen
  set payload := body.take n.dlen with hpayload
  have hctlen : ct.length = 6 + body.length := by
    rw [← aes.length_decrypt k ct hk hblocks, hplain, List.length_append, Inner.length_bytes]
  have hlen : payload.length = n.dlen := List.length_take_of_le (by omega)
  have hsrc : (frameOf h n payload).srcFlag ||| flagEncrypted = h.flag :=
    flag_clear_set h.flag hflag
  have hle : (frameOf h n payload).payload.length ≤ 65514 := by
    have := h.rem_lt
    simp only [frameOf, hlen]
    omega
  have hinner := innerOf_frameOf h n payload (by have := n.dlen_lt; omega) hlen hcsum
  have hpay : (frameOf h n payload).payload = payload := rfl
  have henc := encode_encrypted (frameOf h n payload) aes k hk hle
  simp only [hsrc, headOf_frameOf h n payload _ _ hproto hver, hpay, hinner] at henc
  have htake : (h.bytes ++ (ct ++ more)).take (2 + h.rem) = h.bytes ++ ct := by
    rw [← List.append_assoc, List.take_left' (by simp; omega)]
  rw [henc, htake]
  simp only [Except.ok.injEq, Prod.mk.injEq, exists_and_left, exists_eq', and_true]
  constructor
  · intro heq
    have hct := (List.append_inj heq (by simp)).2
    have hpad := dvd_padded payload.length
    have hpt := aes.decrypt_encrypt k (n.bytes ++ (payload ++ padding payload.length)) hk
      (by simpa only [List.length_append, Inner.length_bytes, ← add_assoc] using hpad)
    rw [hct, hplain, List.append_cancel_left_eq, ← List.take_append_drop n.dlen body] at hpt
    have := (List.append_inj_right hpt (by rw [hpayload]))
    rw [this, hlen]
  · intro hdrop
    have hbody : payload ++ padding payload.length = body := by
      rw [hlen, ← hdrop, hpayload, List.take_append_drop]
    have hbodylen : body.length = n.dlen + (padding n.dlen).length := by
      rw [← hbody, List.length_append, hlen]
    have hhead : ∀ hlt, ({ h with
        rem := 21 + payload.length + (padding payload.length).length
        rem_lt := hlt } : Head) = h := by
      intro hlt
      have : 21 + payload.length + (padding payload.length).length = h.rem := by
        rw [hlen]
        omega
      simp only [this]
    rw [hhead, hbody, ← hplain, aes.encrypt_decrypt k ct hk hblocks]

end Accepted

/-- **When decoding loses nothing.** A frame that `decode` accepted encodes to the bytes
that were consumed exactly when its payload length fills the frame. -/
theorem reencode_iff_filled (aes : AesEcb) (buf : Bytes) (key : Option Bytes) (f : Frame)
    (hdec : Frame.decode aes buf key = .ok f) :
    (∃ f', f.encode aes (if Frame.encryptedBit (buf.getD 4 0) then key else none) =
      .ok (buf.take (2 + ofBytes (buf.take 2)), f')) ↔ Filled aes buf key := by
  have hgetD (h : Head) (x : Bytes) : (h.bytes ++ x).getD 4 0 = h.flag := rfl
  obtain ⟨h, n, body, hl, rfl⟩ | ⟨k, h, ct, more, n, body, rfl, hl, rfl⟩ := decode_ok_cases hdec
  · have hiff := @ClearLayout.reencode_iff aes _ _ _ _ hl
    have hflag := hl.flag
    obtain rfl := hl.bytes
    have hdlen : ofBytes (((h.bytes ++ (n.bytes ++ body)).drop 21).take 2) = n.dlen := by
      rw [show (21 : ℕ) = 17 + 4 from rfl, ← List.drop_drop, List.drop_left' h.length_bytes,
        dlen_of_bytes]
    unfold Filled
    rw [hgetD, hflag, if_neg (by simp), if_neg (by simp), rem_of_bytes, hdlen]
    exact hiff
  · have hiff := hl.reencode_iff
    have hflag := hl.flag
    have hrem := hl.rem_eq
    have hplain := hl.plain
    obtain rfl := hl.bytes
    have htail : ((h.bytes ++ (ct ++ more)).take (2 + h.rem)).drop 17 = ct := by
      rw [← List.append_assoc, List.take_left' (by simp; omega), List.drop_left' h.length_bytes]
    have hdrop : (n.bytes ++ body).drop (6 + n.dlen) = body.drop n.dlen := by
      rw [← List.drop_drop, List.drop_left' n.length_bytes]
    unfold Filled
    rw [hgetD, hflag, if_pos rfl, if_pos rfl, rem_of_bytes, htail]
    simp only [Option.mem_some_iff, forall_eq', hplain, dlen_of_bytes, hdrop]
    exact hiff

/-- A captured POLL frame of 31 bytes. -/
def capturedPoll : Bytes :=
  [0x1d, 0x00, 0x45, 0x02, 0x00, 0xab, 0x2a, 0xe9, 0xa1, 0xe8, 0x03, 0x00, 0x00, 0xe9, 0x03, 0x00,
    0x00, 0x01, 0x00, 0x11, 0xca, 0x08, 0x00, 0xc5, 0xb7, 0x92, 0xfc, 0x53, 0x4b, 0x57, 0xa3]

/-- What `decode` reads from `capturedPoll`. -/
def capturedFrame : Frame where
  srcId := 1000
  dstId := 1001
  sequence := 0xA1E92AAB
  major := 1
  minor := 0
  payload := [0xc5, 0xb7, 0x92, 0xfc, 0x53, 0x4b, 0x57, 0xa3]
  checksum := 0xca11

/-- A captured POLL is encoded again to its own bytes. -/
theorem reencode_capturedPoll :
    (∃ f', capturedFrame.encode pollAes
        (if Frame.encryptedBit (capturedPoll.getD 4 0) then none else none) =
      .ok (capturedPoll.take (2 + ofBytes (capturedPoll.take 2)), f')) ↔
      Filled pollAes capturedPoll none :=
  reencode_iff_filled pollAes capturedPoll none capturedFrame (by decide +kernel)

/-- Two captured frames, the length prefix of the first one set to cover both. `decode`
accepts them as one frame, which encodes to the first 31 bytes only. -/
theorem decode_swallows_poll :
    ¬ ∀ (aes : AesEcb) (buf : Bytes) (key : Option Bytes) (f : Frame),
      Frame.decode aes buf key = .ok f →
      ∃ f', f.encode aes (if Frame.encryptedBit (buf.getD 4 0) then key else none) =
        .ok (buf.take (2 + ofBytes (buf.take 2)), f') := by
  intro hall
  have hdec : Frame.decode pollAes (0x3c :: capturedPoll.drop 1 ++ capturedPoll) none =
      .ok capturedFrame := by decide +kernel
  obtain ⟨f', henc⟩ := hall pollAes _ none capturedFrame hdec
  have henc' : capturedFrame.encode pollAes none = .ok (capturedPoll, capturedFrame) := by
    decide +kernel
  have hkey : (if Frame.encryptedBit ((0x3c :: capturedPoll.drop 1 ++ capturedPoll).getD 4 0)
      then (none : Option Bytes) else none) = none := by decide
  rw [hkey, henc'] at henc
  have hbytes := (Prod.mk.inj (Except.ok.inj henc)).1
  exact absurd (congrArg List.length hbytes) (by decide)

end Spcedp.Wire
