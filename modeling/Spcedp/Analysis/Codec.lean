import Spcedp.Interface.Layout

/-!
# The codec: what `encode` writes, `decode` reads back

`decode_encode` is the round trip for cleartext and encrypted frames alike.
`decode_ok_cases` goes the other way: a buffer on which `decode` succeeds is a
cleartext or an encrypted layout whose checks hold. From it follows when the bytes
that `decode` consumed are the ones `encode` would have written (`Filled`): the
length prefix is not covered by the checksum, and `decode` bounds the payload length
from above only.
-/

set_option autoImplicit false

namespace Spcedp.Wire

open Lib.LittleEndian Lib.BlockCipher

/-! ## The flags byte -/

/-- Clearing the encrypted bit changes nothing where it is clear. -/
theorem flag_clear_of_not_encrypted (flag : UInt8) (h : Frame.encryptedBit flag = false) :
    flag &&& ~~~flagEncrypted = flag := by
  revert flag
  decide +kernel

/-- Setting the encrypted bit and clearing it again changes nothing where it was clear. -/
theorem flag_clear_of_set (flag : UInt8) (h : Frame.encryptedBit flag = false) :
    (flag ||| flagEncrypted) &&& ~~~flagEncrypted = flag := by
  revert flag
  decide +kernel

/-- The encrypted bit is set once it was set. -/
theorem encryptedBit_set (flag : UInt8) : Frame.encryptedBit (flag ||| flagEncrypted) = true := by
  revert flag
  decide +kernel

/-! ## The round trip -/

/-- The frame as its receiver sees it: the integer fields cut to their widths. -/
def Frame.onWire (f : Frame) : Frame :=
  { f with
    srcId := f.srcId % 2 ^ 32
    dstId := f.dstId % 2 ^ 32
    sequence := f.sequence % 2 ^ 32
    major := f.major % 2 ^ 8
    minor := f.minor % 2 ^ 8 }

/-- The flags byte that `encode` writes. -/
def Frame.wireFlag (f : Frame) (key : Option Bytes) : UInt8 :=
  if key.isSome then f.srcFlag ||| flagEncrypted else f.srcFlag

/-- The frame object after `encode`, which stores the checksum in it. -/
def Frame.encoded (f : Frame) (key : Option Bytes) : Frame :=
  { f with checksum := f.computedChecksum (f.wireFlag key) }

/-- Four bytes carry a number modulo `2 ^ 32`. -/
theorem mask_four_cast (n : ℤ) : ((mask 4 n : ℕ) : ℤ) = n % 2 ^ 32 := by
  rw [mask_cast]
  norm_num

/-- One byte carries a number modulo `2 ^ 8`. -/
theorem ofNat_mask_one_cast (n : ℤ) : (((UInt8.ofNat (mask 1 n)).toNat : ℕ) : ℤ) = n % 2 ^ 8 := by
  rw [UInt8.toNat_ofNat', Nat.mod_eq_of_lt (by simpa using mask_lt 1 n), mask_cast]
  norm_num

section RoundTrip

variable (aes : AesEcb) (f : Frame)

/-- Reading back the layout of `f` gives `f` with its fields cut to their widths. -/
theorem frameOf_headOf (flag : UInt8) (rem : ℕ) (hrem : rem < 256 ^ 2)
    (hlen : f.payload.length < 256 ^ 2) (hflag : flag &&& ~~~flagEncrypted = f.srcFlag) :
    frameOf (f.headOf flag rem hrem) (f.innerOf flag hlen) f.payload =
      Frame.onWire { f with checksum := f.computedChecksum flag } := by
  unfold frameOf Frame.headOf Frame.innerOf Frame.onWire
  simp only [mask_four_cast, ofNat_mask_one_cast, hflag]

/-- The checksum does not see the difference between `f` and what its receiver reads. -/
theorem computedChecksum_frameOf (flag : UInt8) (rem : ℕ) (hrem : rem < 256 ^ 2)
    (hlen : f.payload.length < 256 ^ 2) :
    (frameOf (f.headOf flag rem hrem) (f.innerOf flag hlen) f.payload).computedChecksum flag =
      f.computedChecksum flag := by
  have hpack := packHeader_frameOf (f.headOf flag rem hrem) (f.innerOf flag hlen) f.payload flag
    rfl rfl rfl
  unfold Frame.computedChecksum
  rw [hpack, packHeader_eq f flag rem hrem]
  simp only [Frame.innerOf, frameOf, List.append_assoc]

/-- The verdict on the layout of `f` itself is `f`, cut to its field widths. -/
theorem verdict_headOf (flag : UInt8) (rem : ℕ) (hrem : rem < 256 ^ 2)
    (hlen : f.payload.length < 256 ^ 2) (hfit : 21 + f.payload.length ≤ rem) (extra : Bytes)
    (mismatch : WireError) (hflag : flag &&& ~~~flagEncrypted = f.srcFlag) :
    verdict (f.headOf flag rem hrem) (f.innerOf flag hlen) (f.payload ++ extra) mismatch =
      .ok (Frame.onWire { f with checksum := f.computedChecksum flag }) := by
  have htake : (f.payload ++ extra).take (f.innerOf flag hlen).dlen = f.payload :=
    List.take_left' rfl
  have hcsum := computedChecksum_frameOf f flag rem hrem hlen
  unfold verdict
  rw [htake, frameOf_headOf f flag rem hrem hlen hflag] at *
  rw [if_neg (by simp only [Frame.headOf, Frame.innerOf, headerLen]; omega)]
  rw [if_neg]
  rw [not_not]
  exact hcsum

/-- `w` is one whole frame on the wire: a head whose length prefix counts exactly the
bytes that follow it, with the EDP magic, that `decode` reads as `f`. -/
structure WholeFrame (key : Option Bytes) (w : Bytes) (f : Frame) : Prop where
  layout : ∃ (h : Head) (tail : Bytes), w = h.bytes ++ tail ∧ h.rem + 2 = w.length ∧
    h.proto = protocolByte ∧ h.ver = protocolVersion
  header_le : headerLen ≤ w.length
  decode : Frame.decode aes w key = .ok f

/-- **The round trip, in the clear.** -/
theorem decode_encode_clear (hflag : Frame.encryptedBit f.srcFlag = false)
    (hlen : f.payload.length ≤ 65514) :
    ∃ w, f.encode aes none = .ok (w, f.encoded none) ∧
      w.length = 23 + f.payload.length ∧
      WholeFrame aes none w (f.encoded none).onWire := by
  have hrem : 21 + f.payload.length < 256 ^ 2 := by omega
  have hverdict := verdict_headOf f f.srcFlag _ hrem (by omega) le_rfl [] .checksumMismatch
    (flag_clear_of_not_encrypted f.srcFlag hflag)
  rw [List.append_nil] at hverdict
  have hdecode := decode_clear aes (f.headOf f.srcFlag _ hrem) (f.innerOf f.srcFlag (by omega))
    f.payload none rfl rfl hflag (by simp only [Frame.headOf, headerLen]; omega)
  refine ⟨_, encode_clear f aes hlen, ?_, ⟨_, _, rfl, ?_, rfl, rfl⟩, ?_, hdecode.trans hverdict⟩
  · simp only [List.length_append, Head.length_bytes, Inner.length_bytes]
    omega
  · simp only [List.length_append, Head.length_bytes, Inner.length_bytes, Frame.headOf]
    omega
  · simp only [List.length_append, Head.length_bytes, Inner.length_bytes, headerLen]
    omega

/-- **The round trip, under a key.** -/
theorem decode_encode_encrypted (k : Bytes) (hk : k.length = 16)
    (hflag : Frame.encryptedBit f.srcFlag = false) (hlen : f.payload.length ≤ 65514) :
    ∃ w, f.encode aes (some k) = .ok (w, f.encoded (some k)) ∧
      w.length = 23 + f.payload.length + (padding f.payload.length).length ∧
      WholeFrame aes (some k) w (f.encoded (some k)).onWire := by
  have hpad : (padding f.payload.length).length = (16 - (6 + f.payload.length) % 16) % 16 :=
    List.length_replicate
  have hrem : 21 + f.payload.length + (padding f.payload.length).length < 256 ^ 2 := by omega
  set flag := f.srcFlag ||| flagEncrypted with hflag'
  set n := f.innerOf flag (by omega) with hn
  have hct := length_encrypt_padded aes n f.payload k hk
  have hdvd := dvd_padded f.payload.length
  have hpt : aes.decrypt k (aes.encrypt k (n.bytes ++ (f.payload ++ padding f.payload.length))) =
      n.bytes ++ (f.payload ++ padding f.payload.length) := by
    apply aes.decrypt_encrypt k _ hk
    simpa only [List.length_append, Inner.length_bytes, ← add_assoc] using hdvd
  have hverdict := verdict_headOf f flag _ hrem (by omega) (by omega) (padding f.payload.length)
    .checksumMismatchAfterDecrypt (flag_clear_of_set f.srcFlag hflag)
  have hdecode := decode_encrypted aes (f.headOf flag _ hrem) _ [] n _ k rfl rfl
    (encryptedBit_set f.srcFlag) hk (by simp only [Frame.headOf]; omega) (by rwa [hct]) hpt
  rw [List.append_nil] at hdecode
  refine ⟨_, encode_encrypted f aes k hk hlen, ?_, ⟨_, _, rfl, ?_, rfl, rfl⟩, ?_,
    hdecode.trans hverdict⟩
  · rw [List.length_append, Head.length_bytes, hct]
    omega
  · rw [List.length_append, Head.length_bytes, hct]
    simp only [Frame.headOf]
    omega
  · rw [List.length_append, Head.length_bytes, hct, headerLen]
    omega

/-- **The round trip.** `encode` of a payload of at most 65514 bytes gives one whole
frame, which `decode` reads back. -/
theorem decode_encode (key : Option Bytes) (hkey : ∀ k ∈ key, k.length = 16)
    (hflag : Frame.encryptedBit f.srcFlag = false) (hlen : f.payload.length ≤ 65514) :
    ∃ w, f.encode aes key = .ok (w, f.encoded key) ∧
      (key.isSome → 16 ∣ (w.drop 17).length) ∧
      WholeFrame aes key w (f.encoded key).onWire := by
  cases key with
  | none =>
      obtain ⟨w, henc, -, hw⟩ := decode_encode_clear aes f hflag hlen
      exact ⟨w, henc, by simp, hw⟩
  | some k =>
      obtain ⟨w, henc, hwlen, hw⟩ := decode_encode_encrypted aes f k (hkey k rfl) hflag hlen
      refine ⟨w, henc, fun _ => ?_, hw⟩
      have hdvd := dvd_padded f.payload.length
      rw [List.length_drop, hwlen]
      omega

end RoundTrip

/-- The length prefix of a whole frame. -/
theorem WholeFrame.length_prefix {aes : AesEcb} {key : Option Bytes} {w : Bytes} {f : Frame}
    (hw : WholeFrame aes key w f) : 2 + ofBytes (w.take 2) = w.length := by
  obtain ⟨h, tail, hlay, hrem, -, -⟩ := hw.layout
  have htake : w.take 2 = toBytes 2 h.rem := by
    rw [hlay, Head.bytes, List.append_assoc, List.take_left' (length_toBytes 2 h.rem)]
  rw [htake, ofBytes_toBytes, Nat.mod_eq_of_lt h.rem_lt]
  omega

/-! ## What `decode` raises -/

/-- The checks on the fields raise `FrameDecodeError`s. -/
theorem verdict_error_cls {h : Head} {n : Inner} {body : Bytes} {mismatch e : WireError}
    (hcls : mismatch.cls = .frameDecodeError) (herr : verdict h n body mismatch = .error e) :
    e.cls = .frameDecodeError := by
  unfold verdict at herr
  split at herr
  · cases herr
    rfl
  split at herr
  · cases herr
    exact hcls
  · cases herr

/-- **Decoding without a key** raises nothing but `FrameDecodeError`, or `EncryptionRequired`,
whatever the bytes. -/
theorem decode_none_error_cls {aes : AesEcb} {buf : Bytes} {e : WireError}
    (herr : Frame.decode aes buf none = .error e) :
    e.cls = .frameDecodeError ∨ e.cls = .encryptionRequired := by
  by_cases hlen : buf.length < headerLen
  · left
    rw [decode_short aes none hlen] at herr
    cases herr
    rfl
  simp only [headerLen] at hlen
  obtain ⟨h, tail, rfl⟩ := exists_head buf (by omega)
  rw [List.length_append, Head.length_bytes] at hlen
  have hhead := @decode_head aes h tail none (by omega)
  by_cases hrem : 17 + tail.length < h.rem + 2
  · left
    rw [hhead, if_pos hrem] at herr
    cases herr
    rfl
  rw [if_neg hrem] at hhead
  by_cases hmagic : h.proto ≠ protocolByte ∨ h.ver ≠ protocolVersion
  · left
    rw [hhead, if_pos hmagic] at herr
    cases herr
    rfl
  rw [if_neg hmagic] at hhead
  rw [not_or, not_not, not_not] at hmagic
  cases hflag : Frame.encryptedBit h.flag with
  | false =>
      left
      obtain ⟨n, body, rfl⟩ := exists_inner tail (by omega)
      rw [List.length_append, Inner.length_bytes] at hrem
      rw [decode_clear aes h n body none hmagic.1 hmagic.2 hflag
        (by simp only [headerLen]; omega)] at herr
      exact verdict_error_cls rfl herr
  | true =>
      right
      rw [hhead, if_pos hflag] at herr
      cases herr
      rfl

/-! ## What `decode` accepts -/

/-- `buf` starts with a cleartext frame that passes every check of `decode`. -/
structure ClearLayout (buf : Bytes) (h : Head) (n : Inner) (body : Bytes) : Prop where
  bytes : buf = h.bytes ++ (n.bytes ++ body)
  proto : h.proto = protocolByte
  ver : h.ver = protocolVersion
  flag : Frame.encryptedBit h.flag = false
  rem_le : h.rem + 2 ≤ headerLen + body.length
  dlen_le : headerLen + n.dlen ≤ h.rem + 2
  csum : (frameOf h n (body.take n.dlen)).computedChecksum h.flag = n.csum

/-- `buf` starts with an encrypted frame whose tail `ct` decrypts under `k` to
`n.bytes ++ body` and that passes every check of `decode`. -/
structure EncryptedLayout (aes : AesEcb) (k buf : Bytes) (h : Head) (ct more : Bytes) (n : Inner)
    (body : Bytes) : Prop where
  bytes : buf = h.bytes ++ (ct ++ more)
  proto : h.proto = protocolByte
  ver : h.ver = protocolVersion
  flag : Frame.encryptedBit h.flag = true
  key : k.length = 16
  rem_eq : h.rem + 2 = 17 + ct.length
  blocks : 16 ∣ ct.length
  plain : aes.decrypt k ct = n.bytes ++ body
  dlen_le : headerLen + n.dlen ≤ h.rem + 2
  csum : (frameOf h n (body.take n.dlen)).computedChecksum h.flag = n.csum

/-- The verdict is positive exactly when both of its checks hold. -/
theorem verdict_eq_ok_iff (h : Head) (n : Inner) (body : Bytes) (mismatch : WireError) (f : Frame) :
    verdict h n body mismatch = .ok f ↔
      headerLen + n.dlen ≤ h.rem + 2 ∧
      (frameOf h n (body.take n.dlen)).computedChecksum h.flag = n.csum ∧
      f = frameOf h n (body.take n.dlen) := by
  unfold verdict
  split
  · rename_i hover
    simp only [reduceCtorEq, false_iff]
    omega
  · rename_i hover
    split
    · rename_i hcsum
      simp [hcsum]
    · rename_i hcsum
      rw [not_not] at hcsum
      simp only [Except.ok.injEq, hcsum, true_and]
      constructor
      · rintro rfl
        exact ⟨by omega, rfl⟩
      · rintro ⟨-, rfl⟩
        rfl

/-- Two steps succeed when both do. -/
theorem bind_ok_iff {ε α β : Type} (x : Except ε α) (g : α → Except ε β) (b : β) :
    (x >>= g) = .ok b ↔ ∃ a, x = .ok a ∧ g a = .ok b := by
  cases x <;> simp [bind, Except.bind]

/-- A run that succeeds has passed its guards. -/
theorem guard_ok_iff {ε α β : Type} (c : Prop) [Decidable c] (e : ε) (g : β → Except ε α)
    (x : Except ε α) (a : α) :
    (if c then throw e >>= g else x) = .ok a ↔ ¬c ∧ x = .ok a := by
  by_cases h : c <;> simp [h, bind, Except.bind, throw, throwThe, MonadExceptOf.throw]

/-- `encode` changes the checksum of its frame only. -/
theorem encode_ok_frame {aes : AesEcb} {f f' : Frame} {key : Option Bytes} {w : Bytes}
    (h : f.encode aes key = .ok (w, f')) : f' = { f with checksum := f'.checksum } := by
  unfold Frame.encode at h
  simp only [guard_ok_iff, bind_ok_iff] at h
  obtain ⟨-, c, -, h⟩ := h
  cases key with
  | none =>
      simp only [guard_ok_iff, bind_ok_iff] at h
      obtain ⟨structBytes, -, -, hout⟩ := h
      cases hout
      rfl
  | some k =>
      simp only [guard_ok_iff, bind_ok_iff] at h
      obtain ⟨structBytes, -, -, hout⟩ := h
      cases hout
      rfl

/-- A field that can be read lies within the buffer. -/
theorem unpackFrom_ok_le {width off v : ℕ} {buf : Bytes} (h : unpackFrom width buf off = .ok v) :
    off + width ≤ buf.length := by
  unfold unpackFrom at h
  split at h
  · assumption
  · cases h

/-- The fields of a frame can be read only from a whole header. -/
theorem length_of_decodeFields {buf : Bytes} {total : ℕ} {flag : UInt8} {encrypted : Bool}
    {f : Frame} (h : Frame.decodeFields buf total flag encrypted = .ok f) : 23 ≤ buf.length := by
  unfold Frame.decodeFields at h
  simp only [bind_ok_iff] at h
  obtain ⟨_, -, _, -, _, -, _, -, _, -, _, -, dlen, hdlen, -⟩ := h
  exact unpackFrom_ok_le hdlen

/-- `decryptInBuf` succeeds under 16-byte keys on whole blocks only, and keeps the
length. -/
theorem decryptInBuf_ok {aes : AesEcb} {buf k out : Bytes} (h : decryptInBuf aes buf k = .ok out) :
    k.length = 16 ∧ 16 ∣ (buf.drop 17).length ∧ out.length = buf.length := by
  unfold decryptInBuf at h
  simp only [encryptOffsetInWire, aesBlockSize, guard_ok_iff, bind_ok_iff, ne_eq, not_not] at h
  obtain ⟨hk, hblocks, flags, -, hout⟩ := h
  cases hout
  have hdvd : 16 ∣ (buf.drop 17).length := Nat.dvd_of_mod_eq_zero hblocks
  refine ⟨hk, hdvd, ?_⟩
  rw [List.length_set, List.length_append, aes.length_decrypt k _ hk hdvd]
  simp only [List.length_take, List.length_drop]
  omega

/-- **What `decode` accepts.** -/
theorem decode_ok_cases {aes : AesEcb} {buf : Bytes} {key : Option Bytes} {f : Frame}
    (hdec : Frame.decode aes buf key = .ok f) :
    (∃ h n body, ClearLayout buf h n body ∧ f = frameOf h n (body.take n.dlen)) ∨
    (∃ k h ct more n body, key = some k ∧ EncryptedLayout aes k buf h ct more n body ∧
      f = frameOf h n (body.take n.dlen)) := by
  by_cases hlen : buf.length < headerLen
  · rw [decode_short aes key hlen] at hdec
    cases hdec
  simp only [headerLen] at hlen
  obtain ⟨h, tail, rfl⟩ := exists_head buf (by omega)
  rw [List.length_append, Head.length_bytes] at hlen
  have hparts := hdec
  rw [decode_head aes h key (by omega)] at hparts
  split_ifs at hparts with htotal hmagic hflag
  · right
    rw [not_or, not_not, not_not] at hmagic
    cases key with
    | none => cases hparts
    | some k =>
        obtain ⟨buf', hbuf', hfields⟩ := (bind_ok_iff _ _ _).mp hparts
        obtain ⟨hk, hblocks, hlen'⟩ := decryptInBuf_ok hbuf'
        have h23 := length_of_decodeFields hfields
        rw [hlen', List.length_take, List.length_append, Head.length_bytes] at h23
        -- cut the tail at the end of the frame
        set ct := tail.take (h.rem + 2 - 17) with hct
        have hctlen : ct.length = h.rem + 2 - 17 := List.length_take_of_le (by omega)
        have htail : tail = ct ++ tail.drop (h.rem + 2 - 17) := (List.take_append_drop _ _).symm
        have htake : (h.bytes ++ tail).take (h.rem + 2) = h.bytes ++ ct := by
          rw [List.take_append, Head.length_bytes, List.take_of_length_le (by simp; omega)]
        rw [htake, List.drop_left' h.length_bytes] at hblocks
        have hptlen := aes.length_decrypt k ct hk hblocks
        obtain ⟨n, body, hpt⟩ := exists_inner (aes.decrypt k ct) (by omega)
        have hbytes : h.bytes ++ tail = h.bytes ++ (ct ++ tail.drop (h.rem + 2 - 17)) := by
          rw [← htail]
        rw [hbytes, decode_encrypted aes h ct _ n body k hmagic.1 hmagic.2 hflag hk (by omega)
          hblocks hpt, verdict_eq_ok_iff] at hdec
        exact ⟨k, h, ct, _, n, body, rfl, ⟨hbytes, hmagic.1, hmagic.2, hflag, hk, by omega, hblocks,
          hpt, hdec.1, hdec.2.1⟩, hdec.2.2⟩
  · left
    rw [not_or, not_not, not_not] at hmagic
    have hclear : Frame.encryptedBit h.flag = false := Bool.eq_false_of_not_eq_true hflag
    obtain ⟨n, body, rfl⟩ := exists_inner tail (by omega)
    rw [List.length_append, Inner.length_bytes] at htotal
    have hrem : h.rem + 2 ≤ headerLen + body.length := by simp only [headerLen]; omega
    rw [decode_clear aes h n body key hmagic.1 hmagic.2 hclear hrem, verdict_eq_ok_iff] at hdec
    exact ⟨h, n, body, ⟨rfl, hmagic.1, hmagic.2, hclear, hrem, hdec.1, hdec.2.1⟩, hdec.2.2⟩

/-- The ranges of the fields of a frame on the wire. -/
structure FromWire (f : Frame) : Prop where
  sequence : f.sequence % 2 ^ 32 = f.sequence
  srcId : f.srcId % 2 ^ 32 = f.srcId
  major : f.major % 2 ^ 8 = f.major
  payload : f.payload.length ≤ 65514

/-- The fields of a layout are in their ranges. -/
theorem fromWire_frameOf (h : Head) (n : Inner) (payload : Bytes) (hlen : payload.length ≤ 65514) :
    FromWire (frameOf h n payload) := by
  have hseq := h.seq_lt
  have hsrc := h.src_lt
  have hmaj := n.maj.toNat_lt
  refine ⟨?_, ?_, ?_, hlen⟩
  · simp only [frameOf]
    omega
  · simp only [frameOf]
    omega
  · simp only [frameOf]
    omega

/-- **What `decode` returns fits the wire.** -/
theorem decode_fromWire {aes : AesEcb} {buf : Bytes} {key : Option Bytes} {f : Frame}
    (hdec : Frame.decode aes buf key = .ok f) : FromWire f := by
  obtain ⟨h, n, body, hl, rfl⟩ | ⟨k, h, ct, more, n, body, -, hl, rfl⟩ := decode_ok_cases hdec
  · have hrem := h.rem_lt
    have hdlen := hl.dlen_le
    simp only [headerLen] at hdlen
    refine fromWire_frameOf h n _ ?_
    rw [List.length_take]
    omega
  · have hrem := h.rem_lt
    have hdlen := hl.dlen_le
    simp only [headerLen] at hdlen
    refine fromWire_frameOf h n _ ?_
    rw [List.length_take]
    omega

end Spcedp.Wire
