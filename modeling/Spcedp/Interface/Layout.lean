import Spcedp.Model.Wire

/-!
# The wire layout

Every buffer of at least `headerLen` bytes is a `Head` (the 17 bytes that stay in
the clear), an `Inner` part (major, minor, checksum and payload length) and a rest.
`encode` and `decode` are restated over this layout, once for cleartext and once for
encrypted frames; the analysis uses only these four equations.

Both functions check the same number: `computedChecksum f flag`, the checksum of the
struct bytes that `f` packs to with the given flags byte.
-/

set_option autoImplicit false

namespace Spcedp.Wire

open Lib.LittleEndian Lib.BlockCipher

/-! ## Reading bytes at known places -/

/-- An empty buffer has no bytes. -/
@[simp] theorem byteAt_nil (i : ℕ) : byteAt [] i = .error .indexError := rfl

/-- The byte at offset zero is the first. -/
@[simp] theorem byteAt_cons_zero (b : UInt8) (bs : Bytes) : byteAt (b :: bs) 0 = .ok b := rfl

/-- Skipping a byte moves the offset of another by one. -/
@[simp] theorem byteAt_cons_succ (b : UInt8) (bs : Bytes) (i : ℕ) :
    byteAt (b :: bs) (i + 1) = byteAt bs i := rfl

/-- Skipping a byte moves the offset of a field by one. -/
@[simp] theorem unpackFrom_cons_succ (width : ℕ) (b : UInt8) (bs : Bytes) (off : ℕ) :
    unpackFrom width (b :: bs) (off + 1) = unpackFrom width bs off := by
  unfold unpackFrom
  simp only [List.length_cons, List.drop_succ_cons]
  congr 1
  simp only [eq_iff_iff]
  omega

/-- A field at the front of a buffer reads as the number it was packed from. -/
theorem unpackFrom_toBytes (width n : ℕ) (rest : Bytes) :
    unpackFrom width (toBytes width n ++ rest) 0 = .ok (n % 256 ^ width) := by
  unfold unpackFrom
  rw [if_pos (by simp), List.drop_zero, List.take_left' (length_toBytes width n),
    ofBytes_toBytes]

/-- Skipping a whole prefix moves the offset of a field by its length. -/
theorem unpackFrom_append_right (width off : ℕ) (pre buf : Bytes) :
    unpackFrom width (pre ++ buf) (pre.length + off) = unpackFrom width buf off := by
  induction pre with
  | nil => simp
  | cons b pre ih =>
      rw [List.cons_append, List.length_cons,
        show pre.length + 1 + off = pre.length + off + 1 from by omega, unpackFrom_cons_succ, ih]

/-- Skipping a whole prefix moves an index by its length. -/
theorem byteAt_append_right (pre buf : Bytes) (i : ℕ) :
    byteAt (pre ++ buf) (pre.length + i) = byteAt buf i := by
  unfold byteAt
  rw [List.getElem?_append_right (by omega), Nat.add_sub_cancel_left]

/-! ## Masking -/

/-- A masked number fits its width. -/
theorem mask_lt (width : ℕ) (n : ℤ) : mask width n < 256 ^ width := by
  have hpos : (0 : ℤ) < 256 ^ width := by positivity
  have hlt := Int.emod_lt_of_pos n hpos
  have hnn := Int.emod_nonneg n hpos.ne'
  unfold mask
  zify
  rw [Int.toNat_of_nonneg hnn]
  exact hlt

/-- A number that fits its field is not changed by masking. -/
theorem mask_natCast (width n : ℕ) (h : n < 256 ^ width) : mask width (n : ℤ) = n := by
  unfold mask
  have : (n : ℤ) % 256 ^ width = (n % 256 ^ width : ℕ) := by push_cast; rfl
  rw [this, Int.toNat_natCast, Nat.mod_eq_of_lt h]

/-- Masking as the residue that Python's `&` computes. -/
theorem mask_cast (width : ℕ) (n : ℤ) : ((mask width n : ℕ) : ℤ) = n % 256 ^ width := by
  unfold mask
  exact Int.toNat_of_nonneg (Int.emod_nonneg n (by positivity))

/-! ## Checksum -/

/-- The loop reads the buffer below its bound only, and not at the checksum slot. -/
theorem checksumLoop_congr (a b : Bytes) (stop : ℕ)
    (h : ∀ i < stop, i ≠ 0x11 → i ≠ 0x12 → a.getD i 0 = b.getD i 0) :
    checksumLoop a stop = checksumLoop b stop := by
  unfold checksumLoop
  apply List.foldl_ext
  intro s i hi
  have hi := List.mem_range.mp hi
  unfold checksumRound
  by_cases hslot : i = csumOffsetLow ∨ i = csumOffsetHigh
  · rw [if_pos hslot, if_pos hslot]
  · rw [if_neg hslot, if_neg hslot]
    rw [not_or] at hslot
    rw [h i hi hslot.1 hslot.2]

/-- Neither the bytes in the checksum slot nor the bytes behind the bound count. -/
theorem checksumLoop_slot (pre slot slot' body extra : Bytes) (stop : ℕ)
    (hpre : pre.length = 0x11) (hslot : slot.length = 2) (hslot' : slot'.length = 2)
    (hstop : stop ≤ 0x13 + body.length) :
    checksumLoop (pre ++ (slot ++ (body ++ extra))) stop =
      checksumLoop (pre ++ (slot' ++ body)) stop := by
  apply checksumLoop_congr
  intro i hi hlow hhigh
  by_cases h17 : i < 0x11
  · rw [List.getD_append _ _ _ _ (by omega), List.getD_append _ _ _ _ (by omega)]
  · have hread (slot extra : Bytes) (hslot : slot.length = 2) :
        (pre ++ (slot ++ (body ++ extra))).getD i 0 = body.getD (i - 0x13) 0 := by
      rw [List.getD_append_right _ _ _ _ (by omega), List.getD_append_right _ _ _ _ (by omega),
        List.getD_append _ _ _ _ (by omega), hpre, hslot, Nat.sub_sub]
    rw [hread slot extra hslot]
    simpa using (hread slot' [] hslot').symm

/-- One round keeps both halves of the state in a byte. -/
theorem checksumByte_lt (low high : ℕ) (b : UInt8) :
    (checksumByte low high b).1 < 2 ^ 8 ∧ (checksumByte low high b).2 < 2 ^ 8 := by
  have hand (x : ℕ) : x &&& 0xFF < 2 ^ 8 := Nat.and_lt_two_pow x (by norm_num)
  unfold checksumByte
  dsimp only
  split
  · exact ⟨Nat.xor_lt_two_pow (hand _) (hand _), Nat.xor_lt_two_pow (hand _) (hand _)⟩
  · exact ⟨hand _, hand _⟩

/-- The loop ends with both halves of the state in a byte. -/
theorem checksumLoop_lt (a : Bytes) (stop : ℕ) :
    (checksumLoop a stop).1 < 2 ^ 8 ∧ (checksumLoop a stop).2 < 2 ^ 8 := by
  unfold checksumLoop
  apply List.foldlRecOn (List.range stop) (checksumRound a)
      (motive := fun s : ℕ × ℕ => s.1 < 2 ^ 8 ∧ s.2 < 2 ^ 8)
  · decide
  · intro s hs i _
    unfold checksumRound
    split
    · exact hs
    · exact checksumByte_lt _ _ _

/-- The two halves of the state as one 16-bit number. -/
def checksumValue (s : ℕ × ℕ) : ℕ := (s.2 <<< 8) ||| s.1

/-- The checksum is a number of two bytes. -/
theorem checksumValue_lt (a : Bytes) (stop : ℕ) :
    checksumValue (checksumLoop a stop) < 256 ^ 2 := by
  obtain ⟨hlow, hhigh⟩ := checksumLoop_lt a stop
  unfold checksumValue
  apply Nat.or_lt_two_pow (n := 16)
  · rw [Nat.shiftLeft_eq]
    omega
  · omega

/-- The checksum is defined where the buffer is long enough. -/
theorem edpChecksum_eq (a : Bytes) (dlen : ℕ) (h : dlen + 0x15 ≤ a.length) :
    edpChecksum a dlen = .ok (checksumValue (checksumLoop a (dlen + 0x15))) := by
  unfold edpChecksum checksumValue
  dsimp only
  rw [if_neg (by omega)]

/-! ## Head and inner part -/

/-- The 17 bytes of a frame that are never encrypted. -/
structure Head where
  rem : ℕ
  proto : UInt8
  ver : UInt8
  flag : UInt8
  seq : ℕ
  src : ℕ
  dst : ℕ
  rem_lt : rem < 256 ^ 2
  seq_lt : seq < 256 ^ 4
  src_lt : src < 256 ^ 4
  dst_lt : dst < 256 ^ 4

/-- The six bytes between the head and the payload. -/
structure Inner where
  maj : UInt8
  mn : UInt8
  csum : ℕ
  dlen : ℕ
  csum_lt : csum < 256 ^ 2
  dlen_lt : dlen < 256 ^ 2

/-- The struct bytes of the head with the flags byte `flag`. -/
def Head.structBytes (h : Head) (flag : UInt8) : Bytes :=
  [h.proto, h.ver, flag] ++ toBytes 4 h.seq ++ toBytes 4 h.src ++ toBytes 4 h.dst

def Head.bytes (h : Head) : Bytes := toBytes 2 h.rem ++ h.structBytes h.flag

def Inner.bytes (n : Inner) : Bytes := [n.maj, n.mn] ++ toBytes 2 n.csum ++ toBytes 2 n.dlen

/-- The head is packed to fifteen bytes. -/
@[simp] theorem Head.length_structBytes (h : Head) (flag : UInt8) :
    (h.structBytes flag).length = 15 := by
  simp [Head.structBytes]

/-- On the wire the head has seventeen bytes. -/
@[simp] theorem Head.length_bytes (h : Head) : h.bytes.length = 17 := by
  simp [Head.bytes]

/-- The inner header has six bytes. -/
@[simp] theorem Inner.length_bytes (n : Inner) : n.bytes.length = 6 := by
  simp [Inner.bytes]

/-- A long enough buffer starts with a field of any given width. -/
theorem exists_field (width : ℕ) (buf : Bytes) (hlen : width ≤ buf.length) :
    ∃ n rest, n < 256 ^ width ∧ buf = toBytes width n ++ rest ∧
      rest.length + width = buf.length := by
  have htake : (buf.take width).length = width := List.length_take_of_le hlen
  refine ⟨ofBytes (buf.take width), buf.drop width, ?_, ?_, ?_⟩
  · simpa only [htake] using ofBytes_lt (buf.take width)
  · have := toBytes_ofBytes (buf.take width)
    rw [htake] at this
    rw [this, List.take_append_drop]
  · rw [List.length_drop]
    omega

/-- A nonempty buffer starts with a byte. -/
theorem exists_byte (buf : Bytes) (hlen : 1 ≤ buf.length) :
    ∃ (b : UInt8) (rest : Bytes), buf = b :: rest ∧ rest.length + 1 = buf.length := by
  cases buf with
  | nil => simp at hlen
  | cons b rest => exact ⟨b, rest, rfl, rfl⟩

/-- A buffer of at least 17 bytes starts with a head. -/
theorem exists_head (buf : Bytes) (hlen : 17 ≤ buf.length) :
    ∃ (h : Head) (rest : Bytes), buf = h.bytes ++ rest := by
  obtain ⟨rem, buf, hrem, rfl, h2⟩ := exists_field 2 buf (by omega)
  obtain ⟨proto, buf, rfl, h3⟩ := exists_byte buf (by omega)
  obtain ⟨ver, buf, rfl, h4⟩ := exists_byte buf (by omega)
  obtain ⟨flag, buf, rfl, h5⟩ := exists_byte buf (by omega)
  obtain ⟨seq, buf, hseq, rfl, h9⟩ := exists_field 4 buf (by omega)
  obtain ⟨src, buf, hsrc, rfl, h13⟩ := exists_field 4 buf (by omega)
  obtain ⟨dst, buf, hdst, rfl, h17⟩ := exists_field 4 buf (by omega)
  refine ⟨⟨rem, proto, ver, flag, seq, src, dst, hrem, hseq, hsrc, hdst⟩, buf, ?_⟩
  simp [Head.bytes, Head.structBytes]

/-- A buffer of at least 6 bytes starts with an inner part. -/
theorem exists_inner (buf : Bytes) (hlen : 6 ≤ buf.length) :
    ∃ (n : Inner) (rest : Bytes), buf = n.bytes ++ rest := by
  obtain ⟨maj, buf, rfl, h1⟩ := exists_byte buf (by omega)
  obtain ⟨mn, buf, rfl, h2⟩ := exists_byte buf (by omega)
  obtain ⟨csum, buf, hcsum, rfl, h4⟩ := exists_field 2 buf (by omega)
  obtain ⟨dlen, buf, hdlen, rfl, h6⟩ := exists_field 2 buf (by omega)
  refine ⟨⟨maj, mn, csum, dlen, hcsum, hdlen⟩, buf, ?_⟩
  simp [Inner.bytes]

/-! ## The frame of a layout -/

/-- The frame that `decode` builds from a head, an inner part and a payload. -/
def frameOf (h : Head) (n : Inner) (payload : Bytes) : Frame where
  srcId := h.src
  dstId := h.dst
  sequence := h.seq
  major := n.maj.toNat
  minor := n.mn.toNat
  payload := payload
  checksum := n.csum
  srcFlag := h.flag &&& ~~~flagEncrypted

/-- The checksum of the struct bytes that `f` packs to with flags byte `flag`. -/
def Frame.computedChecksum (f : Frame) (flag : UInt8) : ℕ :=
  checksumValue (checksumLoop (f.packHeader flag ++ f.payload) (f.payload.length + 0x15))

/-- The checksum of a frame is a number of two bytes. -/
theorem Frame.computedChecksum_lt (f : Frame) (flag : UInt8) :
    f.computedChecksum flag < 256 ^ 2 := checksumValue_lt _ _

/-- A byte is packed as itself. -/
@[simp] theorem toBytes_one_toNat (b : UInt8) : toBytes 1 (mask 1 (b.toNat : ℤ)) = [b] := by
  rw [mask_natCast 1 b.toNat (by simpa using b.toNat_lt_size)]
  simp [toBytes]

/-- Packing a frame read from a layout gives the struct bytes back, up to the slot. -/
theorem packHeader_frameOf (h : Head) (n : Inner) (payload : Bytes) (flag : UInt8)
    (hproto : h.proto = protocolByte) (hver : h.ver = protocolVersion)
    (hdlen : payload.length = n.dlen) :
    (frameOf h n payload).packHeader flag =
      h.structBytes flag ++ ([n.maj, n.mn] ++ toBytes 2 0 ++ toBytes 2 n.dlen) := by
  unfold Frame.packHeader frameOf Head.structBytes
  simp only [mask_natCast 4 _ h.seq_lt, mask_natCast 4 _ h.src_lt, mask_natCast 4 _ h.dst_lt,
    toBytes_one_toNat, hdlen, hproto, hver, List.append_assoc, List.cons_append, List.nil_append]

/-- **The checksum slot does not count**: any struct bytes of the layout have the
checksum that `encode` computes for the frame, whatever stands in the slot and behind
the payload. -/
theorem checksum_struct_eq (h : Head) (n : Inner) (payload extra : Bytes) (flag : UInt8)
    (hproto : h.proto = protocolByte) (hver : h.ver = protocolVersion)
    (hdlen : payload.length = n.dlen) :
    edpChecksum (h.structBytes flag ++ n.bytes ++ (payload ++ extra)) n.dlen =
      .ok ((frameOf h n payload).computedChecksum flag) := by
  rw [edpChecksum_eq _ _ (by simp; omega)]
  unfold Frame.computedChecksum
  rw [packHeader_frameOf h n payload flag hproto hver hdlen]
  have hpay : (frameOf h n payload).payload = payload := rfl
  rw [hpay, hdlen]
  congr 2
  have hslot := checksumLoop_slot (h.structBytes flag ++ [n.maj, n.mn]) (toBytes 2 n.csum)
    (toBytes 2 0) (toBytes 2 n.dlen ++ payload) extra (n.dlen + 0x15) (by simp) (by simp) (by simp)
    (by simp; omega)
  simpa only [Inner.bytes, List.append_assoc] using hslot

/-! ## Reading the fields of a layout -/

section Reading

variable (h : Head) (n : Inner) (x : Bytes)

/-- The length prefix of a layout. -/
@[simp] theorem unpackFrom_rem : unpackFrom 2 (h.bytes ++ x) 0 = .ok h.rem := by
  rw [Head.bytes, List.append_assoc, unpackFrom_toBytes, Nat.mod_eq_of_lt h.rem_lt]

/-- The protocol byte of a layout. -/
@[simp] theorem byteAt_proto : byteAt (h.bytes ++ x) 2 = .ok h.proto := rfl

/-- The version byte of a layout. -/
@[simp] theorem byteAt_ver : byteAt (h.bytes ++ x) 3 = .ok h.ver := rfl

/-- The flags byte of a layout. -/
@[simp] theorem byteAt_flag : byteAt (h.bytes ++ x) 4 = .ok h.flag := rfl

/-- A field behind a prefix of known length reads as the number it was packed from. -/
theorem unpackFrom_field (width off v : ℕ) (pre post : Bytes) (hoff : pre.length = off)
    (hv : v < 256 ^ width) :
    unpackFrom width (pre ++ (toBytes width v ++ post)) off = .ok v := by
  subst hoff
  rw [← Nat.add_zero pre.length, unpackFrom_append_right, unpackFrom_toBytes, Nat.mod_eq_of_lt hv]

/-- The sequence number of a layout. -/
@[simp] theorem unpackFrom_seq : unpackFrom 4 (h.bytes ++ x) 5 = .ok h.seq := by
  have := unpackFrom_field 4 5 h.seq (toBytes 2 h.rem ++ [h.proto, h.ver, h.flag])
    (toBytes 4 h.src ++ (toBytes 4 h.dst ++ x)) (by simp) h.seq_lt
  simpa only [Head.bytes, Head.structBytes, List.append_assoc] using this

/-- The sender's ID of a layout. -/
@[simp] theorem unpackFrom_src : unpackFrom 4 (h.bytes ++ x) 9 = .ok h.src := by
  have := unpackFrom_field 4 9 h.src (toBytes 2 h.rem ++ [h.proto, h.ver, h.flag]
    ++ toBytes 4 h.seq) (toBytes 4 h.dst ++ x) (by simp) h.src_lt
  simpa only [Head.bytes, Head.structBytes, List.append_assoc] using this

/-- The receiver's ID of a layout. -/
@[simp] theorem unpackFrom_dst : unpackFrom 4 (h.bytes ++ x) 13 = .ok h.dst := by
  have := unpackFrom_field 4 13 h.dst (toBytes 2 h.rem ++ [h.proto, h.ver, h.flag]
    ++ toBytes 4 h.seq ++ toBytes 4 h.src) x (by simp) h.dst_lt
  simpa only [Head.bytes, Head.structBytes, List.append_assoc] using this

/-- The major code of a layout. -/
@[simp] theorem byteAt_maj : byteAt (h.bytes ++ (n.bytes ++ x)) 17 = .ok n.maj :=
  byteAt_append_right h.bytes (n.bytes ++ x) 0

/-- The minor code of a layout. -/
@[simp] theorem byteAt_mn : byteAt (h.bytes ++ (n.bytes ++ x)) 18 = .ok n.mn :=
  byteAt_append_right h.bytes (n.bytes ++ x) 1

/-- The checksum of a layout. -/
@[simp] theorem unpackFrom_csum : unpackFrom 2 (h.bytes ++ (n.bytes ++ x)) 19 = .ok n.csum := by
  have := unpackFrom_field 2 19 n.csum (h.bytes ++ [n.maj, n.mn]) (toBytes 2 n.dlen ++ x)
    (by simp) n.csum_lt
  simpa only [Inner.bytes, List.append_assoc] using this

/-- The payload length of a layout. -/
@[simp] theorem unpackFrom_dlen : unpackFrom 2 (h.bytes ++ (n.bytes ++ x)) 21 = .ok n.dlen := by
  have := unpackFrom_field 2 21 n.dlen (h.bytes ++ [n.maj, n.mn] ++ toBytes 2 n.csum) x
    (by simp) n.dlen_lt
  simpa only [Inner.bytes, List.append_assoc] using this

/-- Setting the flags byte of a wire buffer. -/
theorem set_flag (flag : UInt8) :
    (h.bytes ++ x).set 4 flag = ({ h with flag := flag } : Head).bytes ++ x := rfl

/-- Setting the flags byte of struct bytes. -/
theorem set_struct_flag (flag flag' : UInt8) :
    (h.structBytes flag ++ x).set 2 flag' = h.structBytes flag' ++ x := rfl

/-- The flags byte in the bytes of the checksum. -/
theorem byteAt_struct_flag (flag : UInt8) : byteAt (h.structBytes flag ++ x) 2 = .ok flag := rfl

/-- The struct bytes of a buffer. -/
theorem drop_two_bytes : (h.bytes ++ x).drop 2 = h.structBytes h.flag ++ x := rfl

end Reading

/-- Clearing the encrypted bit and setting it again changes nothing if it was set. -/
theorem flag_clear_set (flag : UInt8) (h : Frame.encryptedBit flag = true) :
    flag &&& ~~~flagEncrypted ||| flagEncrypted = flag := by
  revert flag
  decide +kernel

/-! ## `decode` over a layout -/

/-- The verdict of `decode` once the fields are read: the payload must fit the frame
and the recomputed checksum must be the stored one. -/
def verdict (h : Head) (n : Inner) (body : Bytes) (mismatch : WireError) :
    Except WireError Frame :=
  if h.rem + 2 < headerLen + n.dlen then .error (.payloadOverflow n.dlen (h.rem + 2))
  else if (frameOf h n (body.take n.dlen)).computedChecksum h.flag ≠ n.csum then .error mismatch
  else .ok (frameOf h n (body.take n.dlen))

/-- Reading the fields of a buffer whose flags byte is `flag`, for a frame whose flags
byte on the wire was `h.flag`. -/
theorem decodeFields_eq (h : Head) (n : Inner) (body : Bytes) (flag : UInt8) (encrypted : Bool)
    (hproto : h.proto = protocolByte) (hver : h.ver = protocolVersion)
    (hflag : (if encrypted then flag ||| flagEncrypted else flag) = h.flag)
    (hrem : h.rem + 2 ≤ headerLen + body.length) :
    Frame.decodeFields (({ h with flag := flag } : Head).bytes ++ (n.bytes ++ body)) (h.rem + 2)
      h.flag encrypted =
      verdict h n body
        (if encrypted then .checksumMismatchAfterDecrypt else .checksumMismatch) := by
  set h' : Head := { h with flag := flag } with hh'
  unfold Frame.decodeFields verdict
  simp only [unpackFrom_seq, unpackFrom_src, unpackFrom_dst, byteAt_maj, byteAt_mn,
    unpackFrom_csum, unpackFrom_dlen, bind, Except.bind, pure, Except.pure, throw, throwThe,
    MonadExceptOf.throw]
  by_cases hdlen : h.rem + 2 < headerLen + n.dlen
  · rw [if_pos hdlen, if_pos hdlen]
  rw [if_neg hdlen, if_neg hdlen]
  simp only [headerLen] at hrem hdlen
  obtain ⟨extra, hextra⟩ : ∃ extra, body.take (h.rem + 2 - 23) = body.take n.dlen ++ extra := by
    refine ⟨(body.take (h.rem + 2 - 23)).drop n.dlen, ?_⟩
    have hsplit := List.take_append_drop n.dlen (body.take (h.rem + 2 - 23))
    rw [List.take_take, min_eq_left (by omega)] at hsplit
    exact hsplit.symm
  have hstruct : ((h'.bytes ++ (n.bytes ++ body)).take (h.rem + 2)).drop 2 =
      h'.structBytes flag ++ (n.bytes ++ (body.take n.dlen ++ extra)) := by
    rw [List.take_append, List.take_append, Head.length_bytes, Inner.length_bytes,
      List.take_of_length_le (by simp; omega), List.take_of_length_le (by simp; omega),
      Nat.sub_sub, hextra, drop_two_bytes]
  have hpay : ((h'.bytes ++ (n.bytes ++ body)).drop headerLen).take n.dlen = body.take n.dlen := by
    rw [← List.append_assoc, List.drop_left' (by simp)]
  have hlen : (body.take n.dlen).length = n.dlen := List.length_take_of_le (by omega)
  have hcsum := checksum_struct_eq h n (body.take n.dlen) extra h.flag hproto hver hlen
  rw [List.append_assoc] at hcsum
  have hsame (fl : UInt8) : h'.structBytes fl = h.structBytes fl := rfl
  rw [hstruct, hpay]
  cases encrypted with
  | true =>
      simp only [if_true] at hflag ⊢
      simp only [byteAt_struct_flag, set_struct_flag, hsame, hflag, hcsum]
      rfl
  | false =>
      simp only [Bool.false_eq_true, if_false] at hflag ⊢
      simp only [hsame, hflag, hcsum]
      rfl

/-- Less than a header. -/
theorem decode_short (aes : AesEcb) {buf : Bytes} (key : Option Bytes)
    (hlen : buf.length < headerLen) :
    Frame.decode aes buf key = .error (.headerTooShort buf.length) := by
  unfold Frame.decode
  rw [if_pos hlen]
  rfl

/-- What `decode` asks of the head before it reads the fields. -/
theorem decode_head (aes : AesEcb) (h : Head) {tail : Bytes} (key : Option Bytes)
    (hlen : 6 ≤ tail.length) : Frame.decode aes (h.bytes ++ tail) key =
      if 17 + tail.length < h.rem + 2 then .error (.truncated (17 + tail.length) (h.rem + 2))
      else if h.proto ≠ protocolByte ∨ h.ver ≠ protocolVersion then
        .error (.badMagic h.proto h.ver)
      else if Frame.encryptedBit h.flag then
        key.elim (.error .encryptionRequired) fun k =>
          (decryptInBuf aes ((h.bytes ++ tail).take (h.rem + 2)) k).bind fun buf =>
            Frame.decodeFields buf (h.rem + 2) h.flag true
      else Frame.decodeFields (h.bytes ++ tail) (h.rem + 2) h.flag false := by
  have htotal : (h.bytes ++ tail).length = 17 + tail.length := by
    rw [List.length_append, Head.length_bytes]
  unfold Frame.decode
  simp only [htotal, unpackFrom_rem, byteAt_proto, byteAt_ver, byteAt_flag, bind, Except.bind, pure,
    Except.pure, throw, throwThe, MonadExceptOf.throw, headerLen]
  rw [if_neg (by omega)]
  by_cases htrunc : 17 + tail.length < h.rem + 2
  · rw [if_pos htrunc, if_pos htrunc]
  rw [if_neg htrunc, if_neg htrunc]
  by_cases hmagic : h.proto ≠ protocolByte ∨ h.ver ≠ protocolVersion
  · rw [if_pos hmagic, if_pos hmagic]
  rw [if_neg hmagic, if_neg hmagic]
  cases hflag : Frame.encryptedBit h.flag with
  | false => simp only [Bool.false_eq_true, if_false]
  | true =>
      cases key with
      | none => simp only [if_true, Option.elim_none]
      | some k => simp only [if_true, Option.elim_some]

/-- `decode` of a whole cleartext frame. -/
theorem decode_clear (aes : AesEcb) (h : Head) (n : Inner) (body : Bytes) (key : Option Bytes)
    (hproto : h.proto = protocolByte) (hver : h.ver = protocolVersion)
    (hflag : Frame.encryptedBit h.flag = false) (hrem : h.rem + 2 ≤ headerLen + body.length) :
    Frame.decode aes (h.bytes ++ (n.bytes ++ body)) key = verdict h n body .checksumMismatch := by
  have hfields := decodeFields_eq h n body h.flag false hproto hver rfl hrem
  simp only [headerLen] at hrem
  rw [decode_head aes h key (by simp), if_neg (by simp; omega), if_neg (by simp [hproto, hver]),
    hflag, if_neg (by decide)]
  exact hfields

/-- `decryptInBuf` of a whole encrypted frame whose tail decrypts to `pt`. -/
theorem decryptInBuf_eq (aes : AesEcb) (h : Head) (ct pt k : Bytes) (hk : k.length = 16)
    (hblocks : 16 ∣ ct.length) (hpt : aes.decrypt k ct = pt) :
    decryptInBuf aes (h.bytes ++ ct) k =
      .ok (({ h with flag := h.flag &&& ~~~flagEncrypted } : Head).bytes ++ pt) := by
  have htake : (h.bytes ++ ct).take 17 = h.bytes := List.take_left' h.length_bytes
  have hdrop : (h.bytes ++ ct).drop 17 = ct := List.drop_left' h.length_bytes
  unfold decryptInBuf
  simp only [encryptOffsetInWire, aesBlockSize, htake, hdrop, hpt, byteAt_flag, bind, Except.bind,
    pure, Except.pure, throw, throwThe, MonadExceptOf.throw]
  rw [if_neg (by simpa using hk), if_neg (by omega), set_flag]

/-- A tail that is not whole blocks. -/
theorem decryptInBuf_odd (aes : AesEcb) (h : Head) {ct k : Bytes} (hk : k.length = 16)
    (hblocks : ¬16 ∣ ct.length) :
    decryptInBuf aes (h.bytes ++ ct) k = .error (.tailNotBlocks ct.length) := by
  have hdrop : (h.bytes ++ ct).drop 17 = ct := List.drop_left' h.length_bytes
  unfold decryptInBuf
  simp only [encryptOffsetInWire, aesBlockSize, hdrop, bind, Except.bind, pure, Except.pure, throw,
    throwThe, MonadExceptOf.throw]
  rw [if_neg (by simpa using hk), if_pos (by omega)]

/-- `decode` of a whole encrypted frame whose tail decrypts to `n.bytes ++ body`. -/
theorem decode_encrypted (aes : AesEcb) (h : Head) (ct more : Bytes) (n : Inner) (body k : Bytes)
    (hproto : h.proto = protocolByte) (hver : h.ver = protocolVersion)
    (hflag : Frame.encryptedBit h.flag = true) (hk : k.length = 16)
    (hrem : h.rem + 2 = 17 + ct.length) (hblocks : 16 ∣ ct.length)
    (hpt : aes.decrypt k ct = n.bytes ++ body) :
    Frame.decode aes (h.bytes ++ (ct ++ more)) (some k) =
      verdict h n body .checksumMismatchAfterDecrypt := by
  have hctlen : ct.length = 6 + body.length := by
    rw [← aes.length_decrypt k ct hk hblocks, hpt]
    simp
  have hfields := decodeFields_eq h n body (h.flag &&& ~~~flagEncrypted) true hproto hver
    (flag_clear_set h.flag hflag) (by simp only [headerLen]; omega)
  have hdecrypt := decryptInBuf_eq aes h ct (n.bytes ++ body) k hk hblocks hpt
  have htake : (h.bytes ++ (ct ++ more)).take (h.rem + 2) = h.bytes ++ ct := by
    rw [← List.append_assoc, List.take_left' (by simp; omega)]
  rw [decode_head aes h (some k) (by simp; omega), if_neg (by simp; omega),
    if_neg (by simp [hproto, hver]), if_pos hflag, Option.elim_some, htake, hdecrypt]
  dsimp only [Except.bind]
  exact hfields

/-! ## `encode` over a layout -/

section Encode

variable (f : Frame) (flag : UInt8)

/-- The head that `encode` writes for `f`. -/
def Frame.headOf (rem : ℕ) (hrem : rem < 256 ^ 2) : Head where
  rem := rem
  proto := protocolByte
  ver := protocolVersion
  flag := flag
  seq := mask 4 f.sequence
  src := mask 4 f.srcId
  dst := mask 4 f.dstId
  rem_lt := hrem
  seq_lt := mask_lt _ _
  src_lt := mask_lt _ _
  dst_lt := mask_lt _ _

/-- The inner part that `encode` writes for `f`. -/
def Frame.innerOf (hlen : f.payload.length < 256 ^ 2) : Inner where
  maj := UInt8.ofNat (mask 1 f.major)
  mn := UInt8.ofNat (mask 1 f.minor)
  csum := f.computedChecksum flag
  dlen := f.payload.length
  csum_lt := f.computedChecksum_lt flag
  dlen_lt := hlen

/-- The header of `encode` over the layout, with its zero checksum slot. -/
theorem packHeader_eq (rem : ℕ) (hrem : rem < 256 ^ 2) :
    f.packHeader flag = (f.headOf flag rem hrem).structBytes flag
      ++ [UInt8.ofNat (mask 1 f.major), UInt8.ofNat (mask 1 f.minor)]
      ++ toBytes 2 0 ++ toBytes 2 f.payload.length := by
  simp only [Frame.packHeader, Head.structBytes, Frame.headOf, toBytes, List.cons_append,
    List.nil_append]

/-- Patching the checksum into the slot gives the struct bytes of the layout. -/
theorem patched_struct (rem : ℕ) (hrem : rem < 256 ^ 2) (hlen : f.payload.length < 256 ^ 2) :
    (f.packHeader flag ++ f.payload).take csumOffsetLow ++ toBytes 2 (f.computedChecksum flag)
      ++ (f.packHeader flag ++ f.payload).drop (csumOffsetHigh + 1) =
    (f.headOf flag rem hrem).structBytes flag ++ ((f.innerOf flag hlen).bytes ++ f.payload) := by
  rw [packHeader_eq f flag rem hrem]
  simp only [List.append_assoc]
  rw [← List.append_assoc (Head.structBytes _ _), List.take_left' (by simp),
    ← List.append_assoc (_ ++ _) (toBytes 2 0), List.drop_left' (by simp)]
  simp only [Inner.bytes, Frame.innerOf, List.append_assoc]

/-- A header is packed to twenty-one bytes. -/
@[simp] theorem length_packHeader : (f.packHeader flag).length = 21 := by
  simp [Frame.packHeader]

/-- The checksum `encode` computes is `computedChecksum`. -/
theorem checksum_packHeader :
    edpChecksum (f.packHeader flag ++ f.payload) f.payload.length =
      .ok (f.computedChecksum flag) :=
  edpChecksum_eq _ _ (by simp; omega)

/-- The zero bytes that fill up the encrypted part of a frame of `len` payload bytes. -/
def padding (len : ℕ) : Bytes := List.replicate ((16 - (6 + len) % 16) % 16) 0

/-- The padded part is made of whole blocks. -/
theorem dvd_padded (len : ℕ) : 16 ∣ 6 + len + (padding len).length := by
  simp only [padding, List.length_replicate]
  omega

/-- `encode` without a key. -/
theorem encode_clear (aes : AesEcb) (hlen : f.payload.length ≤ 65514) :
    f.encode aes none = .ok
      ((f.headOf f.srcFlag (21 + f.payload.length) (by omega)).bytes
        ++ ((f.innerOf f.srcFlag (by omega)).bytes ++ f.payload),
       { f with checksum := f.computedChecksum f.srcFlag }) := by
  have hpatch := patched_struct f f.srcFlag (21 + f.payload.length) (by omega) (by omega)
  unfold Frame.encode
  simp only [Option.isSome_none, Bool.false_eq_true, if_false, checksum_packHeader, hpatch, bind,
    Except.bind, pure, Except.pure, throw, throwThe, MonadExceptOf.throw]
  simp only [List.length_append, Head.length_structBytes, Inner.length_bytes, maxFrameLen]
  rw [if_neg (by omega), if_neg (by omega), show 15 + (6 + f.payload.length) = 21 + f.payload.length
    from by omega]
  rfl

/-- Encrypting struct bytes pads their tail to whole blocks and keeps the head. -/
theorem encryptPayload_eq (aes : AesEcb) (h : Head) (n : Inner) (payload k : Bytes)
    (hk : k.length = 16) :
    encryptPayload aes (h.structBytes flag ++ (n.bytes ++ payload)) k =
      .ok (h.structBytes flag
        ++ aes.encrypt k (n.bytes ++ (payload ++ padding payload.length))) := by
  unfold encryptPayload
  simp only [aesBlockSize]
  rw [if_neg (by simpa using hk), List.take_left' (by simp), List.drop_left' (by simp)]
  simp only [padding, List.length_append, Inner.length_bytes, List.append_assoc]

/-- The encrypted part has the length of the padded plaintext. -/
theorem length_encrypt_padded (aes : AesEcb) (n : Inner) (payload k : Bytes)
    (hk : k.length = 16) :
    (aes.encrypt k (n.bytes ++ (payload ++ padding payload.length))).length =
      6 + payload.length + (padding payload.length).length := by
  have hdvd := dvd_padded payload.length
  have hlen : (n.bytes ++ (payload ++ padding payload.length)).length =
      6 + payload.length + (padding payload.length).length := by
    simp only [List.length_append, Inner.length_bytes]
    omega
  rw [aes.length_encrypt k _ hk (by rwa [hlen]), hlen]

/-- `encode` under a 16-byte key. -/
theorem encode_encrypted (aes : AesEcb) (k : Bytes) (hk : k.length = 16)
    (hlen : f.payload.length ≤ 65514) :
    f.encode aes (some k) = .ok
      ((f.headOf (f.srcFlag ||| flagEncrypted)
          (21 + f.payload.length + (padding f.payload.length).length)
          (by simp only [padding, List.length_replicate]; omega)).bytes
        ++ aes.encrypt k ((f.innerOf (f.srcFlag ||| flagEncrypted) (by omega)).bytes
          ++ (f.payload ++ padding f.payload.length)),
       { f with checksum := f.computedChecksum (f.srcFlag ||| flagEncrypted) }) := by
  have hpad : (padding f.payload.length).length = (16 - (6 + f.payload.length) % 16) % 16 :=
    List.length_replicate
  have hrem : 21 + f.payload.length + (padding f.payload.length).length < 256 ^ 2 := by omega
  have hpatch := patched_struct f (f.srcFlag ||| flagEncrypted) _ hrem (by omega)
  have henc := encryptPayload_eq (f.srcFlag ||| flagEncrypted) aes
    (f.headOf (f.srcFlag ||| flagEncrypted) _ hrem)
    (f.innerOf (f.srcFlag ||| flagEncrypted) (by omega)) f.payload k hk
  have hct := length_encrypt_padded aes (f.innerOf (f.srcFlag ||| flagEncrypted) (by omega))
    f.payload k hk
  unfold Frame.encode
  simp only [Option.isSome_some, if_true, checksum_packHeader, hpatch, henc, bind, Except.bind,
    pure, Except.pure, throw, throwThe, MonadExceptOf.throw]
  simp only [List.length_append, Head.length_structBytes, hct, maxFrameLen]
  rw [if_neg (by omega), if_neg (by omega)]
  simp only [Head.bytes, List.append_assoc]
  rw [show 15 + (6 + f.payload.length + (padding f.payload.length).length) =
    21 + f.payload.length + (padding f.payload.length).length from by omega]
  rfl

/-- `encode` of a payload that is too long raises a plain `ValueError`. -/
theorem encode_too_large (aes : AesEcb) (key : Option Bytes) (hkey : ∀ k ∈ key, k.length = 16)
    (hlen : 65514 < f.payload.length) :
    ∃ e, f.encode aes key = .error e ∧ e.cls = .valueError := by
  by_cases hmax : f.payload.length > maxFrameLen
  · refine ⟨.payloadTooLarge f.payload.length, ?_, rfl⟩
    unfold Frame.encode
    simp only [hmax, if_true, bind, Except.bind, throw, throwThe, MonadExceptOf.throw]
  have hlt : f.payload.length < 256 ^ 2 := by simp only [maxFrameLen] at hmax; omega
  cases key with
  | none =>
      have hpatch := patched_struct f f.srcFlag 0 (by omega) hlt
      refine ⟨.frameTooLarge (21 + f.payload.length) f.payload.length, ?_, rfl⟩
      unfold Frame.encode
      simp only [hmax, if_false, Option.isSome_none, Bool.false_eq_true, checksum_packHeader,
        hpatch, bind, Except.bind, pure, Except.pure, throw, throwThe, MonadExceptOf.throw]
      simp only [List.length_append, Head.length_structBytes, Inner.length_bytes, maxFrameLen]
      rw [if_pos (by omega), show 15 + (6 + f.payload.length) = 21 + f.payload.length from by omega]
  | some k =>
      have hk := hkey k rfl
      have hpatch := patched_struct f (f.srcFlag ||| flagEncrypted) 0 (by omega) hlt
      have henc := encryptPayload_eq (f.srcFlag ||| flagEncrypted) aes
        (f.headOf (f.srcFlag ||| flagEncrypted) 0 (by omega))
        (f.innerOf (f.srcFlag ||| flagEncrypted) hlt) f.payload k hk
      have hct := length_encrypt_padded aes (f.innerOf (f.srcFlag ||| flagEncrypted) hlt)
        f.payload k hk
      refine ⟨.frameTooLarge (15 + (6 + f.payload.length + (padding f.payload.length).length))
        f.payload.length, ?_, rfl⟩
      unfold Frame.encode
      simp only [hmax, if_false, Option.isSome_some, if_true, checksum_packHeader, hpatch, henc,
        bind, Except.bind, pure, Except.pure, throw, throwThe, MonadExceptOf.throw]
      simp only [List.length_append, Head.length_structBytes, hct, maxFrameLen]
      rw [if_pos (by omega)]

end Encode

end Spcedp.Wire
