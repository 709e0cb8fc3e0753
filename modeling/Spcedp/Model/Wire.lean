import Mathlib
import Spcedp.Lib.LittleEndian
import Spcedp.Lib.BlockCipher

/-!
# EDP v2 framing: checksum, encoding and decoding of one frame

`spcedp/wire.py` up to `_decrypt_in_buf`. A byte string is a list of `UInt8`, a
Python integer an `Int` (or an `ℕ` where the source masks or bounds it), and a
function that may raise returns `Except WireError`. Positions are the source's own:
offset 0 of the wire bytes is the length prefix, offset 0 of the *struct* bytes is
the protocol byte.

AES-128-ECB comes from the `cryptography` package; it enters as the parameter
`aes`, of which only what `WholeBlockCipher` lists is used.
-/

set_option autoImplicit false

namespace Spcedp.Wire

open Lib.LittleEndian Lib.BlockCipher

abbrev Bytes := List UInt8

/-- AES-128 in ECB mode: blocks and keys of 16 bytes. -/
abbrev AesEcb := WholeBlockCipher 16 16

/-! ## Constants -/

@[simp] abbrev protocolByte : UInt8 := 0x45
@[simp] abbrev protocolVersion : UInt8 := 0x02
@[simp] abbrev headerLen : ℕ := 23
@[simp] abbrev maxFrameLen : ℕ := 0xFFFF
@[simp] abbrev maxPlausibleFrame : ℕ := 16384
@[simp] abbrev resyncLimit : ℕ := 8192
@[simp] abbrev flagEncrypted : UInt8 := 0x01
@[simp] abbrev flagFromReceiver : UInt8 := 0x08
@[simp] abbrev encryptOffsetInWire : ℕ := 17
@[simp] abbrev aesBlockSize : ℕ := 16
@[simp] abbrev csumOffsetLow : ℕ := 0x11
@[simp] abbrev csumOffsetHigh : ℕ := 0x12
def csumInit : ℕ := 0xFFFF
def csumPoly : ℕ := 0xA097

inductive MajorCode
  | session
  | event
  | binaryCmd
  | xmlCmd
  deriving DecidableEq, Repr

@[simp] def MajorCode.value : MajorCode → ℤ
  | .session => 1
  | .event => 2
  | .binaryCmd => 4
  | .xmlCmd => 10

/-- The members of the source's `IntEnum`; its names of equal value are aliases. -/
inductive MinorCode
  | poll
  | pollAck
  | hello
  | helloAck
  deriving DecidableEq, Repr

namespace MinorCode

@[simp] def value : MinorCode → ℤ
  | poll => 0
  | pollAck => 1
  | hello => 2
  | helloAck => 3

@[simp] def eventPush : MinorCode := poll
@[simp] def eventAck : MinorCode := pollAck
@[simp] def request : MinorCode := poll
@[simp] def reply : MinorCode := pollAck
@[simp] def binaryReply : MinorCode := hello

end MinorCode

/-! ## Exceptions -/

/-- What the functions of `wire.py` raise: one constructor for each `raise`, with the
numbers of its message, and the two exceptions that reading outside a buffer gives. -/
inductive WireError
  | structTooShort (have_ need : ℕ)
  | payloadTooLarge (len : ℕ)
  | frameTooLarge (rem payloadLen : ℕ)
  | badKeyLength (len : ℕ)
  | headerTooShort (have_ : ℕ)
  | truncated (have_ total : ℕ)
  | badMagic (proto ver : UInt8)
  | encryptionRequired
  | payloadOverflow (dlen total : ℕ)
  | checksumMismatchAfterDecrypt
  | checksumMismatch
  | tailNotBlocks (len : ℕ)
  | gaveUpResyncing (dropped : ℕ)
  | indexError
  | structError
  deriving DecidableEq, Repr

/-- The Python classes the exceptions belong to. `EncryptionRequired` is a
`FrameDecodeError`, and that a `ValueError`. -/
inductive ErrorClass
  | valueError
  | frameDecodeError
  | encryptionRequired
  | indexError
  | structError
  deriving DecidableEq, Repr

def WireError.cls : WireError → ErrorClass
  | structTooShort _ _ | payloadTooLarge _ | frameTooLarge _ _ | badKeyLength _ => .valueError
  | headerTooShort _ | truncated _ _ | badMagic _ _ | payloadOverflow _ _
  | checksumMismatchAfterDecrypt | checksumMismatch | tailNotBlocks _
  | gaveUpResyncing _ => .frameDecodeError
  | encryptionRequired => .encryptionRequired
  | indexError => .indexError
  | structError => .structError

/-! ## Reading a buffer -/

/-- `buf[i]`. -/
def byteAt (buf : Bytes) (i : ℕ) : Except WireError UInt8 :=
  match buf[i]? with
  | some b => .ok b
  | none => .error .indexError

/-- `struct.unpack_from` of one little-endian field of `width` bytes at `off`. -/
def unpackFrom (width : ℕ) (buf : Bytes) (off : ℕ) : Except WireError ℕ :=
  if off + width ≤ buf.length then .ok (ofBytes ((buf.drop off).take width))
  else .error .structError

/-- `n & (2 ** (8 * width) - 1)` for a Python integer of either sign. -/
def mask (width : ℕ) (n : ℤ) : ℕ := (n % 256 ^ width).toNat

/-! ## Checksum -/

/-- One round of the loop of `edp_checksum`: shift the state left, add the byte to its
low half without carry, and XOR the polynomial if the high bit was shifted out. -/
def checksumByte (low high : ℕ) (b : UInt8) : ℕ × ℕ :=
  let carry := high &&& 0x80
  let state := (((high <<< 8) ||| low) <<< 1) &&& 0xFFFF
  let low := ((state &&& 0xFF) + b.toNat) &&& 0xFF
  let high := (state >>> 8) &&& 0xFF
  if carry ≠ 0 then (low ^^^ (csumPoly &&& 0xFF), high ^^^ ((csumPoly >>> 8) &&& 0xFF))
  else (low, high)

/-- The loop of `edp_checksum` at index `i`; the checksum slot itself is skipped. -/
def checksumRound (structBytes : Bytes) (s : ℕ × ℕ) (i : ℕ) : ℕ × ℕ :=
  if i = csumOffsetLow ∨ i = csumOffsetHigh then s
  else checksumByte s.1 s.2 (structBytes.getD i 0)

/-- The loop of `edp_checksum` over the first `stop` struct bytes. -/
def checksumLoop (structBytes : Bytes) (stop : ℕ) : ℕ × ℕ :=
  (List.range stop).foldl (checksumRound structBytes) (csumInit &&& 0xFF, (csumInit >>> 8) &&& 0xFF)

def edpChecksum (structBytes : Bytes) (dlen : ℕ) : Except WireError ℕ :=
  let stop := dlen + 0x15
  if structBytes.length < stop then .error (.structTooShort structBytes.length stop)
  else
    let (low, high) := checksumLoop structBytes stop
    .ok ((high <<< 8) ||| low)

/-! ## Frames -/

/-- One EDP frame. `srcFlag` is a byte: `struct.pack` accepts no other value for it. -/
structure Frame where
  srcId : ℤ
  dstId : ℤ
  sequence : ℤ
  major : ℤ
  minor : ℤ
  payload : Bytes := []
  checksum : ℕ := 0
  srcFlag : UInt8 := 0
  deriving DecidableEq, Repr

/-- Encrypt struct offsets 15 and up, zero-padded to whole blocks. -/
def encryptPayload (aes : AesEcb) (structBytes key : Bytes) : Except WireError Bytes :=
  if key.length ≠ 16 then .error (.badKeyLength key.length)
  else
    let head := structBytes.take 15
    let tail := structBytes.drop 15
    let padLen := (aesBlockSize - tail.length % aesBlockSize) % aesBlockSize
    let tailPadded := tail ++ List.replicate padLen 0
    .ok (head ++ aes.encrypt key tailPadded)

/-- Decrypt the tail of a wire frame and clear the encrypted flag. -/
def decryptInBuf (aes : AesEcb) (buf key : Bytes) : Except WireError Bytes := do
  if key.length ≠ 16 then throw (.badKeyLength key.length)
  let head := buf.take encryptOffsetInWire
  let tail := buf.drop encryptOffsetInWire
  if tail.length % aesBlockSize ≠ 0 then throw (.tailNotBlocks tail.length)
  let out := head ++ aes.decrypt key tail
  let flags ← byteAt out 4
  return out.set 4 (flags &&& ~~~flagEncrypted)

namespace Frame

/-- `struct.pack("<BBBIIIBBHH", …)` of the header, with a zero checksum slot. -/
def packHeader (f : Frame) (srcFlag : UInt8) : Bytes :=
  [protocolByte, protocolVersion, srcFlag]
    ++ toBytes 4 (mask 4 f.sequence) ++ toBytes 4 (mask 4 f.srcId) ++ toBytes 4 (mask 4 f.dstId)
    ++ toBytes 1 (mask 1 f.major) ++ toBytes 1 (mask 1 f.minor)
    ++ toBytes 2 0 ++ toBytes 2 f.payload.length

/-- Serialize to wire bytes. The second component is the frame itself, whose
`checksum` field `encode` overwrites. -/
def encode (aes : AesEcb) (f : Frame) (key : Option Bytes) : Except WireError (Bytes × Frame) := do
  let srcFlag := if key.isSome then f.srcFlag ||| flagEncrypted else f.srcFlag
  if f.payload.length > maxFrameLen then throw (.payloadTooLarge f.payload.length)
  let structBytes := f.packHeader srcFlag ++ f.payload
  let checksum ← edpChecksum structBytes f.payload.length
  let structBytes := structBytes.take csumOffsetLow ++ toBytes 2 checksum
    ++ structBytes.drop (csumOffsetHigh + 1)
  let structBytes ← match key with
    | some k => encryptPayload aes structBytes k
    | none => pure structBytes
  let rem := structBytes.length
  if rem > maxFrameLen then throw (.frameTooLarge rem f.payload.length)
  return (toBytes 2 rem ++ structBytes, { f with checksum := checksum })

/-- `src_flag & FLAG_ENCRYPTED` as a truth value. -/
def encryptedBit (srcFlag : UInt8) : Bool := srcFlag &&& flagEncrypted ≠ 0

/-- The part of `decode` after the optional decryption: read the fields of the
cleartext `buf`, check the payload length and the checksum, build the frame. -/
def decodeFields (buf : Bytes) (total : ℕ) (srcFlag : UInt8) (encrypted : Bool) :
    Except WireError Frame := do
  let seq ← unpackFrom 4 buf 5
  let src ← unpackFrom 4 buf 9
  let dst ← unpackFrom 4 buf 13
  let maj ← byteAt buf 17
  let mn ← byteAt buf 18
  let csum ← unpackFrom 2 buf 19
  let dlen ← unpackFrom 2 buf 21
  if headerLen + dlen > total then throw (.payloadOverflow dlen total)
  let structForCsum := (buf.take total).drop 2
  if encrypted then
    -- `encode` computes the checksum with the flag set; `decryptInBuf` has cleared it.
    let flags ← byteAt structForCsum 2
    let c ← edpChecksum (structForCsum.set 2 (flags ||| flagEncrypted)) dlen
    if c ≠ csum then throw .checksumMismatchAfterDecrypt
  else
    let c ← edpChecksum structForCsum dlen
    if c ≠ csum then throw .checksumMismatch
  return {
    srcId := src
    dstId := dst
    sequence := seq
    major := maj.toNat
    minor := mn.toNat
    payload := (buf.drop headerLen).take dlen
    checksum := csum
    srcFlag := srcFlag &&& ~~~flagEncrypted }

def decode (aes : AesEcb) (buf : Bytes) (key : Option Bytes) : Except WireError Frame := do
  if buf.length < headerLen then throw (.headerTooShort buf.length)
  let rem ← unpackFrom 2 buf 0
  let total := rem + 2
  if buf.length < total then throw (.truncated buf.length total)
  let proto ← byteAt buf 2
  let ver ← byteAt buf 3
  if proto ≠ protocolByte ∨ ver ≠ protocolVersion then throw (.badMagic proto ver)
  let srcFlag ← byteAt buf 4
  let encrypted := encryptedBit srcFlag
  let buf ← if encrypted then
      match key with
      | none => throw .encryptionRequired
      | some k => decryptInBuf aes (buf.take total) k
    else pure buf
  decodeFields buf total srcFlag encrypted

end Frame

end Spcedp.Wire
