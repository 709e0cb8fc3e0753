import Spcedp.Model.PyText

/-!
# SIA events

`spcedp/events.py`: a pushed event `E2[#spc|timestamp|code|address|description|extra|id]`
is split from both ends, so that a `|` inside the description stays there. Bytes are
decoded as UTF-8 first, with the replacement character for what does not decode.
-/

set_option autoImplicit false

namespace Spcedp.Events

open Spcedp.PyText

/-! ## Decoding bytes -/

@[simp] abbrev replacement : ℕ := 0xFFFD

/-- Between two bytes of a UTF-8 text: nothing begun, or a character with `need` bytes to
come, the next of them from `low` to `high`. -/
inductive Utf8
  | start
  | more (value need low high : ℕ)
  deriving DecidableEq, Repr

/-- The first byte of a character. -/
def utf8First (b : ℕ) : Text × Utf8 :=
  if b < 0x80 then ([b], .start)
  else if 0xC2 ≤ b ∧ b ≤ 0xDF then ([], .more (b - 0xC0) 1 0x80 0xBF)
  else if b = 0xE0 then ([], .more 0 2 0xA0 0xBF)
  else if b = 0xED then ([], .more 0xD 2 0x80 0x9F)
  else if 0xE1 ≤ b ∧ b ≤ 0xEF then ([], .more (b - 0xE0) 2 0x80 0xBF)
  else if b = 0xF0 then ([], .more 0 3 0x90 0xBF)
  else if b = 0xF4 then ([], .more 4 3 0x80 0x8F)
  else if 0xF1 ≤ b ∧ b ≤ 0xF3 then ([], .more (b - 0xF0) 3 0x80 0xBF)
  else ([replacement], .start)

/-- One byte. A byte that does not continue the character begun ends it with one
replacement character, and is then read as a first byte. -/
def utf8Byte (s : Utf8) (b : ℕ) : Text × Utf8 :=
  match s with
  | .start => utf8First b
  | .more value need low high =>
      if low ≤ b ∧ b ≤ high then
        let value := 64 * value + (b - 0x80)
        if need = 1 then ([value], .start) else ([], .more value (need - 1) 0x80 0xBF)
      else
        let (out, s) := utf8First b
        (replacement :: out, s)

def utf8Loop (s : Utf8) : List UInt8 → Text
  | [] => if s = .start then [] else [replacement]
  | b :: rest =>
      let (out, s) := utf8Byte s b.toNat
      out ++ utf8Loop s rest

/-- `payload.decode("utf-8", "replace")`. -/
def decodeUtf8 (payload : List UInt8) : Text := utf8Loop .start payload

/-- `payload.replace(b"\xa6", "¦".encode())`. -/
def replaceSeparator (payload : List UInt8) : List UInt8 :=
  payload.flatMap fun b => if b = 0xA6 then [0xC2, 0xA6] else [b]

/-! ## Events -/

structure DateTime where
  year : ℕ
  month : ℕ
  day : ℕ
  hour : ℕ
  minute : ℕ
  second : ℕ
  deriving DecidableEq, Repr

structure SiaEvent where
  spcId : ℕ
  timestamp : Option DateTime
  timestampRaw : Text
  siaCode : Text
  address : Text
  description : Text
  verificationId : Text
  extra : Text := []
  deriving DecidableEq, Repr

/-- The `ValueError`s of `SiaEvent.parse`: its own, and that of `int` for a number with
too many digits. -/
inductive SiaError
  | notAnEvent (payload : Text)
  | intLimit
  deriving DecidableEq, Repr

@[simp] abbrev pipe : ℕ := 0x7C

/-- The groups `spc`, `ts` and `rest` of `_ENVELOPE` in a stripped text, whose last
character is not a newline. -/
def matchEnvelope (s : Text) : Option (Text × Text × Text) :=
  if (text "E2[#").isPrefixOf s then
    let s := s.drop 4
    let spc := s.takeWhile isDecimal
    let s := s.dropWhile isDecimal
    let ts := (s.drop 1).take 14
    let rest := s.drop 16
    if spc ≠ [] ∧ s.head? = some pipe ∧ ts.length = 14 ∧ ts.all isDecimal ∧
        (s.drop 15).head? = some pipe ∧ rest.getLast? = some 0x5D then
      some (spc, ts, rest.dropLast)
    else none
  else none

/-- Split at the first `|`. -/
def splitPipe (s : Text) : Option (Text × Text) :=
  if pipe ∈ s then some (s.takeWhile (· ≠ pipe), (s.dropWhile (· ≠ pipe)).drop 1) else none

/-- Split at the last `|`. -/
def rsplitPipe (s : Text) : Option (Text × Text) :=
  (splitPipe s.reverse).map fun p => (p.2.reverse, p.1.reverse)

/-- Code, address, description, extra and verification id of the part behind the
timestamp. -/
def splitRest (rest : Text) : Option (Text × Text × Text × Text × Text) := do
  let (code, rest) ← splitPipe rest
  let (addr, tail) ← splitPipe rest
  let (tail, vid) ← rsplitPipe tail
  let (desc, extra) ← rsplitPipe tail
  return (code, addr, desc, extra, vid)

/-- The value of a run of decimal digits. -/
def digitsValue (s : Text) : ℕ := ofDigits (s.map fun c => (decimalValue c).getD 0)

def daysInMonth (year month : ℕ) : ℕ :=
  if month = 2 then if year % 4 = 0 ∧ (year % 100 ≠ 0 ∨ year % 400 = 0) then 29 else 28
  else if month ∈ [4, 6, 9, 11] then 30
  else 31

/-- The date-time that `HHMMSSDDMMYYYY` spells, if the calendar has it. -/
def parseTimestamp (tsRaw : Text) : Option DateTime :=
  let field (from_ to_ : ℕ) := digitsValue ((tsRaw.take to_).drop from_)
  let t : DateTime := {
    year := field 10 14
    month := field 8 10
    day := field 6 8
    hour := field 0 2
    minute := field 2 4
    second := field 4 6 }
  if 1 ≤ t.year ∧ 1 ≤ t.month ∧ t.month ≤ 12 ∧ 1 ≤ t.day ∧ t.day ≤ daysInMonth t.year t.month ∧
      t.hour < 24 ∧ t.minute < 60 ∧ t.second < 60 then some t
  else none

/-- `SiaEvent.parse` of a string. -/
def SiaEvent.parse (payload : Text) : Except SiaError SiaEvent :=
  match matchEnvelope (strip payload) with
  | none => .error (.notAnEvent payload)
  | some (spc, ts, rest) =>
      match splitRest rest with
      | none => .error (.notAnEvent payload)
      | some (code, addr, desc, extra, vid) =>
          if spc.length > maxStrDigits then .error .intLimit
          else .ok {
            spcId := digitsValue spc
            timestamp := parseTimestamp ts
            timestampRaw := ts
            siaCode := code
            address := addr
            description := desc
            extra := extra
            verificationId := vid }

/-- `SiaEvent.parse` of bytes. -/
def SiaEvent.parseBytes (payload : List UInt8) : Except SiaError SiaEvent :=
  SiaEvent.parse (decodeUtf8 (replaceSeparator payload))

end Spcedp.Events
