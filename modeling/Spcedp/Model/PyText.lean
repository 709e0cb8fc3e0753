import Mathlib

/-!
# Python text

What the sources use of `str`: a text is the list of its code points (lone surrogates
included, as in Python). The tables are those of the Unicode character database that
Python 3.14 is built with: the white space, the zeros of the runs of decimal digits, and
the characters of numeric type *Digit* that are not decimal.
-/

set_option autoImplicit false

namespace Spcedp.PyText

/-- A Python string, as its code points. -/
abbrev Text := List ℕ

/-- The text of a literal. -/
def text (s : String) : Text := s.toList.map Char.toNat

/-! ## Character classes -/

/-- `str.isspace` of one character; also what `str.strip` removes. -/
def isSpace (c : ℕ) : Bool :=
  (0x09 ≤ c && c ≤ 0x0D) || (0x1C ≤ c && c ≤ 0x20) || (0x2000 ≤ c && c ≤ 0x200A) ||
    c ∈ [0x85, 0xA0, 0x1680, 0x2028, 0x2029, 0x202F, 0x205F, 0x3000]

/-- The code points of the digits zero; the digits one to nine follow each of them. -/
def decimalZeros : List ℕ :=
  [0x30, 0x660, 0x6F0, 0x7C0, 0x966, 0x9E6, 0xA66, 0xAE6, 0xB66, 0xBE6, 0xC66, 0xCE6, 0xD66, 0xDE6,
    0xE50, 0xED0, 0xF20, 0x1040, 0x1090, 0x17E0, 0x1810, 0x1946, 0x19D0, 0x1A80, 0x1A90, 0x1B50,
    0x1BB0, 0x1C40, 0x1C50, 0xA620, 0xA8D0, 0xA900, 0xA9D0, 0xA9F0, 0xAA50, 0xABF0, 0xFF10, 0x104A0,
    0x10D30, 0x10D40, 0x11066, 0x110F0, 0x11136, 0x111D0, 0x112F0, 0x11450, 0x114D0, 0x11650,
    0x116C0, 0x116D0, 0x116DA, 0x11730, 0x118E0, 0x11950, 0x11BF0, 0x11C50, 0x11D50, 0x11DA0,
    0x11F50, 0x16130, 0x16A60, 0x16AC0, 0x16B50, 0x16D70, 0x1CCF0, 0x1D7CE, 0x1D7D8, 0x1D7E2,
    0x1D7EC, 0x1D7F6, 0x1E140, 0x1E2F0, 0x1E4F0, 0x1E5F1, 0x1E950, 0x1FBF0]

/-- First and last of the runs of characters that are digits, but not decimal ones. -/
def digitRuns : List (ℕ × ℕ) :=
  [(0xB2, 0xB3), (0xB9, 0xB9), (0x1369, 0x1371), (0x19DA, 0x19DA), (0x2070, 0x2070),
    (0x2074, 0x2079), (0x2080, 0x2089), (0x2460, 0x2468), (0x2474, 0x247C), (0x2488, 0x2490),
    (0x24EA, 0x24EA), (0x24F5, 0x24FD), (0x24FF, 0x24FF), (0x2776, 0x277E), (0x2780, 0x2788),
    (0x278A, 0x2792), (0x10A40, 0x10A43), (0x10E60, 0x10E68), (0x11052, 0x1105A),
    (0x1F100, 0x1F10A)]

/-- The value of a decimal digit: `\d` of `re`, and what `int` accepts. -/
def decimalValue (c : ℕ) : Option ℕ :=
  (decimalZeros.find? fun z => z ≤ c && c ≤ z + 9).map fun z => c - z

def isDecimal (c : ℕ) : Bool := (decimalValue c).isSome

/-- Numeric type *Decimal* or *Digit*. -/
def isDigitChar (c : ℕ) : Bool :=
  isDecimal c || digitRuns.any fun run => run.1 ≤ c && c ≤ run.2

/-! ## Methods of `str` -/

/-- `s.isdigit()`. -/
def isdigit (s : Text) : Bool := !s.isEmpty && s.all isDigitChar

/-- `s.strip()`. -/
def strip (s : Text) : Text := ((s.dropWhile isSpace).reverse.dropWhile isSpace).reverse

/-- `c.upper()`, exact on ASCII and on the characters whose capital form is ASCII text;
every other character stands for itself, which is not ASCII either. -/
def upperChar (c : ℕ) : Text :=
  if 0x61 ≤ c ∧ c ≤ 0x7A then [c - 0x20]
  else
    match c with
    | 0xDF => text "SS"
    | 0x131 => text "I"
    | 0x17F => text "S"
    | 0xFB00 => text "FF"
    | 0xFB01 => text "FI"
    | 0xFB02 => text "FL"
    | 0xFB03 => text "FFI"
    | 0xFB04 => text "FFL"
    | 0xFB05 | 0xFB06 => text "ST"
    | _ => [c]

/-- `s.upper()`. -/
def upper (s : Text) : Text := s.flatMap upperChar

/-! ## Integers -/

/-- The limit on the digits of an integer that is read or printed. -/
@[simp] abbrev maxStrDigits : ℕ := 4300

/-- White space around a number: inside ASCII, `int` knows fewer characters than `strip`. -/
def isIntSpace (c : ℕ) : Bool :=
  (0x09 ≤ c && c ≤ 0x0D) || c == 0x20 || (0x7F < c && isSpace c)

/-- The digits of `s`, where a single underscore may stand between two of them. -/
def intDigits (s : Text) : Option (List ℕ) :=
  if (s.splitOn 0x5F).all (!·.isEmpty) then (s.filter (· ≠ 0x5F)).mapM decimalValue else none

/-- The number that a list of decimal digits spells. -/
def ofDigits (ds : List ℕ) : ℕ := ds.foldl (fun n d => 10 * n + d) 0

/-- `int(s)` in base ten; `none` where Python raises `ValueError`. -/
def pyInt (s : Text) : Option ℤ := do
  let body := ((s.dropWhile isIntSpace).reverse.dropWhile isIntSpace).reverse
  let (negative, digits) := match body with
    | 0x2D :: rest => (true, rest)
    | 0x2B :: rest => (false, rest)
    | _ => (false, body)
  let ds ← intDigits digits
  if ds.length > maxStrDigits then none
  else return if negative then -(ofDigits ds : ℤ) else ofDigits ds

/-- `str(n)`; `none` where the number has too many digits and Python raises `ValueError`. -/
def pyStr (n : ℤ) : Option Text :=
  let digits := (Nat.toDigits 10 n.natAbs).map Char.toNat
  if digits.length > maxStrDigits then none
  else some (if n < 0 then 0x2D :: digits else digits)

/-- `s.encode("ascii")`; `none` where Python raises `UnicodeEncodeError`. -/
def encodeAscii (s : Text) : Option (List UInt8) :=
  if s.all (· < 0x80) then some (s.map UInt8.ofNat) else none

/-- Does `pattern` occur in `s`? -/
def occursIn {α : Type} [DecidableEq α] (pattern s : List α) : Bool :=
  s.tails.any fun t => pattern.isPrefixOf t

end Spcedp.PyText
