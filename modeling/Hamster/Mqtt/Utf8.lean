import Hamster.Lib.Utf8

/-!
# Checking topic names

utf-8.c. A pointer is the memory from where it points to; a read behind the end of that
memory has no value.
-/
namespace Hamster.Mqtt.Utf8

open Lib.Bytes Lib.Utf8

/-- `valid_ranges` -/
def validRanges : List (List (Byte × Byte)) :=
  [[(0x00, 0x7F)],
    [(0xC2, 0xDF), (0x80, 0xBF)],
    [(0xE0, 0xE0), (0xA0, 0xBF), (0x80, 0xBF)],
    [(0xE1, 0xEC), (0x80, 0xBF), (0x80, 0xBF)],
    [(0xED, 0xED), (0x80, 0x9F), (0x80, 0xBF)],
    [(0xEE, 0xEF), (0x80, 0xBF), (0x80, 0xBF)],
    [(0xF0, 0xF0), (0x90, 0xBF), (0x80, 0xBF), (0x80, 0xBF)],
    [(0xF1, 0xF3), (0x80, 0xBF), (0x80, 0xBF), (0x80, 0xBF)],
    [(0xF4, 0xF4), (0x80, 0x8F), (0x80, 0xBF), (0x80, 0xBF)]]

/-- The inner loop. A `char` is signed. -/
def good : List (Byte × Byte) → List Byte → Option Bool
  | [], _ => some true
  | _ :: _, [] => none
  | (lower, upper) :: bytes, b :: data =>
    if b.toInt < lower.toInt ∨ upper.toInt < b.toInt then some false else good bytes data

/-- The outer loop. -/
def anyGood (charlen : Nat) (data : List Byte) : List (List (Byte × Byte)) → Option Bool
  | [] => some false
  | bytes :: ranges =>
    if bytes.length = charlen then
      match good bytes data with
      | none => none
      | some true => some true
      | some false => anyGood charlen data ranges
    else anyGood charlen data ranges

def charlenOf (b : Byte) : Nat :=
  if b &&& 128 = 0 then 1
  else if b &&& 0xF0 = 0xF0 then 4
  else if b &&& 0xE0 = 0xE0 then 3
  else 2

/-- The length of the character, if it is one; the pointer is moved behind it. -/
def utf8CharValidate (len : Int) : List Byte → Option (Option Nat)
  | [] => none
  | b :: data =>
    if len < charlenOf b then some none
    else (anyGood (charlenOf b) (b :: data) validRanges).map fun good =>
      if good then some (charlenOf b) else none

/-- From `curdata` on, `left` bytes in front of the end. A turn moves the pointer, so there are
not more of them than bytes. -/
def validateLoop (len : Int) : Nat → Int → List Byte → Option Bool
  | 0, left, _ => if left ≤ 0 then some true else none
  | turns + 1, left, curdata =>
    if left ≤ 0 then some true
    else
      match utf8CharValidate len curdata with
      | none => none
      | some none => some false
      | some (some n) => validateLoop len turns (left - n) (curdata.drop n)

/-- The first turn is taken whatever the sign of `len`. -/
def utf8Validate (len : Int) (data : List Byte) : Option Bool :=
  if len = 0 then some true
  else
    match utf8CharValidate len data with
    | none => none
    | some none => some false
    | some (some n) => validateLoop len len.toNat (len - n) (data.drop n)

/-- `strlen` becomes an `int`. `behind` is what is in memory behind the string. -/
def utf8ValidateString (string : CString) (behind : List Byte) : Option Bool :=
  utf8Validate (BitVec.ofNat 32 string.strlen).toInt (string.chars ++ 0 :: behind)

end Hamster.Mqtt.Utf8
