import Sigma16.Word

namespace Sigma16

/-- Why a text is not the hexadecimal form of a word. -/
inductive HexError where
  | missingDigits
  /-- A character is no hexadecimal digit, or there is a sign but no digit. -/
  | invalidDigit
  | tooLarge
  deriving DecidableEq, Repr

namespace HexError

def message : HexError → String
  | missingDigits => "cannot parse integer from empty string"
  | invalidDigit => "invalid digit found in string"
  | tooLarge => "number too large to fit in target type"

end HexError

namespace Word

/-- The four lower-case hexadecimal digits of a word. -/
def toHex (word : Word) : String :=
  let digit (place : Nat) : Char := Nat.digitChar (word.toNat / place % 16)
  String.ofList [digit 4096, digit 256, digit 16, digit 1]

/-- The value of a hexadecimal digit, which may be of either case. -/
def hexDigit? (char : Char) : Option Nat :=
  if '0' ≤ char ∧ char ≤ '9' then some (char.toNat - '0'.toNat)
  else if 'a' ≤ char ∧ char ≤ 'f' then some (char.toNat - 'a'.toNat + 10)
  else if 'A' ≤ char ∧ char ≤ 'F' then some (char.toNat - 'A'.toNat + 10)
  else none

/-- Reads the digits that follow those with the given value. The first digit
    at which the text goes wrong decides the error. -/
def readHex (value : Nat) : List Char → Except HexError Nat
  | [] => .ok value
  | char :: chars =>
    match hexDigit? char with
    | none => .error .invalidDigit
    | some digit =>
      if value * 16 + digit < UInt16.size then readHex (value * 16 + digit) chars
      else .error .tooLarge

/-- Reads one or more hexadecimal digits with at most one plus sign before
    them. -/
def ofHex : List Char → Except HexError Word
  | [] => .error .missingDigits
  | ['+'] => .error .invalidDigit
  | '+' :: chars => (readHex 0 chars).map UInt16.ofNat
  | chars => (readHex 0 chars).map UInt16.ofNat

/-- Drops the marks that announce hexadecimal digits: any number of `0x`, and
    after them any number of dollar signs. -/
def dropRadixMarks : List Char → List Char
  | '0' :: 'x' :: chars => dropRadixMarks chars
  | chars => chars.dropWhile (· = '$')

/-- Reads a word as it is written on the command line. -/
def ofText (text : String) : Except HexError Word :=
  ofHex (dropRadixMarks text.toList)

theorem hexDigit?_digitChar {digit : Nat} (hdigit : digit < 16) :
    hexDigit? (Nat.digitChar digit) = some digit := by
  decide +revert

end Word

end Sigma16
