import FormulaEditor.Text.Blank
import FormulaEditor.Text.Unprintable

/-
  This file defines how a character is quoted in a message,
  so that every character can be told from every other.

  Key definitions include:
    * `quotedChar`
-/

namespace FormulaEditor

/- A number in hexadecimal, without leading zeros. -/
def hexadecimal
    (n : Nat) :
    Text :=
  Nat.toDigits 16 n

/-
  A character between quotes: a few are escaped by name, the
  other unprintable ones by code point, and the rest are
  written as they are.
-/
def escapedChar : Char → Text
  | '\x00' => ['\\', '0']
  | '\t' => ['\\', 't']
  | '\n' => ['\\', 'n']
  | '\r' => ['\\', 'r']
  | '\x27' => ['\\', '\x27']
  | '\\' => ['\\', '\\']
  | c =>
      if isUnprintable c then
        ['\\', 'u', '\x7b'] ++ hexadecimal c.toNat ++ ['\x7d']
      else
        [c]

/- A character in single quotes. -/
def quotedChar
    (c : Char) :
    Text :=
  '\x27' :: escapedChar c ++ ['\x27']

end FormulaEditor
