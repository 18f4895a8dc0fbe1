/-
  This file defines text, its blank characters, and the
  cutting of blanks from both ends of a text.

  Key definitions include:
    * `Text`
    * `isBlank`
    * `isControl`
    * `Text.trim`

  Key theorems include:
    * `Text.length_trim_le`
-/

namespace FormulaEditor

------------------------------------------------------------
-- Characters
------------------------------------------------------------

/- A text is the list of its characters. -/
abbrev Text :=
  List Char

/-
  Code point ranges of the blank characters, both ends
  included: every character with the Unicode property
  `White_Space`.
-/
def blankRanges : List (Nat × Nat) :=
  [ (0x0009, 0x000D), (0x0020, 0x0020), (0x0085, 0x0085),
    (0x00A0, 0x00A0), (0x1680, 0x1680), (0x2000, 0x200A),
    (0x2028, 0x2029), (0x202F, 0x202F), (0x205F, 0x205F),
    (0x3000, 0x3000) ]

/- A character is blank when it lies in a blank range. -/
def isBlank
    (c : Char) :
    Bool :=
  blankRanges.any
    fun range => range.1 ≤ c.toNat && c.toNat ≤ range.2

/- The control characters, below and above the letters. -/
def isControl
    (c : Char) :
    Bool :=
  c.toNat < 0x20 || (0x7F ≤ c.toNat && c.toNat ≤ 0x9F)

/- A line ends before a line feed or a carriage return. -/
def isLineBreak
    (c : Char) :
    Bool :=
  c == '\n' || c == '\r'

------------------------------------------------------------
-- Trimming
------------------------------------------------------------

namespace Text

/- Drop the blanks that a text starts with. -/
def trimStart
    (s : Text) :
    Text :=
  s.dropWhile isBlank

/- Drop the blanks that a text ends with. -/
def trimEnd
    (s : Text) :
    Text :=
  (s.reverse.dropWhile isBlank).reverse

/- Drop the blanks at both ends of a text. -/
def trim
    (s : Text) :
    Text :=
  trimEnd (trimStart s)

/- Trimming the start never lengthens a text. -/
theorem length_trimStart_le
    (s : Text) :
    (trimStart s).length ≤ s.length :=
  (List.dropWhile_suffix isBlank).length_le

/- Trimming the end never lengthens a text. -/
theorem length_trimEnd_le
    (s : Text) :
    (trimEnd s).length ≤ s.length := by
  have hDrop :=
    (List.dropWhile_suffix (l := s.reverse) isBlank).length_le
  simpa [trimEnd] using hDrop

/- Trimming never lengthens a text. -/
theorem length_trim_le
    (s : Text) :
    (trim s).length ≤ s.length :=
  Nat.le_trans
    (length_trimEnd_le (trimStart s))
    (length_trimStart_le s)

end Text

end FormulaEditor
