import FormulaEditor.Text.Blank

/-
  This file defines the placeholder characters, which only
  give a caret somewhere to sit and are never content.

  Key definitions include:
    * `placeholders`
    * `isPlaceholder`
    * `Text.dropPlaceholders`
    * `Text.withoutPlaceholders`
-/

namespace FormulaEditor

/- The no-break space and the zero-width space. -/
def placeholders : List Char :=
  ['\u00A0', '\u200B']

/- Whether a character is one of the placeholders. -/
def isPlaceholder
    (c : Char) :
    Bool :=
  placeholders.contains c

namespace Text

/- Drop one placeholder from the start, if one is there. -/
def dropFirst : Text → Text
  | [] => []
  | c :: rest => if isPlaceholder c then rest else c :: rest

/- Drop one placeholder from the end, if one is there. -/
def dropLastOne
    (s : Text) :
    Text :=
  (dropFirst s.reverse).reverse

/-
  Drop at most one placeholder from the start, and then at
  most one from the end of what is left.
-/
def dropPlaceholders
    (s : Text) :
    Text :=
  dropLastOne (dropFirst s)

/- Drop every placeholder. -/
def withoutPlaceholders
    (s : Text) :
    Text :=
  s.filter fun c => !isPlaceholder c

end Text

end FormulaEditor
