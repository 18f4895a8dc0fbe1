import FormulaEditor.Formula.Node
import FormulaEditor.Editing.Refusal

/-
  This file defines cursors: rows opened at a place, with
  the nodes on the left kept nearest first so that every
  edit next to the place is one match.

  Key definitions include:
    * `Cursor`
    * `Row.cursor?`
    * `Cursor.row`
    * `Cursor.join`
    * `Cursor.type`
    * `Cursor.insert`
    * `Cursor.takeLim?`
    * `Cursor.eraseBack`
-/

namespace FormulaEditor

variable {ι : Type}

------------------------------------------------------------
-- Opening and Closing a Row
------------------------------------------------------------

/-
  A row opened in front of the first node on the right.
  Where that node is a run, `offset` counts the characters
  of the run in front of the place.
-/
structure Cursor (ι : Type) where
  left : Row ι
  right : Row ι
  offset : Nat

/- Open a row at an index, if the row reaches that far. -/
def Row.cursor?
    (row : Row ι)
    (index offset : Nat) :
    Option (Cursor ι) :=
  if index ≤ row.length then
    some ⟨(row.take index).reverse, row.drop index, offset⟩
  else
    none

namespace Cursor

/- A place in a row that has been emptied. -/
def empty : Cursor ι :=
  ⟨[], [], 0⟩

/- The row that a cursor has been opened in. -/
def row
    (cursor : Cursor ι) :
    Row ι :=
  cursor.left.reverse ++ cursor.right

/- The index that a row has been opened at. -/
def index
    (cursor : Cursor ι) :
    Nat :=
  cursor.left.length

/-
  Bring two parts of a row together and join the runs that
  meet.  The place is the end of the run on the left, where
  there is one.
-/
def join : Row ι → Row ι → Cursor ι
  | .text run :: left, .text run' :: right =>
      ⟨left, .text (run ++ run') :: right, run.length⟩
  | .text run :: left, right =>
      ⟨left, .text run :: right, run.length⟩
  | left, right => ⟨left, right, 0⟩

------------------------------------------------------------
-- Typing and Inserting
------------------------------------------------------------

/-
  Type a character.  A continuation becomes a run of that
  character, together with a run that follows it; a run
  takes the character in; and the end of a run before the
  place is preferred to a run of its own.
-/
def type
    (c : Char) :
    Cursor ι → Cursor ι
  | ⟨left, .continuation _ _ :: .text run :: right, _⟩ =>
      ⟨left, .text (c :: run) :: right, 1⟩
  | ⟨left, .continuation _ _ :: right, _⟩ =>
      ⟨left, .text [c] :: right, 1⟩
  | ⟨left, .text run :: right, offset⟩ =>
      ⟨left,
        .text (run.take offset ++ c :: run.drop offset) ::
          right,
        offset + 1⟩
  | ⟨.text run :: left, right, _⟩ =>
      ⟨left, .text (run ++ [c]) :: right, run.length + 1⟩
  | ⟨left, right, _⟩ => ⟨left, .text [c] :: right, 1⟩

/-
  Put a node at the place.  It takes the place of a
  continuation, and it splits a run that it falls inside.
-/
def insert
    (node : Node ι) :
    Cursor ι → Cursor ι
  | ⟨left, .continuation _ _ :: right, _⟩ =>
      ⟨left, node :: right, 0⟩
  | ⟨left, .text run :: right, offset⟩ =>
      if (run.take offset).isEmpty then
        ⟨left, node :: .text run :: right, 0⟩
      else if (run.drop offset).isEmpty then
        ⟨.text run :: left, node :: right, 0⟩
      else
        ⟨.text (run.take offset) :: left,
          node :: .text (run.drop offset) :: right, 0⟩
  | ⟨left, right, _⟩ => ⟨left, node :: right, 0⟩

------------------------------------------------------------
-- Removing
------------------------------------------------------------

/- The word that turns the trigger into a limit. -/
def limWord : Text :=
  "lim".toList

/- Drop the word `lim` from the end of a text. -/
def dropLim?
    (s : Text) :
    Option Text :=
  if limWord.isSuffixOf s then
    some (s.take (s.length - limWord.length))
  else
    none

/-
  Put back what is left of a run that a removal has cut; an
  emptied run goes away without its neighbours being joined.
-/
def withRun
    (left : Row ι)
    (run : Text)
    (right : Row ι)
    (offset : Nat) :
    Cursor ι :=
  match run with
  | [] => ⟨left, right, 0⟩
  | c :: rest => ⟨left, .text (c :: rest) :: right, offset⟩

/- Remove the word `lim` right before the place. -/
def takeLim? : Cursor ι → Option (Cursor ι)
  | ⟨left, .text run :: right, offset⟩ =>
      (dropLim? (run.take offset)).map
        fun kept =>
          withRun left (kept ++ run.drop offset) right
            kept.length
  | ⟨.text run :: left, right, _⟩ =>
      (dropLim? run).map
        fun kept => withRun left kept right kept.length
  | _ => none

/-
  Put back what is left of a run that a deletion has cut; an
  emptied run goes away and its neighbours are joined.
-/
def keepRun
    (left : Row ι)
    (run : Text)
    (right : Row ι)
    (offset : Nat) :
    Cursor ι :=
  match run with
  | [] => join left right
  | c :: rest => ⟨left, .text (c :: rest) :: right, offset⟩

/-
  Delete backwards: the character before the place inside a
  run, the continuation at the place, or else the last
  character of the run, or the whole node, before the place.
-/
def eraseBack : Cursor ι → Except Refusal (Cursor ι)
  | ⟨left, .text run :: right, offset + 1⟩ =>
      if offset < run.length then
        .ok (keepRun left (run.eraseIdx offset) right offset)
      else
        .error .outOfRange
  | ⟨left, .continuation _ _ :: right, _⟩ =>
      .ok (join left right)
  | ⟨.text run :: left, right, _⟩ =>
      .ok (keepRun left run.dropLast right (run.length - 1))
  | ⟨_ :: left, right, _⟩ => .ok (join left right)
  | ⟨[], _, _⟩ => .error .nothingBefore

end Cursor

end FormulaEditor
