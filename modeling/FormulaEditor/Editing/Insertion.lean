import FormulaEditor.Editing.Editor
import FormulaEditor.Settings.Basic

/-
  This file inserts characters and constructs at the caret
  of an editor.

  Key definitions include:
    * `Editor.type`
    * `Editor.addFraction`
    * `Editor.addLimit`
    * `Editor.trigger`
-/

namespace FormulaEditor

namespace Editor

/- Type a character. -/
def type
    (editor : Editor)
    (c : Char) :
    Outcome :=
  match editor.cursor with
  | .error refusal => .refused editor refusal
  | .ok cursor => editor.put (cursor.type c)

/-
  Insert a node with fresh identities and go into its first
  row.  The identities are used up even when the region of
  the caret is gone.
-/
def insert
    (editor : Editor)
    (content : Node Unit)
    (first : Slot)
    (selected : Bool) :
    Outcome :=
  let id := editor.document.next
  let (node, document) := editor.document.adopt content
  let editor : Editor := { editor with document }
  match editor.cursor with
  | .error refusal => .refused editor refusal
  | .ok cursor =>
      match editor.put? (cursor.insert node) with
      | none => .refused editor .regionGone
      | some changed =>
          .done
            { changed with
              caret := ⟨.slot id first, 0, 0, selected⟩ }

/- Insert an empty fraction and go into its numerator. -/
def addFraction
    (editor : Editor) :
    Outcome :=
  editor.insert (.emptyFraction ()) .numerator false

/- Insert a limit and select its subscript. -/
def addLimit
    (editor : Editor)
    (limit : LimitTemplate) :
    Outcome :=
  editor.insert limit.node .subscript true

/- Remove the word `lim` before an unselected caret. -/
def takeLim?
    (editor : Editor) :
    Option Editor :=
  if editor.caret.selected then
    none
  else
    match editor.cursor with
    | .error _ => none
    | .ok cursor =>
        match cursor.takeLim? with
        | none => none
        | some changed => editor.put? changed

/-
  Insert a limit in place of the word `lim` right before the
  caret, or a fraction when that word is not there.
-/
def trigger
    (editor : Editor)
    (limit : LimitTemplate) :
    Outcome :=
  match editor.takeLim? with
  | none => editor.addFraction
  | some changed => changed.addLimit limit

end Editor

end FormulaEditor
