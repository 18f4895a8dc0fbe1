import FormulaEditor.Editing.Caret
import FormulaEditor.Editing.Cursor

/-
  This file defines editors, which are documents with a
  caret, and how a cursor is opened at the caret of an
  editor and put back.

  Key definitions include:
    * `Editor`
    * `Editor.cursor`
    * `Editor.put?`
    * `Outcome`
-/

namespace FormulaEditor

/- A document and a caret in it. -/
structure Editor where
  document : Document
  caret : Caret

namespace Editor

/- The editor of a document, with its caret at the end. -/
def atEnd
    (document : Document) :
    Editor :=
  ⟨document, document.lastCaret⟩

/- The focus of the caret. -/
def focus
    (editor : Editor) :
    Focus :=
  editor.document.focus editor.caret

/-
  Open the region of the caret at the caret.  A selected
  region is emptied.
-/
def cursor
    (editor : Editor) :
    Except Refusal (Cursor Identity) :=
  match editor.document.region? editor.caret.region with
  | none => .error .regionGone
  | some row =>
      if editor.caret.selected then
        .ok .empty
      else
        match row.cursor?
            editor.caret.index editor.caret.offset with
        | none => .error .outOfRange
        | some cursor => .ok cursor

/-
  Close the region of the caret again, with the caret at the
  place of the cursor.
-/
def put?
    (editor : Editor)
    (cursor : Cursor Identity) :
    Option Editor :=
  (editor.document.setRegion? editor.caret.region
      cursor.row).map
    fun document =>
      ⟨document,
        ⟨editor.caret.region, cursor.index, cursor.offset,
          false⟩⟩

end Editor

/-
  What an edit leads to: the editor afterwards, and why the
  edit was refused if it was.
-/
structure Outcome where
  editor : Editor
  refusal : Option Refusal

namespace Outcome

/- An edit that took place. -/
def done
    (editor : Editor) :
    Outcome :=
  ⟨editor, none⟩

/- An edit that was refused. -/
def refused
    (editor : Editor)
    (refusal : Refusal) :
    Outcome :=
  ⟨editor, some refusal⟩

/- Whether the edit took place. -/
def accepted
    (outcome : Outcome) :
    Bool :=
  outcome.refusal.isNone

end Outcome

/- Close the region of the caret, if it is still there. -/
def Editor.put
    (editor : Editor)
    (cursor : Cursor Identity) :
    Outcome :=
  match editor.put? cursor with
  | none => .refused editor .regionGone
  | some changed => .done changed

end FormulaEditor
