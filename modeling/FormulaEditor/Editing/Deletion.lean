import FormulaEditor.Editing.Editor

/-
  This file deletes backwards from the caret of an editor.

  Key definitions include:
    * `Editor.removeOwner`
    * `Editor.backspace`
-/

namespace FormulaEditor

namespace Editor

/-
  Remove the node with an identity and put the caret where
  it was.
-/
def removeOwner
    (editor : Editor)
    (id : Identity) :
    Outcome :=
  let document := editor.document
  match document.path? id with
  | none => .refused editor .constructGone
  | some path =>
      match document.regionOf? path,
          document.rowAt? path.steps with
      | some region, some row =>
          match row.cursor? path.index 0 with
          | some ⟨left, _ :: right, _⟩ =>
              let cursor := Cursor.join left right
              match document.setRowAt? path.steps
                  cursor.row with
              | none => .refused editor .regionGone
              | some document =>
                  .done
                    ⟨document,
                      ⟨region, cursor.index, cursor.offset,
                        false⟩⟩
          | _ => .refused editor .outOfRange
      | _, _ => .refused editor .regionGone

/-
  Delete backwards.  A selected region is emptied, and at
  the very start of a slot the construct that owns it is
  removed.
-/
def backspace
    (editor : Editor) :
    Outcome :=
  match editor.cursor with
  | .error refusal => .refused editor refusal
  | .ok cursor =>
      if editor.caret.selected then
        editor.put cursor
      else
        match cursor.eraseBack, editor.caret.region with
        | .ok erased, _ => editor.put erased
        | .error .nothingBefore, .slot owner _ =>
            editor.removeOwner owner
        | .error refusal, _ => .refused editor refusal

end Editor

end FormulaEditor
