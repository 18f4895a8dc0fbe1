import FormulaEditor.Editing.Editor

/-
  This file moves the caret of an editor from construct to
  construct.  Leaving a construct needs a place to land on,
  which is a continuation, made if there is none yet.

  Key definitions include:
    * `Editor.landPast`
    * `Editor.forward`
    * `Editor.leave`
-/

namespace FormulaEditor

namespace Editor

/-
  Land right after the node with an identity: on the
  continuation there, at the end of the run there if
  `intoRun` is set, or else on a new continuation.
-/
def landPast
    (editor : Editor)
    (id : Identity)
    (placeholder : Char)
    (intoRun : Bool) :
    Outcome :=
  let document := editor.document
  match document.path? id with
  | none => .refused editor .constructGone
  | some path =>
      match document.regionOf? path,
          document.rowAt? path.steps with
      | some region, some row =>
          match row.cursor? (path.index + 1) 0 with
          | none => .refused editor .outOfRange
          | some ⟨left, right, _⟩ =>
              let land (document : Document) (offset : Nat) :=
                Outcome.done
                  ⟨document,
                    ⟨region, path.index + 1, offset, false⟩⟩
              match right, intoRun with
              | .continuation _ _ :: _, _ => land document 0
              | .text run :: _, true => land document run.length
              | _, _ =>
                  let (node, document) :=
                    document.adopt
                      (.continuation () [placeholder])
                  match document.setRowAt? path.steps
                      (left.reverse ++ node :: right) with
                  | none => .refused editor .regionGone
                  | some document => land document 0
      | _, _ => .refused editor .regionGone

/-
  Move forward: from the first row of a construct to the end
  of its second one, and from the second one to the place
  after the construct.
-/
def forward
    (editor : Editor)
    (placeholder : Char) :
    Outcome :=
  match editor.caret.region with
  | .root => .refused editor .nowhereToGo
  | .slot owner slot =>
      if editor.focus = .continuation then
        .refused editor .nowhereToGo
      else
        match slot.sibling? with
        | none => editor.landPast owner placeholder false
        | some sibling =>
            let region := Region.slot owner sibling
            match editor.document.region? region with
            | none => .refused editor .regionGone
            | some row =>
                .done { editor with caret := .atEndOf region row }

/- Leave the construct with an identity. -/
def leave
    (editor : Editor)
    (id : Identity)
    (placeholder : Char) :
    Outcome :=
  match editor.document.owner? id with
  | none => .refused editor .constructGone
  | some _ => editor.landPast id placeholder true

end Editor

end FormulaEditor
