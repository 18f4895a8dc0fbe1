import FormulaEditor.Editing.Cursor
import FormulaEditor.Proofs.Formula.Legibility
import FormulaEditor.Proofs.Formula.Relabelling

/-
  This file proves that the edits at a place of a row look
  at its content only: that what they make of a row, but for
  identities, is what they make of the row's content.

  Key definitions include:
    * `Node.content`
    * `Cursor.content`

  Key theorems include:
    * `Cursor.content_join`
    * `Cursor.content_type`
    * `Cursor.content_insert`
    * `Cursor.content_takeLim?`
    * `Cursor.content_eraseBack`
-/

namespace FormulaEditor

variable {ι κ : Type}

------------------------------------------------------------
-- Lookups That Agree
------------------------------------------------------------

/- Two lookups that agree both fail, or both find. -/
theorem map_eq_map_cases
    {α β γ : Type}
    {f : α → γ}
    {g : β → γ}
    {found : Option α}
    {found' : Option β}
    (hAgree : found.map f = found'.map g) :
    (found = none ∧ found' = none) ∨
      ∃ a b, found = some a ∧ found' = some b ∧ f a = g b := by
  cases found with
  | none =>
      cases found' with
      | none => exact .inl ⟨rfl, rfl⟩
      | some b => cases hAgree
  | some a =>
      cases found' with
      | none => cases hAgree
      | some b =>
          exact .inr ⟨a, b, rfl, rfl, Option.some.inj hAgree⟩

------------------------------------------------------------
-- Rows
------------------------------------------------------------

/- A node without its identities. -/
def Node.content
    (node : Node ι) :
    Node Unit :=
  node.mapIds fun _ => ()

/-
  Nodes of the same kind, with the same characters where
  they have any.
-/
inductive Node.Alike :
    Node ι → Node κ → Prop where
  | text (run : Text) : Alike (.text run) (.text run)
  | construct
      (kind : Kind)
      (id : ι)
      (id' : κ)
      (first second : Row ι)
      (first' second' : Row κ) :
      Alike (.construct kind id first second)
        (.construct kind id' first' second')
  | continuation (id : ι) (id' : κ) (content : Text) :
      Alike (.continuation id content)
        (.continuation id' content)

/- Nodes with the same content are alike. -/
theorem Node.alike_of_content
    {node : Node ι}
    {node' : Node κ}
    (hContent : node.content = node'.content) :
    node.Alike node' := by
  rw [content, content] at hContent
  cases node with
  | text run =>
      cases node' with
      | text run' =>
          rcases Node.text.inj hContent with rfl
          exact .text run
      | construct => cases hContent
      | continuation => cases hContent
  | construct kind id first second =>
      cases node' with
      | text run' => cases hContent
      | construct kind' id' first' second' =>
          rcases (Node.construct.inj hContent).1 with rfl
          exact .construct kind id id' _ _ _ _
      | continuation => cases hContent
  | continuation id content =>
      cases node' with
      | text run' => cases hContent
      | construct => cases hContent
      | continuation id' content' =>
          rcases (Node.continuation.inj hContent).2 with rfl
          exact .continuation id id' content

namespace Row

/- A row is stripped of its identities node by node. -/
theorem content_eq_map
    (row : Row ι) :
    row.content = row.map Node.content :=
  mapIds_eq_map _ row

@[simp] theorem length_content
    (row : Row ι) :
    row.content.length = row.length := by
  rw [content_eq_map, List.length_map]

theorem getElem?_content
    (row : Row ι)
    (index : Nat) :
    row.content[index]? = row[index]?.map Node.content := by
  rw [content_eq_map, List.getElem?_map]

section Same

variable {row : Row ι} {row' : Row κ}
variable (hRows : row.content = row'.content)

include hRows

/- Rows with the same content have the same nodes. -/
theorem getElem?_cases
    (index : Nat) :
    (row[index]? = none ∧ row'[index]? = none) ∨
      ∃ node node', row[index]? = some node ∧
        row'[index]? = some node' ∧
          node.content = node'.content := by
  refine map_eq_map_cases ?_
  rw [← getElem?_content, ← getElem?_content, hRows]

/- Rows with the same content are of the same length. -/
theorem length_eq_of_content :
    row.length = row'.length := by
  rw [← length_content row, hRows, length_content]

end Same

end Row

namespace Cursor

/- A cursor without its identities. -/
def content
    (cursor : Cursor ι) :
    Cursor Unit :=
  ⟨Row.content cursor.left, Row.content cursor.right,
    cursor.offset⟩

------------------------------------------------------------
-- Opening and Closing a Row
------------------------------------------------------------

/- A row is opened where its content is. -/
theorem cursor?_content
    (row : Row ι)
    (index offset : Nat) :
    row.content.cursor? index offset =
      (row.cursor? index offset).map content := by
  rw [Row.cursor?, Row.cursor?, Row.length_content]
  split
  · simp only [Option.map_some, content, Row.content_eq_map,
      List.map_reverse, List.map_take, List.map_drop]
  · rfl

/- The content of a row that has been opened. -/
theorem content_row
    (cursor : Cursor ι) :
    cursor.row.content = cursor.content.row := by
  simp only [row, content, Row.content_eq_map,
    List.map_append, List.map_reverse]

theorem index_content
    (cursor : Cursor ι) :
    cursor.content.index = cursor.index :=
  Row.length_content cursor.left

/- Rows are brought together as their contents are. -/
theorem content_join
    (left right : Row ι) :
    (join left right).content =
      join left.content right.content := by
  rcases left with _ | ⟨_ | _ | _, left⟩ <;>
    rcases right with _ | ⟨_ | _ | _, right⟩ <;> rfl

------------------------------------------------------------
-- Edits at a Place
------------------------------------------------------------

/- A character is typed into the content. -/
theorem content_type
    (cursor : Cursor ι)
    (c : Char) :
    (cursor.type c).content = cursor.content.type c := by
  rcases cursor with
    ⟨left, _ | ⟨_ | _ | _, _ | ⟨_ | _ | _, right⟩⟩, offset⟩ <;>
  rcases left with _ | ⟨_ | _ | _, left⟩ <;> rfl

/- A node is put into the content. -/
theorem content_insert
    (cursor : Cursor ι)
    (node : Node ι) :
    (cursor.insert node).content =
      cursor.content.insert node.content := by
  rcases cursor with ⟨left, _ | ⟨run | _ | _, right⟩, offset⟩
  · rfl
  · simp only [content, insert, Row.content, Row.mapIds,
      Node.mapIds]
    split
    · rfl
    · split <;> rfl
  · rfl
  · rfl

/- What a removal leaves of a run, in the content. -/
theorem content_withRun
    (left : Row ι)
    (run : Text)
    (right : Row ι)
    (offset : Nat) :
    (withRun left run right offset).content =
      withRun left.content run right.content offset := by
  cases run <;> rfl

/- The word `lim` is found in the content, and removed. -/
theorem content_takeLim?
    (cursor : Cursor ι) :
    cursor.content.takeLim? =
      cursor.takeLim?.map content := by
  rcases cursor with ⟨left, _ | ⟨run | _ | _, right⟩, offset⟩
  case cons.text =>
    simp only [content, Row.content, Row.mapIds, Node.mapIds,
      takeLim?, Option.map_map]
    congr 1
    funext kept
    rw [Function.comp_apply, content_withRun]
    rfl
  all_goals
    rcases left with _ | ⟨run | _ | _, left⟩
    case cons.text =>
      simp only [content, Row.content, Row.mapIds,
        Node.mapIds, takeLim?, Option.map_map]
      congr 1
      funext kept
      rw [Function.comp_apply, content_withRun]
      rfl
    all_goals rfl

/- What a deletion leaves of a run, in the content. -/
theorem content_keepRun
    (left : Row ι)
    (run : Text)
    (right : Row ι)
    (offset : Nat) :
    (keepRun left run right offset).content =
      keepRun left.content run right.content offset := by
  cases run with
  | nil => exact content_join left right
  | cons c run => rfl

/- Deleting backwards deletes from the content. -/
theorem content_eraseBack
    (cursor : Cursor ι) :
    cursor.content.eraseBack =
      cursor.eraseBack.map content := by
  rcases cursor with
    ⟨left, _ | ⟨run | _ | _, right⟩, _ | offset⟩
  case cons.text.succ =>
    simp only [content, Row.content, Row.mapIds, Node.mapIds,
      eraseBack]
    split
    · rw [Except.map, content_keepRun]
      rfl
    · rfl
  case cons.continuation.zero | cons.continuation.succ =>
    simp only [content, Row.content, Row.mapIds, Node.mapIds,
      eraseBack]
    rw [Except.map, content_join]
    rfl
  -- Otherwise the node before the place is erased.
  all_goals
    rcases left with _ | ⟨run | _ | _, left⟩
    case nil => rfl
    case cons.text =>
      simp only [content, Row.content, Row.mapIds,
        Node.mapIds, eraseBack]
      rw [Except.map, content_keepRun]
      rfl
    all_goals
      simp only [content, Row.content, Row.mapIds,
        Node.mapIds, eraseBack]
      rw [Except.map, content_join]
      rfl

------------------------------------------------------------
-- Cursors With the Same Content
------------------------------------------------------------

/- Rows with the same content are opened alike. -/
theorem cursor?_cases
    {row : Row ι}
    {row' : Row κ}
    (hRows : row.content = row'.content)
    (index offset : Nat) :
    (row.cursor? index offset = none ∧
        row'.cursor? index offset = none) ∨
      ∃ cursor cursor',
        row.cursor? index offset = some cursor ∧
          row'.cursor? index offset = some cursor' ∧
            cursor.content = cursor'.content := by
  refine map_eq_map_cases ?_
  rw [← cursor?_content, ← cursor?_content, hRows]

section Same

variable {cursor : Cursor ι} {cursor' : Cursor κ}
variable (hCursors : cursor.content = cursor'.content)

include hCursors

/- Cursors with the same content are in rows that have it. -/
theorem row_of_content :
    cursor.row.content = cursor'.row.content := by
  rw [content_row, hCursors, content_row]

/- Cursors with the same content have the same index. -/
theorem index_of_content :
    cursor.index = cursor'.index := by
  rw [← index_content, hCursors, index_content]

/- Cursors with the same content have the same offset. -/
theorem offset_of_content :
    cursor.offset = cursor'.offset :=
  congrArg (fun found : Cursor Unit => found.offset) hCursors

/- The word `lim` is before both of them, or neither. -/
theorem takeLim?_cases :
    (cursor.takeLim? = none ∧ cursor'.takeLim? = none) ∨
      ∃ taken taken', cursor.takeLim? = some taken ∧
        cursor'.takeLim? = some taken' ∧
          taken.content = taken'.content := by
  refine map_eq_map_cases ?_
  rw [← content_takeLim?, ← content_takeLim?, hCursors]

/- Deleting backwards does the same at both of them. -/
theorem eraseBack_cases :
    (∃ refusal, cursor.eraseBack = .error refusal ∧
        cursor'.eraseBack = .error refusal) ∨
      ∃ erased erased', cursor.eraseBack = .ok erased ∧
        cursor'.eraseBack = .ok erased' ∧
          erased.content = erased'.content := by
  have hAgree := congrArg Cursor.eraseBack hCursors
  rw [content_eraseBack, content_eraseBack] at hAgree
  cases hErase : cursor.eraseBack with
  | error refusal =>
      cases hErase' : cursor'.eraseBack with
      | error refusal' =>
          rw [hErase, hErase'] at hAgree
          rcases Except.error.inj hAgree with rfl
          exact .inl ⟨refusal, rfl, rfl⟩
      | ok erased' =>
          rw [hErase, hErase'] at hAgree
          cases hAgree
  | ok erased =>
      cases hErase' : cursor'.eraseBack with
      | error refusal' =>
          rw [hErase, hErase'] at hAgree
          cases hAgree
      | ok erased' =>
          rw [hErase, hErase'] at hAgree
          exact .inr
            ⟨erased, erased', rfl, rfl, Except.ok.inj hAgree⟩

end Same

end Cursor

end FormulaEditor
