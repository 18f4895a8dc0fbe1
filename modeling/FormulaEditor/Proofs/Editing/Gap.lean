import FormulaEditor.Proofs.Editing.Placement

/-
  This file views a row with a caret as a gap buffer: the
  atoms before the caret and the atoms after it.  It proves
  that the cursor at a caret opens the row at this gap, that
  the caret of a closed cursor shows the gap of the cursor,
  and that the continuation that deleting backwards takes is
  no part of the gap.

  Key definitions include:
    * `Row.atoms`
    * `Gap`
    * `Row.gap`
    * `Cursor.gap`
    * `Editor.gap?`
    * `Row.continuationBack?`

  Key theorems include:
    * `Cursor.gap_row`
    * `Row.atoms_eq_gap`
    * `Editor.gap_eq_of_cursor`
    * `Cursor.gap_type`
    * `Cursor.gap_insert`
    * `Cursor.unlink?_cursor`
-/

namespace FormulaEditor

------------------------------------------------------------
-- Atoms
------------------------------------------------------------

/-
  The atoms of a row: every character of its runs and every
  construct, but no continuation.
-/
def Row.atoms
    {ι : Type}
    (row : Row ι) :
    Row ι :=
  row.cells.filter Node.isAtom

namespace Row

/- Continuations are no atoms, characters are. -/
@[simp] theorem filter_isAtom_chars
    {ι : Type}
    (run : Text) :
    (chars run : Row ι).filter Node.isAtom = chars run := by
  rw [List.filter_eq_self]
  intro node hMem
  rw [chars, List.mem_map] at hMem
  rcases hMem with ⟨c, _, rfl⟩
  rfl

end Row

------------------------------------------------------------
-- Gaps
------------------------------------------------------------

/- The atoms before a place and the atoms after it. -/
structure Gap where
  before : Row Identity
  after : Row Identity

/- The gap of a row that has been emptied. -/
def Gap.empty : Gap :=
  ⟨[], []⟩

/-
  The gap of a caret in a row.  A selected row is about to
  be overwritten, so its atoms do not count.
-/
def Row.gap
    (row : Row Identity)
    (caret : Caret) :
    Gap :=
  if caret.selected then
    .empty
  else
    match row[caret.index]? with
    | some (.text run) =>
        ⟨Row.atoms (row.take caret.index) ++
            Row.chars (run.take caret.offset),
          Row.chars (run.drop caret.offset) ++
            Row.atoms (row.drop (caret.index + 1))⟩
    | _ =>
        ⟨Row.atoms (row.take caret.index),
          Row.atoms (row.drop caret.index)⟩

/- The gap that a cursor has been opened at. -/
def Cursor.gap
    (cursor : Cursor Identity) :
    Gap :=
  ⟨cursor.before.filter Node.isAtom,
    cursor.after.filter Node.isAtom⟩

/- The gap of an editor, if the region of its caret exists. -/
def Editor.gap?
    (editor : Editor) :
    Option Gap :=
  (editor.document.region? editor.caret.region).map
    (·.gap editor.caret)

/- The index of a continuation right before an index. -/
def Row.continuationBefore?
    (row : Row Identity) :
    Nat → Option Nat
  | 0 => none
  | index + 1 =>
      match row[index]? with
      | some (.continuation _ _) => some index
      | _ => none

/-
  The index of the continuation that deleting backwards
  takes: the one under the caret, or else the one before the
  caret unless the caret is further inside a run.
-/
def Row.continuationBack?
    (row : Row Identity)
    (caret : Caret) :
    Option Nat :=
  match row[caret.index]?, caret.offset with
  | some (.continuation _ _), _ => some caret.index
  | some (.text _), _ + 1 => none
  | _, _ => row.continuationBefore? caret.index

------------------------------------------------------------
-- Gaps of Cursors
------------------------------------------------------------

namespace Cursor

open Row

/- The gap of a cursor has the atoms of its row. -/
theorem atoms_row
    (cursor : Cursor Identity) :
    cursor.row.atoms = cursor.gap.before ++ cursor.gap.after := by
  rw [atoms, cells_row, List.filter_append]
  rfl

/- What is ahead has the same atoms as what is after. -/
theorem filter_ahead
    (cursor : Cursor Identity) :
    cursor.ahead.filter Node.isAtom = cursor.gap.after := by
  rcases cursor with ⟨left, right, offset⟩
  cases right with
  | nil => rfl
  | cons node right => cases node <;> rfl

/- Typing puts one character before the place. -/
theorem gap_type
    (cursor : Cursor Identity)
    (c : Char) :
    (cursor.type c).gap =
      ⟨cursor.gap.before ++ [.text [c]],
        cursor.gap.after⟩ := by
  rw [gap, before_type, after_type, List.filter_append,
    filter_ahead]
  rfl

/- Inserting puts one construct after the place. -/
theorem gap_insert
    (cursor : Cursor Identity)
    {node : Node Identity}
    (hConstruct : node.isConstruct = true) :
    (cursor.insert node).gap =
      ⟨cursor.gap.before, node :: cursor.gap.after⟩ := by
  have hAtom : node.isAtom = true := by
    cases node with
    | text => rfl
    | construct => rfl
    | continuation => cases hConstruct
  rw [gap, before_insert cursor hConstruct,
    after_insert cursor hConstruct,
    List.filter_cons_of_pos hAtom, filter_ahead]
  rfl

/- Removing a continuation leaves the gap as it is. -/
theorem gap_of_unlink?_some
    {cursor unlinked : Cursor Identity}
    (hUnlink : cursor.unlink? = some unlinked) :
    unlinked.gap = cursor.gap := by
  rcases filter_unlink? hUnlink with ⟨hBefore, hAfter⟩
  rw [gap, hBefore, hAfter]
  rfl

/- Otherwise the last atom before the gap is deleted. -/
theorem gap_of_unlink?_none
    {cursor : Cursor Identity}
    (hPlaced : cursor.IsPlaced)
    (hUnlink : cursor.unlink? = none) :
    (∃ erased atom,
      cursor.eraseBack = .ok erased ∧
        cursor.gap.before = erased.gap.before ++ [atom] ∧
        erased.gap.after = cursor.gap.after) ∨
      cursor.gap.before = [] ∧
        cursor.eraseBack = .error .nothingBefore := by
  rcases eraseBack_of_unlink?_none hPlaced hUnlink with
    ⟨erased, cell, hErase, hAtom, hBefore, hAfter⟩ |
    ⟨hBefore, hErase⟩
  · refine .inl ⟨erased, cell, hErase, ?_, ?_⟩
    · rw [gap, hBefore, List.filter_append,
        List.filter_cons_of_pos hAtom]
      rfl
    · rw [gap, hAfter]
      rfl
  · refine .inr ⟨?_, hErase⟩
    rw [gap, hBefore]
    rfl

/- Joining two parts puts the gap between them. -/
theorem gap_join
    (left right : Row Identity) :
    (join left right).gap =
      ⟨Row.atoms left.reverse, Row.atoms right⟩ := by
  rw [gap, before_join, after_join]
  rfl

/- A caret at the place of a cursor shows its gap. -/
theorem gap_row
    (cursor : Cursor Identity)
    (region : Region) :
    cursor.row.gap
        ⟨region, cursor.index, cursor.offset, false⟩ =
      cursor.gap := by
  simp only [Row.gap, Bool.false_eq_true, if_false, take_row,
    drop_row, drop_succ_row, getElem?_row]
  rcases cursor with ⟨left, right, offset⟩
  cases right with
  | nil => rfl
  | cons node right =>
      cases node with
      | text run => simp [gap, before, after, Row.atoms]
      | construct => rfl
      | continuation => rfl

/- The row without the node at an index, opened there. -/
def without
    (row : Row Identity)
    (index : Nat) :
    Cursor Identity :=
  join (row.take index).reverse (row.drop (index + 1))

/- The row of a cursor without the node at its place. -/
theorem without_row
    (cursor : Cursor Identity) :
    without cursor.row cursor.index =
      join cursor.left (cursor.right.drop 1) := by
  rw [without, take_row, drop_succ_row, List.reverse_reverse]

/- The continuation on the left of a cursor, taken away. -/
theorem map_continuationBefore?
    (left right : Row Identity)
    (offset : Nat) :
    ((row ⟨left, right, offset⟩).continuationBefore?
          left.length).map
        (without (row ⟨left, right, offset⟩)) =
      match left with
      | .continuation _ _ :: left => some (join left right)
      | _ => none := by
  cases left with
  | nil => rfl
  | cons node left =>
      have hAt :=
        getElem?_row (⟨left, node :: right, 0⟩ : Cursor _)
      have hWithout :=
        without_row (⟨left, node :: right, 0⟩ : Cursor _)
      rw [row_cons_left left node right offset 0,
        List.length_cons, continuationBefore?]
      rw [index] at hAt hWithout
      rw [hAt]
      cases node with
      | text run => rfl
      | construct => rfl
      | continuation id content =>
          exact congrArg some hWithout

/-
  The continuation that a cursor unlinks is the one that the
  caret of the cursor deletes backwards.
-/
theorem unlink?_cursor
    {row : Row Identity}
    {caret : Caret}
    {cursor : Cursor Identity}
    (hCursor :
      row.cursor? caret.index caret.offset = some cursor) :
    cursor.unlink? =
      (row.continuationBack? caret).map (without row) := by
  rcases Row.cursor?_eq_some_iff.mp hCursor with
    ⟨rfl, hIndex, hOffset⟩
  rw [continuationBack?, ← hIndex, ← hOffset, getElem?_row]
  have hWithout := without_row cursor
  rcases cursor with ⟨left, right, offset⟩
  have hLeft := map_continuationBefore? left right offset
  cases right with
  | nil =>
      refine Eq.trans ?_ hLeft.symm
      cases left with
      | nil => rfl
      | cons node left => cases node <;> rfl
  | cons node right =>
      cases node with
      | continuation => exact congrArg some hWithout.symm
      | construct =>
          refine Eq.trans ?_ hLeft.symm
          cases left with
          | nil => rfl
          | cons node left => cases node <;> rfl
      | text run =>
          cases offset with
          | succ offset => rfl
          | zero =>
              refine Eq.trans ?_ hLeft.symm
              cases left with
              | nil => rfl
              | cons node left => cases node <;> rfl

end Cursor

/- An unselected caret parts the atoms of its row. -/
theorem Row.atoms_eq_gap
    {row : Row Identity}
    {caret : Caret}
    (hPlaced : caret.IsPlaced row)
    (hSelected : caret.selected = false) :
    row.atoms =
      (row.gap caret).before ++ (row.gap caret).after := by
  rcases caret with ⟨region, index, offset, selected⟩
  rcases hSelected with rfl
  have hCursor :
      row.cursor? index offset =
        some
          ⟨(row.take index).reverse, row.drop index,
            offset⟩ := by
    rw [Row.cursor?, if_pos hPlaced.inRow]
  have hAtoms :=
    Cursor.atoms_row
      ⟨(row.take index).reverse, row.drop index, offset⟩
  have hGap :=
    Cursor.gap_row
      ⟨(row.take index).reverse, row.drop index, offset⟩
      region
  rcases Row.cursor?_eq_some_iff.mp hCursor with
    ⟨hRow, hIndex, _⟩
  rw [hRow] at hAtoms hGap
  rw [hIndex] at hGap
  rw [hAtoms, hGap]

------------------------------------------------------------
-- Gaps of Editors
------------------------------------------------------------

namespace Editor

/- The cursor of an editor is opened at its gap. -/
theorem gap_eq_of_cursor
    {editor : Editor}
    {row : Row Identity}
    (hRegion :
      editor.document.region? editor.caret.region = some row)
    {cursor : Cursor Identity}
    (hCursor : editor.cursor = .ok cursor) :
    row.gap editor.caret = cursor.gap := by
  rw [Editor.cursor, hRegion] at hCursor
  simp only at hCursor
  split at hCursor
  · next hSelected =>
      rcases Except.ok.inj hCursor with rfl
      rw [Row.gap, if_pos hSelected]
      rfl
  · next hSelected =>
      split at hCursor
      · cases hCursor
      · next found hFound =>
          rcases Except.ok.inj hCursor with rfl
          rcases Row.cursor?_eq_some_iff.mp hFound with
            ⟨rfl, hIndex, hOffset⟩
          rcases editor with
            ⟨document, ⟨region, index, offset, _ | _⟩⟩
          · rw [← Cursor.gap_row found region, hIndex,
              hOffset]
          · exact absurd rfl hSelected

end Editor

end FormulaEditor
