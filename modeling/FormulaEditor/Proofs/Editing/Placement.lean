import FormulaEditor.Editing.Editor
import FormulaEditor.Proofs.Document.Soundness
import FormulaEditor.Proofs.Editing.Cells

/-
  This file defines when a caret is placed in a row, and
  proves that every caret that is pulled back is, that every
  edit at a cursor leaves one behind, and what is opened at
  it.

  Key definitions include:
    * `Caret.IsPlaced`
    * `Cursor.IsSettled`

  Key theorems include:
    * `Caret.isPlaced_clampTo`
    * `Caret.clampTo_of_isPlaced`
    * `Cursor.isPlaced_caret`
    * `Row.exists_cursor?`
    * `Editor.exists_cursor`
-/

namespace FormulaEditor

------------------------------------------------------------
-- Placed Carets
------------------------------------------------------------

/-
  A caret is placed in a row when it is not beyond the end
  of the row, and is not beyond the end of the run it is in.
-/
structure Caret.IsPlaced
    (caret : Caret)
    (row : Row Identity) :
    Prop where
  inRow : caret.index ≤ row.length
  inRun :
    ∀ run, row[caret.index]? = some (.text run) →
      caret.offset ≤ run.length
  between :
    (∀ run, row[caret.index]? ≠ some (.text run)) →
      caret.offset = 0

namespace Caret

/- An offset that is pulled back lies within its run. -/
theorem clampOffset_le
    {row : Row Identity}
    {index : Nat}
    {run : Text}
    (hRun : row[index]? = some (.text run))
    (offset : Nat) :
    clampOffset row index offset ≤ run.length := by
  rw [clampOffset, hRun]
  exact Nat.min_le_right _ _

/- Only runs have offsets. -/
theorem clampOffset_eq_zero
    {row : Row Identity}
    {index : Nat}
    (hBetween : ∀ run, row[index]? ≠ some (.text run))
    (offset : Nat) :
    clampOffset row index offset = 0 := by
  rw [clampOffset]
  split
  · next run hRun => exact absurd hRun (hBetween run)
  · rfl

/- The end of a row is not beyond its end. -/
theorem index_atEndOf_le
    (region : Region)
    (row : Row Identity) :
    (atEndOf region row).index ≤ row.length := by
  rw [atEndOf]
  split
  · exact Nat.sub_le _ _
  · exact Nat.le_refl _

/- The caret at the end of a row stays in its region. -/
@[simp] theorem region_atEndOf
    (region : Region)
    (row : Row Identity) :
    (atEndOf region row).region = region := by
  rw [atEndOf]
  split <;> rfl

/- A caret that is pulled back is placed in its row. -/
theorem isPlaced_clampTo
    (caret : Caret)
    (row : Row Identity) :
    (caret.clampTo row).IsPlaced row := by
  refine ⟨?_, ?_, ?_⟩
  · simp only [clampTo]
    split
    · exact index_atEndOf_le caret.region row
    · next hWithin => exact Nat.le_of_not_lt hWithin
  · intro run hRun
    exact clampOffset_le hRun _
  · intro hBetween
    exact clampOffset_eq_zero hBetween _

/- A caret that is pulled back stays in its region. -/
@[simp] theorem region_clampTo
    (caret : Caret)
    (row : Row Identity) :
    (caret.clampTo row).region = caret.region := by
  simp only [clampTo]
  split
  · exact region_atEndOf _ _
  · rfl

/- A caret that is placed in a row stays where it is. -/
theorem clampTo_of_isPlaced
    {caret : Caret}
    {row : Row Identity}
    (hPlaced : caret.IsPlaced row) :
    caret.clampTo row = caret := by
  have hOffset :
      clampOffset row caret.index caret.offset =
        caret.offset := by
    rw [clampOffset]
    split
    · next run hRun =>
        exact Nat.min_eq_left (hPlaced.inRun run hRun)
    · next hBetween =>
        exact (hPlaced.between hBetween).symm
  simp only [clampTo, if_neg (Nat.not_lt.mpr hPlaced.inRow),
    hOffset]

/- Only a run can be under the caret at the end of a row. -/
theorem getElem?_atEndOf
    (region : Region)
    (row : Row Identity) :
    (∃ run, row[(atEndOf region row).index]? =
          some (.text run) ∧
        (atEndOf region row).offset = run.length) ∨
      row[(atEndOf region row).index]? = none ∧
        (atEndOf region row).offset = 0 := by
  rw [atEndOf]
  split
  · next run hLast =>
      refine .inl ⟨run, ?_, rfl⟩
      rw [← List.getLast?_eq_getElem?, hLast]
  · exact .inr ⟨List.getElem?_eq_none (Nat.le_refl _), rfl⟩

/- The caret at the end of a row is placed in it. -/
theorem isPlaced_atEndOf
    (region : Region)
    (row : Row Identity) :
    (atEndOf region row).IsPlaced row := by
  refine ⟨index_atEndOf_le region row, ?_, ?_⟩
  · intro run hRun
    rcases getElem?_atEndOf region row with
      ⟨last, hLast, hOffset⟩ | ⟨hNone, _⟩
    · rw [hRun] at hLast
      rcases Node.text.inj (Option.some.inj hLast) with rfl
      exact Nat.le_of_eq hOffset
    · rw [hRun] at hNone
      cases hNone
  · intro hBetween
    rcases getElem?_atEndOf region row with
      ⟨last, hLast, _⟩ | ⟨_, hOffset⟩
    · exact absurd hLast (hBetween last)
    · exact hOffset

/- The start of any row is a place in it. -/
theorem isPlaced_zero
    (region : Region)
    (selected : Bool)
    (row : Row Identity) :
    IsPlaced ⟨region, 0, 0, selected⟩ row where
  inRow := Nat.zero_le _
  inRun _ _ := Nat.zero_le _
  between _ := rfl

end Caret

------------------------------------------------------------
-- Settled Cursors
------------------------------------------------------------

/-
  The place of a cursor is not beyond the end of the run it
  is in, and has no offset where there is no run.
-/
def Cursor.IsSettled
    {ι : Type}
    (cursor : Cursor ι) :
    Prop :=
  match cursor.right with
  | .text run :: _ => cursor.offset ≤ run.length
  | _ => cursor.offset = 0

namespace Cursor

section Settled

variable {ι : Type}

/- A place without an offset is in any row. -/
theorem isSettled_zero
    (left right : Row ι) :
    IsSettled ⟨left, right, 0⟩ := by
  unfold IsSettled
  split
  · exact Nat.zero_le _
  · rfl

/- Joining runs leaves the place between what was joined. -/
theorem isSettled_join
    (left right : Row ι) :
    (join left right).IsSettled := by
  unfold join
  split
  · simp [IsSettled]
  · exact Nat.le_refl _
  · exact isSettled_zero _ _

/- A place in what is left of a run stays in the run. -/
theorem isSettled_keepRun
    {left right : Row ι}
    {run : Text}
    {offset : Nat}
    (hOffset : offset ≤ run.length) :
    (keepRun left run right offset).IsSettled := by
  cases run with
  | nil => exact isSettled_join left right
  | cons c run => exact hOffset

/- A place in what is left of a run stays in the run. -/
theorem isSettled_withRun
    {left right : Row ι}
    {run : Text}
    {offset : Nat}
    (hOffset : offset ≤ run.length) :
    (withRun left run right offset).IsSettled := by
  cases run with
  | nil => exact isSettled_zero left right
  | cons c run => exact hOffset

/- Typing leaves the place after the character. -/
theorem isSettled_type
    {cursor : Cursor ι}
    (hSettled : cursor.IsSettled)
    (c : Char) :
    (cursor.type c).IsSettled := by
  unfold type
  split
  · simp [IsSettled]
  · exact Nat.le_refl _
  · next left run right offset =>
      have hOffset : offset ≤ run.length := hSettled
      simp only [IsSettled, List.length_append,
        List.length_cons, List.length_take, List.length_drop]
      omega
  · simp [IsSettled]
  · exact Nat.le_refl _

/- Removing the word `lim` leaves the place where it was. -/
theorem isSettled_takeLim?
    {cursor taken : Cursor ι}
    (hTake : cursor.takeLim? = some taken) :
    taken.IsSettled := by
  unfold takeLim? at hTake
  split at hTake
  · rcases Option.map_eq_some_iff.mp hTake with
      ⟨kept, _, rfl⟩
    refine isSettled_withRun ?_
    rw [List.length_append]
    exact Nat.le_add_right _ _
  · rcases Option.map_eq_some_iff.mp hTake with
      ⟨kept, _, rfl⟩
    exact isSettled_withRun (Nat.le_refl _)
  · cases hTake

/- Deleting backwards leaves the place where it deleted. -/
theorem isSettled_eraseBack
    {cursor erased : Cursor ι}
    (hErase : cursor.eraseBack = .ok erased) :
    erased.IsSettled := by
  unfold eraseBack at hErase
  split at hErase
  · next run right offset =>
      split at hErase
      · next hLess =>
          rcases Except.ok.inj hErase with rfl
          refine isSettled_keepRun ?_
          rw [List.length_eraseIdx_of_lt hLess]
          exact Nat.le_sub_one_of_lt hLess
      · cases hErase
  · rcases Except.ok.inj hErase with rfl
    exact isSettled_join _ _
  · rcases Except.ok.inj hErase with rfl
    refine isSettled_keepRun ?_
    rw [List.length_dropLast]
  · rcases Except.ok.inj hErase with rfl
    exact isSettled_join _ _
  · cases hErase

end Settled

/- The node at the place of a cursor is the first after it. -/
theorem getElem?_row_eq_some_iff
    {ι : Type}
    {cursor : Cursor ι}
    {node : Node ι} :
    cursor.row[cursor.index]? = some node ↔
      ∃ rest, cursor.right = node :: rest := by
  rw [getElem?_row, ← List.head?_eq_getElem?,
    List.head?_eq_some_iff]

/- Closing a settled cursor leaves a caret that is placed. -/
theorem isPlaced_caret
    {cursor : Cursor Identity}
    (hSettled : cursor.IsSettled)
    (region : Region)
    (selected : Bool) :
    Caret.IsPlaced
      ⟨region, cursor.index, cursor.offset, selected⟩
      cursor.row := by
  refine ⟨?_, ?_, ?_⟩
  · simp [index, row]
  · intro run hRun
    rcases getElem?_row_eq_some_iff.mp hRun with
      ⟨rest, hRight⟩
    rw [IsSettled, hRight] at hSettled
    exact hSettled
  · intro hBetween
    unfold IsSettled at hSettled
    split at hSettled
    · next run rest hRight =>
        exact absurd
          (getElem?_row_eq_some_iff.mpr ⟨rest, hRight⟩)
          (hBetween run)
    · exact hSettled

/- A cursor that is opened at a placed caret is settled. -/
theorem isSettled_of_cursor?
    {row : Row Identity}
    {caret : Caret}
    (hPlaced : caret.IsPlaced row)
    {cursor : Cursor Identity}
    (hCursor :
      row.cursor? caret.index caret.offset = some cursor) :
    cursor.IsSettled := by
  rcases Row.cursor?_eq_some_iff.mp hCursor with
    ⟨rfl, hIndex, hOffset⟩
  rw [IsSettled, hOffset]
  split
  · next run rest hRight =>
      refine hPlaced.inRun run ?_
      rw [← hIndex, getElem?_row_eq_some_iff]
      exact ⟨rest, hRight⟩
  · next hNone =>
      refine hPlaced.between fun run hRun => ?_
      rw [← hIndex, getElem?_row_eq_some_iff] at hRun
      rcases hRun with ⟨rest, hRight⟩
      exact hNone run rest hRight

end Cursor

------------------------------------------------------------
-- Opening at Placed Carets
------------------------------------------------------------

/- A row is opened at a caret that is placed in it. -/
theorem Row.exists_cursor?
    {row : Row Identity}
    (hSolid : Row.IsSolid row)
    {caret : Caret}
    (hPlaced : caret.IsPlaced row) :
    ∃ cursor,
      row.cursor? caret.index caret.offset = some cursor ∧
        cursor.IsPlaced := by
  have hCursor :
      row.cursor? caret.index caret.offset =
        some
          ⟨(row.take caret.index).reverse,
            row.drop caret.index, caret.offset⟩ := by
    rw [Row.cursor?, if_pos hPlaced.inRow]
  have hRow := (Row.cursor?_eq_some_iff.mp hCursor).1
  refine ⟨_, hCursor, ?_, ?_⟩
  · rw [hRow]
    exact hSolid
  · intro run right hRight
    simp only at hRight
    apply hPlaced.inRun run
    rw [← List.head?_drop, hRight]
    rfl

namespace Editor

section Cursors

variable {editor : Editor} {row : Row Identity}

/- A selected region is opened as if it were empty. -/
theorem cursor_of_selected
    (hRegion :
      editor.document.region? editor.caret.region = some row)
    (hSelected : editor.caret.selected = true) :
    editor.cursor = .ok .empty := by
  rw [cursor, hRegion]
  exact if_pos hSelected

/- Any other region is opened at the caret. -/
theorem cursor_of_cursor?
    (hRegion :
      editor.document.region? editor.caret.region = some row)
    (hSelected : editor.caret.selected = false)
    {found : Cursor Identity}
    (hCursor :
      row.cursor? editor.caret.index editor.caret.offset =
        some found) :
    editor.cursor = .ok found := by
  rw [cursor, hRegion]
  simp only [hSelected, Bool.false_eq_true, if_false, hCursor]

/- A region is opened wherever a caret is placed in it. -/
theorem exists_cursor
    (hRegion :
      editor.document.region? editor.caret.region = some row)
    (hSolid : Row.IsSolid row)
    (hPlaced : editor.caret.IsPlaced row) :
    ∃ cursor, editor.cursor = .ok cursor := by
  cases hSelected : editor.caret.selected with
  | true => exact ⟨_, cursor_of_selected hRegion hSelected⟩
  | false =>
      rcases Row.exists_cursor? hSolid hPlaced with
        ⟨cursor, hCursor, _⟩
      exact ⟨cursor,
        cursor_of_cursor? hRegion hSelected hCursor⟩

end Cursors

end Editor

end FormulaEditor
