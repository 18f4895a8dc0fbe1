import FormulaEditor.Proofs.Editing.Cells
import FormulaEditor.Proofs.Formula.Joined

/-
  This file proves which edits at a cursor keep a row
  joined: all but typing on a continuation that stands right
  after a run.

  Key definitions include:
    * `Cursor.isAfterRun`

  Key theorems include:
    * `Cursor.isJoined_insert`
    * `Cursor.isJoined_takeLim?`
    * `Cursor.isJoined_eraseBack`
    * `Cursor.isJoined_type_iff`
-/

namespace FormulaEditor

variable {ι : Type}

namespace Cursor

open Row

------------------------------------------------------------
-- Removing
------------------------------------------------------------

section Removing

variable {left right : Row ι} {run run' : Text}
variable {offset : Nat}

/- Runs that are brought together become one. -/
theorem isJoined_join
    (hLeft : IsJoined left)
    (hRight : IsJoined right) :
    IsJoined (join left right).row := by
  unfold join
  split
  · simp_all [row]
  · next hNone =>
      have hStarts := startsInRun_of_ne hNone
      simp_all [row]
  · next hNone _ =>
      have hStarts := startsInRun_of_ne hNone
      simp_all [row]

/- An emptied run leaves no two runs behind. -/
theorem isJoined_keepRun
    (hJoined :
      IsJoined (row ⟨left, .text run :: right, offset⟩)) :
    IsJoined (keepRun left run' right offset).row := by
  simp only [row, isJoined_reverse_append, isJoined_cons]
    at hJoined
  cases run' with
  | nil => exact isJoined_join hJoined.1 hJoined.2.1.2
  | cons c run' => simpa [keepRun, row] using hJoined

/-
  No run stands on either side of a run in a joined row, so
  none is left to be joined when it goes away.
-/
theorem isJoined_withRun
    {offset' : Nat}
    (hJoined :
      IsJoined (row ⟨left, .text run :: right, offset⟩)) :
    IsJoined (withRun left run' right offset').row := by
  cases run' with
  | nil => simp_all [withRun, row]
  | cons c run' => simpa [withRun, row] using hJoined

end Removing

/- Removing the word `lim` keeps a row joined. -/
theorem isJoined_takeLim?
    {cursor taken : Cursor ι}
    (hJoined : IsJoined cursor.row)
    (hTake : cursor.takeLim? = some taken) :
    IsJoined taken.row := by
  unfold takeLim? at hTake
  split at hTake
  · rcases Option.map_eq_some_iff.mp hTake with
      ⟨kept, _, rfl⟩
    exact isJoined_withRun hJoined
  · rcases Option.map_eq_some_iff.mp hTake with
      ⟨kept, _, rfl⟩
    exact isJoined_withRun
      (row_cons_left _ _ _ _ 0 ▸ hJoined)
  · cases hTake

/- Deleting backwards keeps a row joined. -/
theorem isJoined_eraseBack
    {cursor erased : Cursor ι}
    (hJoined : IsJoined cursor.row)
    (hErase : cursor.eraseBack = .ok erased) :
    IsJoined erased.row := by
  unfold eraseBack at hErase
  split at hErase
  · split at hErase
    · rcases Except.ok.inj hErase with rfl
      exact isJoined_keepRun hJoined
    · cases hErase
  · rcases Except.ok.inj hErase with rfl
    simp only [row, isJoined_reverse_append, isJoined_cons]
      at hJoined
    exact isJoined_join hJoined.1 hJoined.2.1.2
  · rcases Except.ok.inj hErase with rfl
    exact isJoined_keepRun
      (row_cons_left _ _ _ _ 0 ▸ hJoined)
  · rcases Except.ok.inj hErase with rfl
    simp only [row, isJoined_reverse_append, isJoined_cons]
      at hJoined
    exact isJoined_join hJoined.1.2 hJoined.2.1
  · cases hErase

------------------------------------------------------------
-- Inserting and Typing
------------------------------------------------------------

/- A construct that is inserted keeps a row joined. -/
theorem isJoined_insert
    {cursor : Cursor ι}
    (hJoined : IsJoined cursor.row)
    {node : Node ι}
    (hConstruct : node.isConstruct = true) :
    IsJoined (cursor.insert node).row := by
  have hNode := isRun_of_isConstruct hConstruct
  unfold insert
  split
  · simp_all [row]
  · split
    · simp_all [row]
    · split <;> simp_all [row]
  · simp_all [row]

/- Whether a cursor is on a continuation after a run. -/
def isAfterRun
    (cursor : Cursor ι) :
    Bool :=
  match cursor.right with
  | .continuation _ _ :: _ => startsInRun cursor.left
  | _ => false

/-
  Typing keeps a row joined, except that the run which takes
  the place of a continuation is not joined with a run that
  stands before it.
-/
theorem isJoined_type_iff
    {cursor : Cursor ι}
    (hJoined : IsJoined cursor.row)
    (c : Char) :
    IsJoined (cursor.type c).row ↔
      cursor.isAfterRun = false := by
  unfold type
  split
  · simp_all [row, isAfterRun]
  · next hNone =>
      have hStarts := startsInRun_of_ne hNone
      simp_all [row, isAfterRun]
  · simp_all [row, isAfterRun]
  · simp_all [row, isAfterRun]
  · next hRight hLeft =>
      have hStarts := startsInRun_of_ne hRight
      have hEnds := startsInRun_of_ne hLeft
      simp_all [row, isAfterRun]

end Cursor

end FormulaEditor
