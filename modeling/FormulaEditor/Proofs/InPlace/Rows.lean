import FormulaEditor.Proofs.Document.Indexing
import FormulaEditor.Proofs.Editing.Trigger
import FormulaEditor.Proofs.InPlace.Access

/-
  This file defines the edits of a row at an index and an
  offset, which change the row where it is by one access
  after the other.  It proves that none of these accesses
  fails at a settled cursor, and that they add up to the
  edits at the cursor.

  Key definitions include:
    * `InPlace.Place`
    * `InPlace.removeItem`
    * `InPlace.insertNode`
    * `InPlace.typeChar`
    * `InPlace.takeLim`
    * `InPlace.erase`

  Key theorems include:
    * `InPlace.removeItem_row`
    * `InPlace.insertNode_of`
    * `InPlace.typeChar_of`
    * `InPlace.takeLim_of_some`
    * `InPlace.erase_of`
-/

namespace FormulaEditor

namespace InPlace

open Json

variable {ι : Type}

------------------------------------------------------------
-- Places
------------------------------------------------------------

/-
  A row with an index into it.  Where there is a run at the
  index, `offset` counts its characters in front of the
  place.
-/
structure Place (ι : Type) where
  row : Row ι
  index : Nat
  offset : Nat

/- The place that a cursor has been opened at. -/
def Place.of
    (cursor : Cursor ι) :
    Place ι :=
  ⟨cursor.row, cursor.index, cursor.offset⟩

/- The node before an index, and where it stands. -/
def before?
    (row : Row ι) :
    Nat → Option (Nat × Node ι)
  | 0 => none
  | before + 1 => row[before]?.map (before, ·)

------------------------------------------------------------
-- Removing Nodes
------------------------------------------------------------

/- The end of the run before an index, or else the index. -/
def settle
    (row : Row ι)
    (index : Nat) :
    Checked (Nat × Nat) :=
  match before? row index with
  | some (_, .text run) => do
      let before ← sub index 1
      return (before, run.length)
  | _ => return (index, 0)

/- Join the runs on both sides of an index, if there are. -/
def joinAt
    (row : Row ι)
    (index : Nat) :
    Checked (Row ι) :=
  if 0 < index then do
    let before ← sub index 1
    match row[before]?, row[index]? with
    | some (.text run), some (.text run') => do
        let row ← removeAt row index
        setAt row before (.text (run ++ run'))
    | _, _ => return row
  else
    return row

/- Remove the node at an index and join what it was between. -/
def removeItem
    (row : Row ι)
    (index : Nat) :
    Checked (Place ι) := do
  let row ← removeAt row index
  let (settled, offset) ← settle row index
  let row ← joinAt row index
  return ⟨row, settled, offset⟩

/-
  Change the run at an index, and remove it if there is
  nothing left of it.
-/
def resetRun
    (row : Row ι)
    (index : Nat)
    (run : Text)
    (offset : Nat) :
    Checked (Place ι) := do
  let row ← setAt row index (.text run)
  if run.isEmpty then
    removeItem row index
  else
    return ⟨row, index, offset⟩

------------------------------------------------------------
-- Inserting and Typing
------------------------------------------------------------

/-
  Put a node at a place: in front of the run there, after
  it, or between its two parts, or in the place of a
  continuation.
-/
def insertNode
    (node : Node ι)
    (place : Place ι) :
    Checked (Row ι) :=
  let ⟨row, index, offset⟩ := place
  match row[index]? with
  | some (.text run) =>
      let split := byteOffset run offset
      if split = 0 then
        insertAt row index node
      else if split = byteLength run then
        insertAt row (index + 1) node
      else do
        let (head, tail) ← splitAt run split
        let row ← setAt row index (.text head)
        let row ← insertAt row (index + 1) (.text tail)
        insertAt row (index + 1) node
  | some (.continuation _ _) => do
      let row ← removeAt row index
      insertAt row index node
  | _ => insertAt row index node

/-
  Type a character at a place: in the place of a
  continuation, together with the run after that, into the
  run there, at the end of the run before it, or else as a
  run of its own.
-/
def typeChar
    (c : Char)
    (place : Place ι) :
    Checked (Place ι) :=
  let ⟨row, index, offset⟩ := place
  match row[index]? with
  | some (.continuation _ _) =>
      match row[index + 1]? with
      | some (.text run) => do
          let row ← removeAt row (index + 1)
          let row ← setAt row index (.text (c :: run))
          return ⟨row, index, 1⟩
      | _ => do
          let row ← setAt row index (.text [c])
          return ⟨row, index, 1⟩
  | some (.text run) => do
      let run ← insertChar run (byteOffset run offset) c
      let row ← setAt row index (.text run)
      return ⟨row, index, offset + 1⟩
  | _ =>
      match before? row index with
      | some (before, .text run) => do
          let row ← setAt row before (.text (run ++ [c]))
          let before ← sub index 1
          return ⟨row, before, (run ++ [c]).length⟩
      | _ => do
          let row ← insertAt row index (.text [c])
          return ⟨row, index, 1⟩

------------------------------------------------------------
-- Removing Characters
------------------------------------------------------------

/-
  The run that a place is in or at the end of, with its
  index and the characters of it before the place.
-/
def runBefore? : Place ι → Option (Nat × Text × Nat)
  | ⟨row, index, offset⟩ =>
      match row[index]? with
      | some (.text run) => some (index, run, offset)
      | _ =>
          match before? row index with
          | some (before, .text run) =>
              some (before, run, run.length)
          | _ => none

/-
  Remove the word `lim` right before a place, if it stands
  there.  The answer also tells whether nothing was left of
  the run, which then is removed as well.
-/
def takeLim
    (place : Place ι) :
    Checked (Option (Place ι × Bool)) :=
  match runBefore? place with
  | none => return none
  | some (index, run, offset) => do
      let stop := byteOffset run offset
      let (head, _) ← splitAt run stop
      if Cursor.limWord.isSuffixOf head then
        let start ← sub stop (byteLength Cursor.limWord)
        let run ← removeRange run start stop
        let offset ← sub offset Cursor.limWord.length
        let row ← setAt place.row index (.text run)
        if run.isEmpty then
          let row ← removeAt row index
          return some (⟨row, index, 0⟩, true)
        else
          return some (⟨row, index, offset⟩, false)
      else
        return none

/- What comes of deleting backwards in a row. -/
inductive Erasure (ι : Type) where
  | erased (place : Place ι)
  | atStart
  | missing

/- What comes of deleting backwards from a cursor. -/
def Erasure.back : Except Refusal (Cursor ι) → Erasure ι
  | .ok cursor => .erased (.of cursor)
  | .error .nothingBefore => .atStart
  | .error _ => .missing

/-
  Delete the last character of the run before an index, or
  else the node before it.
-/
def eraseBefore
    (row : Row ι) :
    Nat → Checked (Erasure ι)
  | 0 => return .atStart
  | before + 1 =>
      match row[before]? with
      | some (.text run) => do
          let run := run.dropLast
          let place ← resetRun row before run run.length
          return .erased place
      | some _ => do
          let place ← removeItem row before
          return .erased place
      | none => return .missing

/-
  Delete backwards: the character before a place in a run,
  the continuation at the place, or else what is before it.
-/
def erase
    (place : Place ι) :
    Checked (Erasure ι) :=
  let ⟨row, index, offset⟩ := place
  match row[index]? with
  | some (.text run) =>
      if 0 < offset then do
        let before ← sub offset 1
        let run ← removeChar run (byteOffset run before)
        let place ← resetRun row index run before
        return .erased place
      else
        eraseBefore row index
  | some (.continuation _ _) => do
      let place ← removeItem row index
      return .erased place
  | _ => eraseBefore row index

------------------------------------------------------------
-- Accesses at a Cursor
------------------------------------------------------------

section Cursors

variable (left right : Row ι)

/- Nothing is before a place without a node on the left. -/
@[simp] theorem before?_zero
    (row : Row ι) :
    before? row 0 = none :=
  rfl

/- What is before a place is found there. -/
@[simp] theorem before?_succ
    (node : Node ι) :
    before? (left.reverse ++ node :: right)
        (left.length + 1) =
      some (left.length, node) := by
  simp [before?]

/- Removing a node joins what is on both sides of it. -/
theorem removeItem_row
    (node : Node ι) :
    removeItem (left.reverse ++ node :: right)
        left.length =
      .ok (.of (Cursor.join left right)) := by
  rw [removeItem, removeAt_append left.length_reverse]
  rcases left with _ | ⟨_ | _ | _, left⟩
  case cons.text run =>
    rcases right with _ | ⟨_ | _ | _, right⟩ <;>
      simp [settle, joinAt, sub, Cursor.join, Place.of,
        Cursor.row, Cursor.index]
  all_goals
    simp [settle, joinAt, sub, Cursor.join, Place.of,
      Cursor.row, Cursor.index]

/- A run that a deletion has cut is kept, or removed. -/
theorem resetRun_row
    (node : Node ι)
    (run : Text)
    (offset : Nat) :
    resetRun (left.reverse ++ node :: right) left.length run
        offset =
      .ok (.of (Cursor.keepRun left run right offset)) := by
  rw [resetRun, setAt_append left.length_reverse, ok_bind]
  cases run with
  | nil => exact removeItem_row left right (.text [])
  | cons c run => rfl

end Cursors

------------------------------------------------------------
-- Edits at a Cursor
------------------------------------------------------------

section Edits

variable {cursor : Cursor ι}

/- A node is inserted at any cursor. -/
theorem insertNode_of
    (cursor : Cursor ι)
    (node : Node ι) :
    insertNode node (.of cursor) =
      .ok (cursor.insert node).row := by
  rcases cursor with ⟨left, right, offset⟩
  rcases right with _ | ⟨_ | _ | _, right⟩
  case cons.text run =>
    have hRun :
        (left.reverse ++ .text run :: right)[left.length]? =
          some (.text run) := by
      simp
    simp only [insertNode, Place.of, Cursor.row, Cursor.index,
      hRun, byteOffset_eq_zero_iff,
      byteOffset_eq_byteLength_iff]
    by_cases hHead : run.take offset = []
    · simp [hHead, Cursor.insert]
    · by_cases hTail : run.drop offset = []
      · simp [hHead, hTail, Cursor.insert]
      · simp [hHead, hTail, Cursor.insert]
  all_goals
    simp [insertNode, Place.of, Cursor.row, Cursor.index,
      Cursor.insert]

/- A character is typed at a settled cursor. -/
theorem typeChar_of
    (cursor : Cursor ι)
    (c : Char) :
    typeChar c (.of cursor) = .ok (.of (cursor.type c)) := by
  rcases cursor with ⟨left, right, offset⟩
  rcases right with _ | ⟨_ | _ | _, right⟩
  case cons.continuation id content =>
    rcases right with _ | ⟨_ | _ | _, right⟩ <;>
      simp [typeChar, Place.of, Cursor.row, Cursor.index,
        Cursor.type]
  case cons.text run =>
    simp [typeChar, Place.of, Cursor.row, Cursor.index,
      Cursor.type, insertChar_byteOffset]
  all_goals
    rcases left with _ | ⟨_ | _ | _, left⟩ <;>
      simp [typeChar, Place.of, Cursor.row, Cursor.index,
        Cursor.type, sub]

/-
  The word `lim` is sought in the run that a cursor is in,
  or at the end of, if there is one.
-/
theorem runBefore?_of
    (hSettled : cursor.IsSettled) :
    (runBefore? (.of cursor) = none ∧
        cursor.takeLim? = none) ∨
      ∃ left run right offset,
        cursor.row = left.reverse ++ .text run :: right ∧
          offset ≤ run.length ∧
          runBefore? (.of cursor) =
            some (left.length, run, offset) ∧
          cursor.takeLim? =
            (Cursor.dropLim? (run.take offset)).map
              fun kept =>
                Cursor.withRun left (kept ++ run.drop offset)
                  right kept.length := by
  rcases cursor with ⟨left, right, offset⟩
  rcases right with _ | ⟨run | _ | _, right⟩
  case cons.text =>
    exact .inr ⟨left, run, right, offset, rfl, hSettled,
      by simp [runBefore?, Place.of, Cursor.row, Cursor.index],
      rfl⟩
  all_goals
    rcases left with _ | ⟨run | _ | _, left⟩
    case cons.text =>
      refine .inr ⟨left, run, _, run.length,
        Cursor.row_cons_left _ _ _ _ 0, Nat.le_refl _, ?_, ?_⟩
      · simp [runBefore?, Place.of, Cursor.row, Cursor.index]
      · simp [Cursor.takeLim?]
    all_goals
      exact .inl
        ⟨by simp [runBefore?, Place.of, Cursor.row,
          Cursor.index], rfl⟩

/- Nothing is removed where the word `lim` is not. -/
theorem takeLim_of_none
    (hSettled : cursor.IsSettled)
    (hTake : cursor.takeLim? = none) :
    takeLim (.of cursor) = .ok none := by
  rcases runBefore?_of hSettled with
    ⟨hNone, _⟩ | ⟨left, run, right, offset, _, _, hRun, hLim⟩
  · rw [takeLim, hNone]
    rfl
  · rw [hTake, Cursor.dropLim?] at hLim
    split at hLim
    · cases hLim
    · next hSuffix =>
        rw [takeLim, hRun]
        simp only [splitAt_byteOffset, ok_bind]
        exact if_neg hSuffix

/- A word that a run has is removed from it. -/
theorem takeLim_of_run
    {left right : Row ι}
    {kept rest : Text}
    (hRow :
      cursor.row =
        left.reverse ++
          .text (kept ++ Cursor.limWord ++ rest) :: right)
    (hRun :
      runBefore? (.of cursor) =
        some (left.length, kept ++ Cursor.limWord ++ rest,
          (kept ++ Cursor.limWord).length)) :
    takeLim (.of cursor) =
      .ok (some
        (.of (Cursor.withRun left (kept ++ rest) right
          kept.length), (kept ++ rest).isEmpty)) := by
  have hStop :
      byteOffset (kept ++ Cursor.limWord ++ rest)
          (kept ++ Cursor.limWord).length =
        byteLength (kept ++ Cursor.limWord) := by
    rw [byteOffset_eq, List.take_left]
  have hStart :
      sub (byteLength (kept ++ Cursor.limWord))
          (byteLength Cursor.limWord) =
        .ok (byteLength kept) := by
    rw [byteLength_append, sub_add]
  have hOffset :
      sub (kept ++ Cursor.limWord).length
          Cursor.limWord.length =
        .ok kept.length := by
    rw [List.length_append, sub_add]
  have hSuffix :
      Cursor.limWord.isSuffixOf (kept ++ Cursor.limWord) =
        true :=
    List.isSuffixOf_iff_suffix.mpr
      (List.suffix_append kept Cursor.limWord)
  have hSet :
      setAt cursor.row left.length (.text (kept ++ rest)) =
        .ok (left.reverse ++ .text (kept ++ rest) :: right) := by
    rw [hRow, setAt_append left.length_reverse]
  rw [takeLim, hRun]
  simp only [hStop, splitAt_append, ok_bind, hSuffix, if_true,
    hStart, hOffset, removeRange_append, Place.of, hSet]
  cases hKept : kept ++ rest with
  | nil => simp [Cursor.withRun, Cursor.row, Cursor.index]
  | cons c run =>
      simp [Cursor.withRun, Cursor.row, Cursor.index]

/- A run has no addresses. -/
theorem addresses_text
    (left right : Row ι)
    (run run' : Text) :
    Row.addresses (left ++ .text run :: right) =
      Row.addresses (left ++ .text run' :: right) := by
  simp [Row.addresses, addressesFrom_append,
    Row.addressesFrom, Node.addresses]

/-
  A word that is before a settled cursor is removed.  The
  addresses of the row are the same after that if anything
  is left of the run.
-/
theorem takeLim_of_some
    {taken : Cursor ι}
    (hSettled : cursor.IsSettled)
    (hTake : cursor.takeLim? = some taken) :
    ∃ emptied,
      takeLim (.of cursor) =
          .ok (some (.of taken, emptied)) ∧
        (emptied = false →
          taken.row.addresses = cursor.row.addresses) := by
  rcases runBefore?_of hSettled with
    ⟨_, hNone⟩ |
      ⟨left, run, right, offset, hRow, hOffset, hRun, hLim⟩
  · rw [hTake] at hNone
    cases hNone
  · rw [hTake] at hLim
    rcases Option.map_eq_some_iff.mp hLim.symm with
      ⟨kept, hDrop, rfl⟩
    have hHead := Cursor.dropLim?_eq_some_iff.mp hDrop
    have hSplit :
        kept ++ Cursor.limWord ++ run.drop offset = run := by
      rw [← hHead, List.take_append_drop]
    have hLength :
        (kept ++ Cursor.limWord).length = offset := by
      rw [← hHead, List.length_take, Nat.min_eq_left hOffset]
    refine ⟨_, takeLim_of_run ?_ ?_, ?_⟩
    · rw [hSplit, hRow]
    · rw [hSplit, hLength, hRun]
    · intro hLeft
      rw [hRow]
      cases hKept : kept ++ run.drop offset with
      | nil =>
          rw [hKept] at hLeft
          cases hLeft
      | cons c rest => exact addresses_text _ _ _ _

/-
  What is deleted at a settled cursor is deleted in its row,
  and nothing is before a cursor only at the start of it.
-/
theorem erase_of
    (hSettled : cursor.IsSettled) :
    erase (.of cursor) = .ok (.back cursor.eraseBack) := by
  rcases cursor with ⟨left, right, offset⟩
  rcases right with _ | ⟨run | _ | _, right⟩
  case cons.continuation =>
    simp [erase, Place.of, Cursor.row, Cursor.index,
      Cursor.eraseBack, Erasure.back, removeItem_row]
  case cons.text =>
    cases offset with
    | succ offset =>
        have hLess : offset < run.length := hSettled
        simp [erase, Place.of, Cursor.row, Cursor.index,
          Cursor.eraseBack, Erasure.back, hLess,
          removeChar_byteOffset, resetRun_row]
    | zero =>
        rcases left with _ | ⟨_ | _ | _, left⟩ <;>
          simp [erase, eraseBefore, Place.of, Cursor.row,
            Cursor.index, Cursor.eraseBack, Erasure.back,
            resetRun_row, removeItem_row]
  -- Elsewhere the node on the left loses its last cell.
  all_goals
    rcases left with _ | ⟨_ | _ | _, left⟩ <;>
      simp [erase, eraseBefore, Place.of, Cursor.row,
        Cursor.index, Cursor.eraseBack, Erasure.back,
        resetRun_row, removeItem_row]

end Edits

end InPlace

end FormulaEditor
