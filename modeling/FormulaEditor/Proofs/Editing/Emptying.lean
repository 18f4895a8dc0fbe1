import FormulaEditor.Proofs.Editing.Undoing

/-
  This file proves that deleting backwards again and again
  empties everything before the caret and then stops: each
  time the document gets smaller, until the caret is at its
  very start, and what was after the caret is never touched.

  Key definitions include:
    * `Row.size`
    * `Row.beyond`
    * `Editor.beyond?`
    * `Editor.Spares`
    * `Editor.IsSpent`
    * `Editor.Keeps`

  Key theorems include:
    * `Row.size_replaceAt?`
    * `Cursor.size_eraseBack`
    * `Editor.backspace_cases`
    * `Editor.size_run_backspace`
    * `Editor.run_backspace_empties`
-/

namespace FormulaEditor

------------------------------------------------------------
-- Sizes
------------------------------------------------------------

section Sizes

variable {ι : Type}

mutual

/-
  The characters, constructs and continuations of a node, at
  any depth.
-/
def Node.size : Node ι → Nat
  | .text run => run.length
  | .construct _ _ first second =>
      1 + (Row.size first + Row.size second)
  | .continuation _ _ => 1

/- The characters, constructs and continuations of a row. -/
def Row.size : Row ι → Nat
  | [] => 0
  | node :: rest => node.size + Row.size rest

end

namespace Row

@[simp] theorem size_nil :
    size ([] : Row ι) = 0 :=
  rfl

@[simp] theorem size_cons
    (node : Node ι)
    (row : Row ι) :
    size (node :: row) = node.size + size row := by
  rw [size]

@[simp] theorem size_append
    (row other : Row ι) :
    size (row ++ other) = size row + size other := by
  induction row with
  | nil => simp
  | cons node row ih => simp [ih, Nat.add_assoc]

@[simp] theorem size_reverse
    (row : Row ι) :
    size row.reverse = size row := by
  induction row with
  | nil => rfl
  | cons node row ih => simp [ih, Nat.add_comm]

@[simp] theorem size_text
    (run : Text) :
    (Node.text run : Node ι).size = run.length := by
  rw [Node.size]

@[simp] theorem size_continuation
    (id : ι)
    (content : Text) :
    (Node.continuation id content).size = 1 := by
  rw [Node.size]

@[simp] theorem size_construct
    (kind : Kind)
    (id : ι)
    (first second : Row ι) :
    (Node.construct kind id first second).size =
      1 + (size first + size second) := by
  rw [Node.size]

/- A construct is larger than its rows by one. -/
theorem size_node
    (slot : Slot)
    (id : ι)
    (row other : Row ι) :
    (slot.node id row other).size =
      1 + (size row + size other) := by
  rcases slot with ⟨kind, _ | _⟩
  · simp [Slot.node]
  · simp [Slot.node, Nat.add_comm]

/- The characters of a run are as many as the run has. -/
theorem size_chars
    (run : Text) :
    size (chars run : Row ι) = run.length := by
  induction run with
  | nil => rfl
  | cons c run ih => simp [ih, Nat.add_comm]

/- The size of a row is seen cell by cell. -/
theorem size_cells
    (row : Row ι) :
    size (cells row) = size row := by
  induction row with
  | nil => rfl
  | cons node row ih =>
      cases node <;> simp [ih, size_chars]

/-
  When a row is replaced, the tree grows or shrinks by what
  the row does.
-/
theorem size_replaceAt?
    {row inner new changed : Row ι}
    {steps : List Step}
    (hAt : row.at? steps = some inner)
    (hReplace : row.replaceAt? new steps = some changed) :
    size changed + size inner = size row + size new := by
  induction steps generalizing row changed with
  | nil =>
      rcases Option.some.inj hAt with rfl
      rcases Option.some.inj hReplace with rfl
      exact Nat.add_comm _ _
  | cons step steps ih =>
      rcases exists_below_of_replaceAt? hAt hReplace with
        ⟨left, right, id, below, other, below', rfl, _,
          hRest, hBelow, rfl⟩
      have hInside := ih hRest hBelow
      simp only [size_append, size_cons, size_node]
      omega

end Row

/- Only an empty run has no size. -/
theorem Node.size_pos
    {node : Node ι}
    (hSolid : node ≠ .text []) :
    0 < node.size := by
  cases node with
  | text run =>
      rw [Row.size_text, List.length_pos_iff]
      rintro rfl
      exact hSolid rfl
  | construct =>
      rw [Row.size_construct]
      omega
  | continuation =>
      rw [Row.size_continuation]
      exact Nat.one_pos

end Sizes

------------------------------------------------------------
-- Deleting at a Cursor
------------------------------------------------------------

namespace Cursor

open Row

section Sizes

variable {ι : Type}

/- Joining runs loses nothing. -/
theorem size_join
    (left right : Row ι) :
    size (join left right).row = size left + size right := by
  rw [← size_cells, cells_join, size_append, size_cells,
    size_cells, size_reverse]

/- Nor does putting back what is left of a run. -/
theorem size_keepRun
    (left right : Row ι)
    (run : Text)
    (offset : Nat) :
    size (keepRun left run right offset).row =
      size left + (run.length + size right) := by
  rw [← size_cells, cells_keepRun, size_append, size_append,
    size_cells, size_cells, size_chars, size_reverse]

/- A row is as large as its two parts. -/
theorem size_row
    (cursor : Cursor ι) :
    size cursor.row =
      size cursor.left + size cursor.right := by
  rw [row, size_append, size_reverse]

/- Deleting backwards makes a row smaller. -/
theorem size_eraseBack
    {cursor erased : Cursor ι}
    (hSolid : IsSolid cursor.row)
    (hErase : cursor.eraseBack = .ok erased) :
    size erased.row < size cursor.row := by
  rw [row, isSolid_append, isSolid_reverse] at hSolid
  rw [size_row cursor]
  unfold eraseBack at hErase
  split at hErase
  · next left run right offset =>
      split at hErase
      · next hLess =>
          rcases Except.ok.inj hErase with rfl
          have hLength := List.length_eraseIdx_of_lt hLess
          simp only [size_keepRun, size_cons, size_text,
            hLength]
          omega
      · cases hErase
  · rcases Except.ok.inj hErase with rfl
    simp only [size_join, size_cons, size_continuation]
    omega
  · rcases Except.ok.inj hErase with rfl
    have hRun := Node.size_pos (isSolid_cons.mp hSolid.1).1
    rw [size_text] at hRun
    simp only [size_keepRun, size_cons, size_text,
      List.length_dropLast]
    omega
  · rcases Except.ok.inj hErase with rfl
    have hNode := Node.size_pos (isSolid_cons.mp hSolid.1).1
    simp only [size_join, size_cons]
    omega
  · cases hErase

/- A place with nothing before it is at the very start. -/
theorem start_of_nothingBefore
    {cursor : Cursor ι}
    (hErase : cursor.eraseBack = .error .nothingBefore) :
    cursor.left = [] ∧
      ∀ run right, cursor.right = .text run :: right →
        cursor.offset = 0 := by
  unfold eraseBack at hErase
  split at hErase
  · split at hErase <;> cases hErase
  · cases hErase
  · cases hErase
  · cases hErase
  · next right offset hIn _ =>
      refine ⟨rfl, ?_⟩
      rintro run rest rfl
      cases offset with
      | zero => rfl
      | succ offset =>
          exact (hIn run rest offset rfl rfl).elim

end Sizes

/-
  Deleting backwards at a place in a row leaves what is
  after the place, unless there is nothing before it.
-/
theorem erases_or_nothingBefore
    {cursor : Cursor Identity}
    (hPlaced : cursor.IsPlaced) :
    (∃ erased,
      cursor.eraseBack = .ok erased ∧
        erased.gap.after = cursor.gap.after) ∨
      cursor.eraseBack = .error .nothingBefore := by
  cases hUnlink : cursor.unlink? with
  | some unlinked =>
      refine .inl
        ⟨unlinked, eraseBack_of_unlink?_some hUnlink, ?_⟩
      rw [gap_of_unlink?_some hUnlink]
  | none =>
      rcases gap_of_unlink?_none hPlaced hUnlink with
        ⟨erased, _, hErase, _, hAfter⟩ | ⟨_, hErase⟩
      · exact .inl ⟨erased, hErase, hAfter⟩
      · exact .inr hErase

end Cursor

------------------------------------------------------------
-- What Is Beyond the Caret
------------------------------------------------------------

/-
  The atoms of the outermost row that are beyond a caret: in
  that row those after the caret, and further down those
  after the node that the caret is in.
-/
def Row.beyond
    (root after : Row Identity) :
    List Step → Row Identity
  | [] => after
  | step :: _ => Row.atoms (root.drop (step.index + 1))

namespace Editor

/- The atoms that are beyond the caret of an editor. -/
def beyond?
    (editor : Editor) :
    Option (Row Identity) :=
  (editor.document.stepsTo? editor.caret.region).map
    (editor.document.root.beyond
      (editor.document.root.gap editor.caret).after)

/-
  What is beyond the caret after a row has been rewritten is
  what was beyond the row, or after the gap in it.
-/
theorem beyond?_of_rewrites
    {document : Document}
    {region : Region}
    {row : Row Identity}
    {gap : Gap}
    {changed : Editor}
    (hRewrites : Rewrites document region row gap changed)
    (hSound : changed.document.Sound)
    {steps : List Step}
    (hSteps : document.stepsTo? region = some steps) :
    changed.beyond? =
      some (document.root.beyond gap.after steps) := by
  rcases hRewrites.only with ⟨steps', hSteps', hReplace⟩
  rw [hSteps] at hSteps'
  rcases Option.some.inj hSteps' with rfl
  have hAfterwards :=
    Document.stepsTo?_of_replaceAt? hSound.nodup hSteps
      hReplace
  rw [beyond?, hRewrites.region, hAfterwards,
    Option.map_some]
  cases steps with
  | nil =>
      have hRegion := hRewrites.only.region? hSound
      have hGap := hRewrites.gap
      rw [gap?, hRewrites.region, hRegion, Option.map_some]
        at hGap
      rcases Option.some.inj hReplace with hRoot
      rw [← hRoot, Option.some.inj hGap]
      rfl
  | cons step steps =>
      -- Nodes behind the one that is stepped into stay.
      rcases Row.replaceAt?_cons_eq_some_iff.mp hReplace with
        ⟨left, right, id, below, other, inner, hOld, hLength,
          _, hNew⟩
      rw [hOld, hNew, Row.beyond, Row.beyond, ← hLength,
        ← List.drop_drop, ← List.drop_drop, List.drop_left,
        List.drop_left]
      rfl

------------------------------------------------------------
-- One Deletion
------------------------------------------------------------

/-
  Another editor is what is left of an editor: it is
  smaller, and the same atoms are beyond its caret.
-/
structure Spares
    (editor changed : Editor) :
    Prop where
  smaller :
    changed.document.root.size < editor.document.root.size
  unselected : changed.caret.selected = false
  beyond : changed.beyond? = editor.beyond?

/-
  A row that has been rewritten by a smaller one leaves a
  smaller document.
-/
theorem size_of_rewrites
    {document : Document}
    {region : Region}
    {old row : Row Identity}
    {gap : Gap}
    {changed : Editor}
    (hRewrites : Rewrites document region row gap changed)
    (hRegion : document.region? region = some old)
    (hSmaller : row.size < old.size) :
    changed.document.root.size < document.root.size := by
  rcases hRewrites.only with ⟨steps, hSteps, hReplace⟩
  rcases Document.region?_eq_some_iff.mp hRegion with
    ⟨steps', hSteps', hAt⟩
  rw [hSteps] at hSteps'
  rcases Option.some.inj hSteps' with rfl
  have hSize := Row.size_replaceAt? hAt hReplace
  omega

section Deleting

variable {editor : Editor}

/-
  Deleting inside the region of the caret spares what is
  beyond the caret.
-/
theorem spares_backspace_of_erased
    (hSound : editor.document.Sound)
    {row : Row Identity}
    (hRegion :
      editor.document.region? editor.caret.region = some row)
    (hSelected : editor.caret.selected = false)
    {cursor erased : Cursor Identity}
    (hCursor : editor.cursor = .ok cursor)
    (hRow : cursor.row = row)
    (hErase : cursor.eraseBack = .ok erased)
    (hAfter : erased.gap.after = cursor.gap.after) :
    editor.Spares editor.backspace.editor := by
  have hRewrites :=
    rewrites_backspace hSound hRegion hSelected hCursor
      hErase
  rcases Document.region?_eq_some_iff.mp hRegion with
    ⟨steps, hSteps, hAt⟩
  have hSolid := hSound.solid steps row hAt
  refine ⟨?_, hRewrites.selected, ?_⟩
  · rw [← hRow] at hRegion hSolid
    exact size_of_rewrites hRewrites hRegion
      (Cursor.size_eraseBack hSolid hErase)
  · rw [beyond?_of_rewrites hRewrites
      (sound_backspace hSound) hSteps, beyond?, hSteps,
      Option.map_some, hAfter,
      ← gap_eq_of_cursor hRegion hCursor]
    cases steps with
    | nil =>
        rcases Option.some.inj hAt with rfl
        rfl
    | cons step steps => rfl

/-
  Removing the construct around the caret spares what is
  beyond the caret.
-/
theorem spares_removeOwner
    (hSound : editor.document.Sound)
    {owner : Identity}
    {slot : Slot}
    (hSlot : editor.caret.region = .slot owner slot)
    {row : Row Identity}
    (hRegion :
      editor.document.region? editor.caret.region =
        some row) :
    editor.Spares (editor.removeOwner owner).editor := by
  rw [hSlot] at hRegion
  rcases removes_removeOwner hSound hRegion with
    ⟨path, left, right, row', hRemoves⟩
  rcases hRemoves.place with ⟨node, hId, hIndex, hOuter⟩
  rcases hRemoves.rewrites with
    ⟨region, hRegionOf, hRewrites⟩
  have hSteps :=
    Document.stepsTo?_of_regionOf? hSound hRegionOf hOuter
  have hOld :=
    Document.region?_eq_some_iff.mpr
      ⟨path.steps, hSteps, hOuter⟩
  refine ⟨?_, hRewrites.selected, ?_⟩
  · have hSolid := hSound.solid path.steps _ hOuter
    rw [Row.isSolid_append, Row.isSolid_cons] at hSolid
    have hNode := Node.size_pos hSolid.2.1
    refine size_of_rewrites hRewrites hOld ?_
    rw [← Row.size_cells row', hRemoves.cells]
    simp only [Row.size_append, Row.size_cells,
      Row.size_cons]
    omega
  · have hInside :
        editor.document.stepsTo? editor.caret.region =
          some (path.stepsInto slot) := by
      rw [hSlot, Document.stepsTo?, hRemoves.found]
      rfl
    rw [beyond?_of_rewrites hRewrites
      (sound_removeOwner hSound owner) hSteps, beyond?,
      hInside, Option.map_some]
    rcases path with ⟨steps, index⟩
    cases steps with
    | nil =>
        rcases Option.some.inj hOuter with hRoot
        rw [hRoot, Path.stepsInto, List.nil_append,
          Row.beyond, Row.beyond, ← hIndex, ← List.drop_drop,
          List.drop_left]
        rfl
    | cons step steps => rfl

/-
  A caret in the outermost row is at the very start if there
  is nothing before it.
-/
theorem eq_start_of_nothingBefore
    (hIn : editor.caret.region = .root)
    (hSelected : editor.caret.selected = false)
    {cursor : Cursor Identity}
    (hPlaced : editor.caret.IsPlaced cursor.row)
    (hIndex : cursor.index = editor.caret.index)
    (hOffset : cursor.offset = editor.caret.offset)
    (hErase : cursor.eraseBack = .error .nothingBefore) :
    editor.caret = .start := by
  rcases Cursor.start_of_nothingBefore hErase with
    ⟨hLeft, hStart⟩
  have hFirst : editor.caret.index = 0 := by
    rw [← hIndex, Cursor.index, hLeft]
    rfl
  have hNone : editor.caret.offset = 0 := by
    by_cases hRun :
        ∃ run, cursor.row[editor.caret.index]? =
          some (.text run)
    · rcases hRun with ⟨run, hRun⟩
      rw [← hIndex, Cursor.getElem?_row_eq_some_iff] at hRun
      rcases hRun with ⟨rest, hRight⟩
      rw [← hOffset]
      exact hStart run rest hRight
    · rw [not_exists] at hRun
      exact hPlaced.between hRun
  rcases editor with
    ⟨document, ⟨region, index, offset, selected⟩⟩
  simp only at hIn hFirst hNone hSelected
  rw [hIn, hFirst, hNone, hSelected, Caret.start]

/-
  With nothing before the caret the construct around it is
  removed, or in the outermost row nothing is.
-/
theorem backspace_of_nothingBefore
    (hSelected : editor.caret.selected = false)
    {cursor : Cursor Identity}
    (hCursor : editor.cursor = .ok cursor)
    (hErase : cursor.eraseBack = .error .nothingBefore) :
    editor.backspace =
      match editor.caret.region with
      | .root => .refused editor .nothingBefore
      | .slot owner _ => editor.removeOwner owner := by
  rw [backspace]
  simp only [hCursor, hSelected, Bool.false_eq_true, if_false,
    hErase]
  cases editor.caret.region <;> rfl

/-
  Deleting backwards spares what is beyond the caret, or the
  caret is at the very start and nothing changes.
-/
theorem backspace_cases
    (hSound : editor.document.Sound)
    (hPlaced : editor.IsPlaced)
    (hSelected : editor.caret.selected = false) :
    editor.Spares editor.backspace.editor ∨
      editor.caret = .start ∧
        editor.backspace.editor = editor := by
  rcases hPlaced with ⟨row, hRegion, hPlaced⟩
  rcases Document.region?_eq_some_iff.mp hRegion with
    ⟨steps, _, hAt⟩
  rcases Row.exists_cursor? (hSound.solid steps row hAt)
      hPlaced with
    ⟨cursor, hFound, hCursorPlaced⟩
  have hCursor := cursor_of_cursor? hRegion hSelected hFound
  rcases Row.cursor?_eq_some_iff.mp hFound with
    ⟨rfl, hIndex, hOffset⟩
  rcases Cursor.erases_or_nothingBefore hCursorPlaced with
    ⟨erased, hErase, hAfter⟩ | hErase
  · exact .inl
      (spares_backspace_of_erased hSound hRegion hSelected
        hCursor rfl hErase hAfter)
  · rw [backspace_of_nothingBefore hSelected hCursor hErase]
    cases hIn : editor.caret.region with
    | slot owner slot =>
        exact .inl (spares_removeOwner hSound hIn hRegion)
    | root =>
        have hStart :=
          eq_start_of_nothingBefore hIn hSelected hPlaced
            hIndex hOffset hErase
        exact .inr ⟨hStart, rfl⟩

end Deleting

------------------------------------------------------------
-- Holding the Key
------------------------------------------------------------

/-
  There is nothing left to delete: the caret is pulled back
  to the very start, and deleting backwards does nothing
  there.
-/
structure IsSpent
    (editor : Editor) :
    Prop where
  atStart : editor.document.clamp? editor.caret = some .start
  stuck :
    (backspace ⟨editor.document, .start⟩).editor =
      ⟨editor.document, .start⟩

/-
  What deleting again and again keeps: some atoms are beyond
  an unselected caret in a document that is reached by
  editing.
-/
structure Keeps
    (atoms : Row Identity)
    (editor : Editor) :
    Prop where
  reachable : editor.document.Reachable
  placed :
    ∃ caret,
      editor.document.clamp? editor.caret = some caret ∧
        caret.selected = false ∧
        beyond? ⟨editor.document, caret⟩ = some atoms

section Holding

variable {editor : Editor} {atoms : Row Identity}

/- A caret that is placed is not pulled anywhere. -/
theorem IsPlaced.clamp?
    (hPlaced : editor.IsPlaced) :
    editor.document.clamp? editor.caret =
      some editor.caret := by
  rcases hPlaced with ⟨row, hRegion, hPlaced⟩
  rw [Document.clamp?, hRegion, Option.map_some,
    Caret.clampTo_of_isPlaced hPlaced]

/- The very start of a document is a place in it. -/
theorem isPlaced_start
    (document : Document) :
    IsPlaced ⟨document, .start⟩ :=
  ⟨document.root, rfl,
    Caret.isPlaced_zero .root false document.root⟩

/- Everything is beyond the very start of a document. -/
theorem beyond?_start
    (document : Document) :
    beyond? ⟨document, .start⟩ = some document.root.atoms := by
  have hAtoms :=
    Row.atoms_eq_gap
      (Caret.isPlaced_zero .root false document.root) rfl
  have hBefore :
      (document.root.gap .start).before = [] := by
    rw [Row.gap, Caret.start]
    simp only [Bool.false_eq_true, if_false]
    split
    · simp [Row.atoms]
    · simp [Row.atoms]
  rw [← Caret.start, hBefore, List.nil_append] at hAtoms
  rw [hAtoms]
  rfl

/- Where the key is pressed, the caret is pulled back first. -/
theorem fst_apply_backspace
    (settings : Settings)
    {caret : Caret}
    (hClamp :
      editor.document.clamp? editor.caret = some caret) :
    (editor.apply settings .backspace).1 =
      (backspace ⟨editor.document, caret⟩).editor := by
  rcases Option.map_eq_some_iff.mp hClamp with
    ⟨row, hRegion, rfl⟩
  exact fst_apply settings hRegion rfl

/- A spent editor stays as it is. -/
theorem IsSpent.fst_apply
    (hSpent : editor.IsSpent)
    (settings : Settings) :
    (editor.apply settings .backspace).1 =
      ⟨editor.document, .start⟩ := by
  rw [fst_apply_backspace settings hSpent.atStart,
    hSpent.stuck]

/- So it is spent afterwards. -/
theorem IsSpent.apply
    (hSpent : editor.IsSpent)
    (settings : Settings) :
    (editor.apply settings .backspace).1.IsSpent := by
  rw [hSpent.fst_apply settings]
  exact ⟨(isPlaced_start _).clamp?, hSpent.stuck⟩

/- The key keeps the atoms that are beyond the caret. -/
theorem Keeps.apply
    (hKeeps : editor.Keeps atoms)
    (settings : Settings) :
    (editor.apply settings .backspace).1.Keeps atoms ∧
      ((editor.apply settings
              .backspace).1.document.root.size <
          editor.document.root.size ∨
        editor.IsSpent) := by
  have hSound := hKeeps.reachable.sound
  rcases hKeeps.placed with
    ⟨caret, hClamp, hSelected, hBeyond⟩
  have hPressed := fst_apply_backspace settings hClamp
  have hReachable :=
    hKeeps.reachable.apply settings editor.caret .backspace
  have hPlaced := isPlaced_clamp? hClamp
  have hAfter :=
    (@isPlaced_backspace ⟨editor.document, caret⟩ hSound
      hPlaced).clamp?
  rw [hPressed] at hReachable ⊢
  rcases @backspace_cases ⟨editor.document, caret⟩ hSound
      hPlaced hSelected with
    hSpares | ⟨hStart, hSame⟩
  · exact
      ⟨⟨hReachable, _, hAfter, hSpares.unselected,
        hSpares.beyond.trans hBeyond⟩, .inl hSpares.smaller⟩
  · simp only at hStart
    rcases hStart with rfl
    rw [hSame]
    exact
      ⟨⟨hKeeps.reachable, _, (isPlaced_start _).clamp?, rfl,
        hBeyond⟩, .inr ⟨hClamp, hSame⟩⟩

/- One more press is a press after the others. -/
theorem run_backspace_succ
    (settings : Settings)
    (editor : Editor)
    (n : Nat) :
    run settings editor (.replicate (n + 1) .backspace) =
      ((run settings editor
          (.replicate n .backspace)).apply settings
        .backspace).1 := by
  rw [List.replicate_succ', run, List.foldl_append]
  rfl

/-
  As long as the key is held, each press makes the document
  smaller, until nothing is left to delete.
-/
theorem size_run_backspace
    (hKeeps : editor.Keeps atoms)
    (settings : Settings)
    (n : Nat) :
    (run settings editor
          (.replicate n .backspace)).Keeps atoms ∧
      ((run settings editor
              (.replicate n .backspace)).document.root.size +
            n ≤
          editor.document.root.size ∨
        (run settings editor
          (.replicate n .backspace)).IsSpent) := by
  induction n with
  | zero => exact ⟨hKeeps, .inl (Nat.le_refl _)⟩
  | succ n ih =>
      rw [run_backspace_succ]
      rcases ih with ⟨hHeld, hSize⟩
      rcases hHeld.apply settings with ⟨hPressed, hStep⟩
      refine ⟨hPressed, ?_⟩
      rcases hSize with hSize | hSpent
      · rcases hStep with hSmaller | hSpent
        · exact .inl (by omega)
        · exact .inr (hSpent.apply settings)
      · exact .inr (hSpent.apply settings)

/- When nothing is left, only what is kept remains. -/
theorem Keeps.atoms_eq
    (hKeeps : editor.Keeps atoms)
    (hSpent : editor.IsSpent) :
    editor.document.root.atoms = atoms := by
  rcases hKeeps.placed with ⟨caret, hClamp, _, hBeyond⟩
  rw [hSpent.atStart] at hClamp
  rcases Option.some.inj hClamp with rfl
  rw [beyond?_start] at hBeyond
  exact Option.some.inj hBeyond

/- When the key has been held for long, nothing is left. -/
theorem isSpent_run_backspace
    (hKeeps : editor.Keeps atoms)
    (settings : Settings)
    {n : Nat}
    (hLong : editor.document.root.size ≤ n) :
    (run settings editor
      (.replicate n .backspace)).IsSpent := by
  rcases size_run_backspace hKeeps settings n with
    ⟨hHeld, hSize | hSpent⟩
  · -- An empty document cannot get any smaller.
    rcases (hHeld.apply settings).2 with hSmaller | hSpent
    · omega
    · exact hSpent
  · exact hSpent

/-
  The last press has put the caret where it is, so it is not
  only pulled back to the very start.
-/
theorem caret_run_backspace
    (hKeeps : editor.Keeps atoms)
    (settings : Settings)
    {n : Nat}
    (hPos : 0 < n)
    (hSpent :
      (run settings editor
        (.replicate n .backspace)).IsSpent) :
    (run settings editor
        (.replicate n .backspace)).caret =
      .start := by
  obtain ⟨n, rfl⟩ := Nat.exists_eq_add_of_lt hPos
  rw [Nat.zero_add] at hSpent ⊢
  have hBefore :=
    (size_run_backspace hKeeps settings n).1.reachable.sound
  have hPlaced :=
    isPlaced_apply settings hBefore .backspace
  rw [← run_backspace_succ] at hPlaced
  have hStart := hSpent.atStart
  rw [hPlaced.clamp?] at hStart
  exact Option.some.inj hStart

end Holding

/-
  Holding the key that deletes backwards empties everything
  before the caret and stops.  Wherever an unselected caret
  has been put in a document that is reached by editing,
  each press makes the document smaller or finds the caret
  at the very start and changes nothing.  After at most as
  many presses as the document is large, the caret is there,
  and the atoms of the document are those that were beyond
  the caret.
-/
theorem run_backspace_empties
    (settings : Settings)
    {document : Document}
    (hReachable : document.Reachable)
    {caret : Caret}
    (hSelected : caret.selected = false)
    {row : Row Identity}
    (hRegion : document.region? caret.region = some row) :
    ∃ atoms,
      beyond? ⟨document, caret.clampTo row⟩ = some atoms ∧
        ∀ n,
          let held :=
            run settings ⟨document, caret⟩
              (.replicate n .backspace)
          let pressed := (held.apply settings .backspace).1
          (pressed.document.root.size <
                held.document.root.size ∨
              held.document.clamp? held.caret =
                  some .start ∧
                pressed = ⟨held.document, .start⟩) ∧
            (document.root.size ≤ n →
              held.document.clamp? held.caret =
                  some .start ∧
                (0 < n → held.caret = .start) ∧
                pressed = ⟨held.document, .start⟩ ∧
                held.document.root.atoms = atoms) := by
  have hClamp :
      document.clamp? caret = some (caret.clampTo row) := by
    rw [Document.clamp?, hRegion, Option.map_some]
  rcases Document.region?_eq_some_iff.mp hRegion with
    ⟨steps, hSteps, _⟩
  have hBeyond :
      beyond? ⟨document, caret.clampTo row⟩ =
        some
          (document.root.beyond
            (document.root.gap (caret.clampTo row)).after
            steps) := by
    rw [beyond?, Caret.region_clampTo, hSteps,
      Option.map_some]
  have hKeeps : Keeps _ ⟨document, caret⟩ :=
    ⟨hReachable, _, hClamp,
      Caret.selected_clampTo hSelected row, hBeyond⟩
  refine ⟨_, hBeyond, ?_⟩
  intro n held pressed
  have hHeld := (size_run_backspace hKeeps settings n).1
  constructor
  · rcases (hHeld.apply settings).2 with hSmaller | hSpent
    · exact .inl hSmaller
    · exact .inr ⟨hSpent.atStart, hSpent.fst_apply settings⟩
  · intro hLong
    have hSpent := isSpent_run_backspace hKeeps settings hLong
    refine
      ⟨hSpent.atStart, ?_, hSpent.fst_apply settings,
        hHeld.atoms_eq hSpent⟩
    intro hPos
    exact caret_run_backspace hKeeps settings hPos hSpent

/-
  Three presses in the numerator of a fraction take the
  numerator and the fraction, but not the run after it.
-/
theorem empties_before_run :
    ∃ document : Document,
      document.Reachable ∧
        (run .standard
                ⟨document, ⟨.slot 0 .numerator, 0, 1, false⟩⟩
                (.replicate 3
                  .backspace)).document.root.atoms =
            [.text ['b']] := by
  have hReachable :=
    ((Document.Reachable.empty.apply .standard .start
        (.type 'b')).apply .standard .start .fraction).apply
      .standard ⟨.slot 0 .numerator, 0, 0, false⟩ (.type 'a')
  refine ⟨_, hReachable, ?_⟩
  rcases @run_backspace_empties .standard _ hReachable
      ⟨.slot 0 .numerator, 0, 1, false⟩ rfl
      [.text ['a']] rfl with
    ⟨atoms, hBeyond, hHeld⟩
  have hAtoms : atoms = [.text ['b']] :=
    (Option.some.inj hBeyond).symm
  rw [((hHeld 3).2 (by decide)).2.2.2, hAtoms]

end Editor

end FormulaEditor
