import FormulaEditor.Proofs.Document.Drafts
import FormulaEditor.Proofs.Document.Shape
import FormulaEditor.Proofs.Editing.Carets

/-
  This file proves that deleting backwards undoes what has
  just been inserted: the text of the document is what it
  was before, and so is its tree unless a continuation was
  under the caret or two runs of the row met.

  Key definitions include:
    * `Node.IsProper`
    * `Document.ReachableUnder`
    * `Cursor.Restores`
    * `Intent.Undone`

  Key theorems include:
    * `Row.toText_atoms`
    * `Document.ReachableUnder.proper`
    * `Cursor.restores_type`
    * `Cursor.restores_insert`
    * `Editor.run_undone`
-/

namespace FormulaEditor

variable {ι : Type}

------------------------------------------------------------
-- Continuations That Are Not Written
------------------------------------------------------------

/- Only an atom is written as anything. -/
def Node.IsProper
    (node : Node ι) :
    Prop :=
  node.isAtom = false → node.toText = []

/- Atoms are proper whatever they are written as. -/
theorem Node.isProper_of_isAtom
    {node : Node ι}
    (hAtom : node.isAtom = true) :
    node.IsProper := by
  intro hNot
  rw [hAtom] at hNot
  cases hNot

/- What is no continuation is proper. -/
theorem Node.isProper_of_settled
    {node : Node ι}
    (hSettled : node.isContinuation = false) :
    node.IsProper := by
  cases node with
  | text run => exact isProper_of_isAtom rfl
  | construct => exact isProper_of_isAtom rfl
  | continuation => cases hSettled

/- Whether a node is proper is seen cell by cell. -/
theorem Node.isCellwise_isProper :
    IsCellwise (IsProper : Node ι → Prop) where
  text run :=
    ⟨fun _ _ _ => isProper_of_isAtom rfl,
      fun _ => isProper_of_isAtom rfl⟩
  slot slot _ _ _ _ _ := by
    rcases slot with ⟨_, _ | _⟩ <;>
      exact isProper_of_isAtom rfl

namespace Row

/- The characters of a run are written as the run. -/
theorem toText_chars
    (run : Text) :
    Row.toText (chars run : Row ι) = run := by
  induction run with
  | nil => rfl
  | cons c run ih =>
      rw [chars_cons, Row.toText, ih]
      rfl

/- A row of proper nodes is written as its atoms are. -/
theorem toText_atoms
    {row : Row ι}
    (hProper : ∀ node ∈ row, node.IsProper) :
    Row.toText row.atoms = row.toText := by
  induction row with
  | nil => rfl
  | cons node row ih =>
      rw [List.forall_mem_cons] at hProper
      rw [atoms, cells_cons, List.filter_append, toText_append,
        Row.toText]
      refine congrArg₂ _ ?_ (ih hProper.2)
      cases node with
      | text run =>
          rw [cells_text, filter_isAtom_chars, toText_chars]
          rfl
      | construct kind id first second =>
          exact List.append_nil _
      | continuation id content => exact (hProper.1 rfl).symm

/- Rows are written alike if they have the same atoms. -/
theorem toText_of_atoms
    {row other : Row ι}
    (hRow : ∀ node ∈ row, node.IsProper)
    (hOther : ∀ node ∈ other, node.IsProper)
    (hAtoms : row.atoms = other.atoms) :
    row.toText = other.toText := by
  rw [← toText_atoms hRow, hAtoms, toText_atoms hOther]

/- A row is proper if its cells are some of proper ones. -/
theorem isProper_of_cells_sublist
    {row other : Row ι}
    (hCells : (cells row).Sublist (cells other))
    (hProper : ∀ node ∈ other, node.IsProper) :
    ∀ node ∈ row, node.IsProper := by
  intro node hMem
  cases node with
  | text run => exact Node.isProper_of_isAtom rfl
  | construct => exact Node.isProper_of_isAtom rfl
  | continuation id content =>
      have hCell :
          Node.continuation id content ∈ cells other :=
        hCells.subset
          (List.mem_flatMap.mpr
            ⟨_, hMem, List.mem_singleton_self _⟩)
      rcases List.mem_flatMap.mp hCell with
        ⟨node, hNode, hHere⟩
      cases node with
      | text run =>
          rcases List.mem_map.mp hHere with ⟨c, _, hChar⟩
          cases hChar
      | construct => cases List.mem_singleton.mp hHere
      | continuation =>
          rw [List.mem_singleton.mp hHere]
          exact hProper _ hNode

end Row

------------------------------------------------------------
-- Documents Reached Under Some Settings
------------------------------------------------------------

namespace Document

/-
  The documents that come from reading a text by any number
  of edits under some of the settings, rereadings and
  identities that are handed out.
-/
inductive ReachableUnder
    (allowed : Settings → Prop) :
    Document → Prop where
  | read (next : Identity) (s : Text) :
      ReachableUnder allowed (ofTextFrom next s)
  | reread {document : Document} (s : Text) :
      ReachableUnder allowed document →
        ReachableUnder allowed (document.reread s)
  | allocate {document : Document} :
      ReachableUnder allowed document →
        ReachableUnder allowed document.allocate.2
  | adopt {document : Document} (content : Node Unit) :
      ReachableUnder allowed document →
        ReachableUnder allowed (document.adopt content).2
  | apply
      {document : Document}
      (settings : Settings)
      (caret : Caret)
      (intent : Intent) :
      allowed settings →
        ReachableUnder allowed document →
        ReachableUnder allowed
          (Editor.apply settings ⟨document, caret⟩
            intent).1.document

namespace ReachableUnder

variable {allowed : Settings → Prop} {document : Document}

/- What is reached under some settings is reached. -/
theorem reachable
    (hReachable : document.ReachableUnder allowed) :
    document.Reachable := by
  induction hReachable with
  | read next s => exact .read next s
  | reread s _ ih => exact ih.reread s
  | allocate _ ih => exact ih.allocate
  | adopt content _ ih => exact ih.adopt content
  | apply settings caret intent _ _ ih =>
      exact ih.apply settings caret intent

end ReachableUnder

end Document

/- A text is read as a tree of proper nodes. -/
theorem Row.throughout_isProper_number
    (s : Text)
    (next : Identity) :
    (Row.number next (Row.ofText s)).Throughout
      Node.IsProper := by
  refine Row.throughout_number ?_ (Row.settled_ofText s) next
  intro node hSettled start
  refine Node.isProper_of_settled ?_
  cases node with
  | text run => rfl
  | construct => rfl
  | continuation => cases hSettled

/-
  Whatever an intent adds is proper, if continuations are
  filled with a placeholder.
-/
theorem isProper_additions
    {settings : Settings}
    (hPlaceholder : isPlaceholder settings.placeholder = true)
    (intent : Intent) :
    ∀ node ∈ intent.additions settings, ∀ next : Identity,
      Row.Throughout Node.IsProper [node.number next] := by
  refine Intent.forall_mem_additions ?_ ?_ ?_ ?_
  · intro next
    refine (Row.throughout_construct_cons ..).mpr ?_
    exact ⟨Node.isProper_of_isAtom rfl, Row.throughout_nil,
      Row.throughout_nil, Row.throughout_nil⟩
  · intro next
    refine (Row.throughout_construct_cons ..).mpr ?_
    exact ⟨Node.isProper_of_isAtom rfl,
      Row.throughout_isProper_number _ _,
      Row.throughout_isProper_number _ _,
      Row.throughout_nil⟩
  · intro next
    refine (Row.throughout_continuation_cons ..).mpr
      ⟨fun _ => ?_, Row.throughout_nil⟩
    simp [Node.toText, Text.withoutPlaceholders,
      hPlaceholder]
  · intro c _ next
    exact (Row.throughout_text_cons ..).mpr
      ⟨Node.isProper_of_isAtom rfl, Row.throughout_nil⟩

/-
  No continuation is written in a document that is reached
  while they are filled with placeholders.
-/
theorem Document.ReachableUnder.proper
    {document : Document}
    (hReachable :
      document.ReachableUnder
        (isPlaceholder ·.placeholder = true)) :
    document.root.Throughout Node.IsProper := by
  induction hReachable with
  | read next s => exact Row.throughout_isProper_number s _
  | reread s _ _ => exact Row.throughout_isProper_number s _
  | allocate _ ih => exact ih
  | adopt content _ ih => exact ih
  | apply settings caret intent hAllowed _ ih =>
      exact (Editor.edits_apply settings ⟨_, caret⟩
        intent).throughout Node.isCellwise_isProper
        (isProper_additions hAllowed intent) ih

------------------------------------------------------------
-- Cursors
------------------------------------------------------------

namespace Cursor

open Row

/-
  A row has been restored after an insertion at a cursor: it
  has all cells but a continuation that was at the place,
  and it is the row of the cursor if none was there and no
  two runs met in that row.
-/
structure Restores
    (cursor : Cursor ι)
    (row : Row ι) :
    Prop where
  cells : Row.cells row = cursor.before ++ cursor.ahead
  same :
    (∀ node, cursor.row[cursor.index]? = some node →
        node.isContinuation = false) →
      IsJoined cursor.row →
      row = cursor.row

/- A settled place is in a row of runs that are not empty. -/
theorem isPlaced_of_isSettled
    {cursor : Cursor ι}
    (hSolid : IsSolid cursor.row)
    (hSettled : cursor.IsSettled) :
    cursor.IsPlaced where
  solid := hSolid
  inRun run right hRight := by
    rw [IsSettled, hRight] at hSettled
    exact hSettled

/- A run that is not empty is kept as it is. -/
theorem keepRun_of_ne_nil
    {run : Text}
    (hRun : run ≠ [])
    (left right : Row ι)
    (offset : Nat) :
    keepRun left run right offset =
      ⟨left, .text run :: right, offset⟩ := by
  cases run with
  | nil => exact absurd rfl hRun
  | cons c run => rfl

/- Where no runs meet two parts are brought together as is. -/
theorem row_join
    {left right : Row ι}
    (hMeet :
      left.startsInRun = true → right.startsInRun = false) :
    (join left right).row = left.reverse ++ right := by
  unfold join
  split
  · cases hMeet rfl
  · exact (row_cons_left _ _ _ 0 _).symm
  · rfl

------------------------------------------------------------
-- Deleting What Has Been Typed
------------------------------------------------------------

/- The character that was typed into a run is deleted. -/
theorem eraseBack_typed
    (left right : Row ι)
    {run : Text}
    {offset : Nat}
    (hOffset : offset ≤ run.length)
    (c : Char) :
    eraseBack
        ⟨left,
          .text (run.take offset ++ c :: run.drop offset) ::
            right,
          offset + 1⟩ =
      .ok (keepRun left run right offset) := by
  have hLength : (run.take offset).length = offset :=
    List.length_take_of_le hOffset
  have hLess :
      offset <
        (run.take offset ++ c :: run.drop offset).length := by
    rw [List.length_append, List.length_cons, hLength]
    exact Nat.lt_add_of_pos_right (Nat.succ_pos _)
  have hErase :
      (run.take offset ++ c :: run.drop offset).eraseIdx
          offset =
        run := by
    rw [List.eraseIdx_append_of_length_le
      (Nat.le_of_eq hLength), hLength, Nat.sub_self,
      List.eraseIdx_cons_zero, List.take_append_drop]
  rw [eraseBack, if_pos hLess, hErase]

/-
  Off a continuation, typing puts a character into a run of
  the row, or into a new run between others.
-/
theorem exists_typed
    {cursor : Cursor ι}
    (hSolid : IsSolid cursor.row)
    (hSettled : cursor.IsSettled)
    (hOff :
      ∀ node, cursor.row[cursor.index]? = some node →
        node.isContinuation = false)
    (c : Char) :
    ∃ left run right offset,
      offset ≤ run.length ∧
        cursor.type c =
          ⟨left,
            .text (run.take offset ++ c :: run.drop offset) ::
              right,
            offset + 1⟩ ∧
        (keepRun left run right offset).row = cursor.row := by
  have hHere :
      ∀ node rest, cursor.right = node :: rest →
        node.isContinuation = false := by
    intro node rest hRight
    exact hOff node
      (getElem?_row_eq_some_iff.mpr ⟨rest, hRight⟩)
  unfold type
  split
  · cases hHere _ _ rfl
  · cases hHere _ _ rfl
  · next left run right offset =>
      have hRun : run ≠ [] := by
        rintro rfl
        exact hSolid _
          (List.mem_append_right _ (List.mem_cons_self ..)) rfl
      refine ⟨left, run, right, offset, hSettled, rfl, ?_⟩
      rw [keepRun_of_ne_nil hRun]
  · next run left right offset _ _ _ =>
      have hRun : run ≠ [] := by
        rintro rfl
        rw [row, isSolid_append, isSolid_reverse] at hSolid
        exact (isSolid_cons.mp hSolid.1).1 rfl
      refine ⟨left, run, right, run.length, Nat.le_refl _,
        ?_, ?_⟩
      · rw [List.take_length, List.drop_length]
      · rw [keepRun_of_ne_nil hRun]
        exact (row_cons_left ..).symm
  · next left right offset _ _ _ hLeft =>
      refine
        ⟨left, [], right, 0, Nat.le_refl _, rfl, ?_⟩
      refine row_join ?_
      intro hStarts
      rw [startsInRun_of_ne hLeft] at hStarts
      cases hStarts

/- To delete what has been typed restores the row. -/
theorem restores_type
    {cursor : Cursor ι}
    (hSolid : IsSolid cursor.row)
    (hSettled : cursor.IsSettled)
    (c : Char) :
    ∃ erased,
      (cursor.type c).eraseBack = .ok erased ∧
        cursor.Restores erased.row := by
  have hTyped : (cursor.type c).IsPlaced :=
    isPlaced_of_isSettled (isSolid_type hSolid c)
      (isSettled_type hSettled c)
  have hUnlink : (cursor.type c).unlink? = none := by
    unfold type
    split <;> rfl
  rcases eraseBack_of_unlink?_none hTyped hUnlink with
    ⟨erased, cell, hErase, _, hBefore, hAfter⟩ |
      ⟨hBefore, _⟩
  · rw [before_type] at hBefore
    rw [after_type] at hAfter
    refine ⟨erased, hErase, ?_, ?_⟩
    · rw [cells_row, hAfter,
        (List.append_inj' hBefore rfl).1]
    · intro hOff _
      rcases exists_typed hSolid hSettled hOff c with
        ⟨left, run, right, offset, hOffset, hType, hRow⟩
      rw [hType, eraseBack_typed left right hOffset]
        at hErase
      rw [← Except.ok.inj hErase, hRow]
  · rw [before_type] at hBefore
    simp at hBefore

------------------------------------------------------------
-- Removing What Has Been Inserted
------------------------------------------------------------

/-
  Off a continuation, removing the construct that has been
  inserted joins again what it has split.
-/
theorem exists_inserted
    (cursor : Cursor ι)
    (node : Node ι) :
    ∃ left right,
      cursor.insert node = ⟨left, node :: right, 0⟩ ∧
        ((∀ here, cursor.row[cursor.index]? = some here →
              here.isContinuation = false) →
            IsJoined cursor.row →
          (join left right).row = cursor.row) := by
  unfold insert
  split
  · next left id content right _ =>
      refine ⟨left, right, rfl, ?_⟩
      intro hOff
      cases hOff _
        (getElem?_row_eq_some_iff.mpr ⟨right, rfl⟩)
  · next left run right offset =>
      split
      · refine ⟨left, .text run :: right, rfl, ?_⟩
        intro _ hJoined
        rw [row, isJoined_reverse_append] at hJoined
        exact row_join hJoined.2.2
      · split
        · refine ⟨.text run :: left, right, rfl, ?_⟩
          intro _ hJoined
          rw [row, isJoined_reverse_append, isJoined_cons]
            at hJoined
          have hMeet :
              startsInRun (.text run :: left) = true →
                startsInRun right = false :=
            hJoined.2.1.1
          rw [row_join hMeet]
          exact row_cons_left left (.text run) right 0 offset
        · refine ⟨.text (run.take offset) :: left,
            .text (run.drop offset) :: right, rfl, ?_⟩
          intro _ _
          rw [join, List.take_append_drop]
          rfl
  · next left right offset _ _ =>
      refine ⟨left, right, rfl, ?_⟩
      intro _ hJoined
      rw [row, isJoined_reverse_append] at hJoined
      exact row_join hJoined.2.2

/- To remove what has been inserted restores the row. -/
theorem restores_insert
    (cursor : Cursor ι)
    {node : Node ι}
    (hConstruct : node.isConstruct = true) :
    ∃ left right,
      cursor.insert node = ⟨left, node :: right, 0⟩ ∧
        cursor.Restores (join left right).row := by
  rcases exists_inserted cursor node with
    ⟨left, right, hInsert, hSame⟩
  refine ⟨left, right, hInsert, ?_, hSame⟩
  have hBefore := before_insert cursor hConstruct
  have hAfter := after_insert cursor hConstruct
  rw [hInsert] at hBefore hAfter
  cases node with
  | text run => cases hConstruct
  | continuation => cases hConstruct
  | construct kind id first second =>
      rw [cells_join, ← hBefore, (List.cons.inj hAfter).2.symm]
      rfl

/- A row that has been restored is written as it was. -/
theorem Restores.toText
    {cursor : Cursor Identity}
    {row : Row Identity}
    (hRestores : cursor.Restores row)
    (hProper : ∀ node ∈ cursor.row, node.IsProper) :
    row.toText = cursor.row.toText := by
  have hSublist :
      (Row.cells row).Sublist (Row.cells cursor.row) := by
    rw [hRestores.cells, cells_row]
    exact (ahead_sublist_after cursor).append_left _
  refine toText_of_atoms
    (isProper_of_cells_sublist hSublist hProper) hProper ?_
  rw [atoms_row, atoms, hRestores.cells, List.filter_append,
    filter_ahead]
  rfl

end Cursor

------------------------------------------------------------
-- Editors
------------------------------------------------------------

namespace Editor

section Replaced

variable {document changed : Document} {region : Region}

/- Deleting backwards where a row has been closed. -/
theorem replaces_backspace
    {cursor erased : Cursor Identity}
    (hReplaces :
      document.Replaces region cursor.row changed)
    (hSound : changed.Sound)
    (hErase : cursor.eraseBack = .ok erased) :
    document.Replaces region erased.row
      (backspace
          ⟨changed,
            ⟨region, cursor.index, cursor.offset,
              false⟩⟩).editor.document := by
  have hCursor := cursor_of_replaces hReplaces hSound
  rcases @exists_put?
      ⟨changed,
        ⟨region, cursor.index, cursor.offset, false⟩⟩
      cursor.row (hReplaces.region? hSound) erased with
    ⟨after, hPut, hAgain⟩
  rw [backspace]
  simp only [hCursor, Bool.false_eq_true, if_false, hErase,
    put, hPut]
  exact hReplaces.trans hSound hAgain

section Inserted

variable {left right : Row Identity} {slot : Slot}
variable {id : Identity} {below other : Row Identity}

/- Removing a construct closes the row that it was in. -/
theorem replaces_removeOwner
    (hReplaces :
      document.Replaces region
        (Cursor.row
          ⟨left, slot.node id below other :: right, 0⟩)
        changed)
    (hSound : changed.Sound)
    (caret : Caret) :
    document.Replaces region (Cursor.join left right).row
      (removeOwner ⟨changed, caret⟩ id).editor.document := by
  rcases hReplaces with ⟨steps, hSteps, hReplace⟩
  have hPath : changed.path? id = some ⟨steps, left.length⟩ :=
    path?_of_replaceAt? hReplace hSound rfl id?_node
  rcases @exists_removeOwner ⟨changed, caret⟩ hSound id _
      hPath left right (slot.node id below other)
      (Row.at?_replaceAt? hReplace) rfl with
    ⟨_, root, _, _, hAgain, hEq⟩
  rw [hEq]
  refine ⟨steps, hSteps, ?_⟩
  rw [← Row.replaceAt?_replaceAt? hReplace]
  exact hAgain

/- At the start of an empty slot its construct is removed. -/
theorem replaces_backspace_of_empty
    (hReplaces :
      document.Replaces region
        (Cursor.row
          ⟨left, slot.node id [] other :: right, 0⟩)
        changed)
    (hSound : changed.Sound) :
    document.Replaces region (Cursor.join left right).row
      (backspace
          ⟨changed,
            ⟨.slot id slot, 0, 0,
              false⟩⟩).editor.document := by
  have hRegion :
      changed.region? (.slot id slot) = some [] :=
    region?_of_replaces hReplaces hSound rfl id?_node
      region?_node
  have hCursor :
      Editor.cursor
          ⟨changed, ⟨.slot id slot, 0, 0, false⟩⟩ =
        .ok ⟨[], [], 0⟩ :=
    @cursor_of_cursor?
      ⟨changed, ⟨.slot id slot, 0, 0, false⟩⟩ [] hRegion rfl
      _ rfl
  have hRemoved :=
    replaces_removeOwner hReplaces hSound
      ⟨.slot id slot, 0, 0, false⟩
  rw [backspace]
  simp only [hCursor, Bool.false_eq_true, if_false,
    Cursor.eraseBack]
  exact hRemoved

/- A selected slot of a construct is emptied. -/
theorem exists_emptied
    (hReplaces :
      document.Replaces region
        (Cursor.row
          ⟨left, slot.node id below other :: right, 0⟩)
        changed)
    (hSound : changed.Sound) :
    ∃ emptied,
      (backspace
            ⟨changed, ⟨.slot id slot, 0, 0, true⟩⟩).editor =
          ⟨emptied, ⟨.slot id slot, 0, 0, false⟩⟩ ∧
        document.Replaces region
          (Cursor.row
            ⟨left, slot.node id [] other :: right, 0⟩)
          emptied := by
  have hRegion :
      changed.region? (.slot id slot) = some below :=
    region?_of_replaces hReplaces hSound rfl id?_node
      region?_node
  have hCursor :
      Editor.cursor ⟨changed, ⟨.slot id slot, 0, 0, true⟩⟩ =
        .ok .empty :=
    @cursor_of_selected
      ⟨changed, ⟨.slot id slot, 0, 0, true⟩⟩ below hRegion rfl
  rcases @exists_put?
      ⟨changed, ⟨.slot id slot, 0, 0, true⟩⟩ below hRegion
      .empty with
    ⟨emptied, hPut, hEmptied⟩
  refine ⟨emptied, ?_, ?_⟩
  · rw [backspace]
    simp only [hCursor, if_true, put, hPut]
    rfl
  · rcases hReplaces with ⟨steps, hSteps, hReplace⟩
    rcases hEmptied with ⟨into, hInto, hAgain⟩
    have hPath :
        changed.path? id = some ⟨steps, left.length⟩ :=
      path?_of_replaceAt? hReplace hSound rfl id?_node
    have hSlot :
        changed.stepsTo? (.slot id slot) =
          some (steps ++ [⟨left.length, slot⟩]) :=
      Option.map_eq_some_iff.mpr ⟨_, hPath, rfl⟩
    rw [hSlot] at hInto
    rcases Option.some.inj hInto with rfl
    have hInner :
        Row.replaceAt?
            (Cursor.row
              ⟨left, slot.node id below other :: right, 0⟩)
            [] [⟨left.length, slot⟩] =
          some
            (Cursor.row
              ⟨left, slot.node id [] other :: right, 0⟩) :=
      Row.replaceAt?_cons_eq_some_iff.mpr
        ⟨left.reverse, right, id, below, other, [], rfl,
          List.length_reverse, rfl, rfl⟩
    have hOuter :
        changed.root.replaceAt? []
            (steps ++ [⟨left.length, slot⟩]) =
          some emptied.root :=
      hAgain
    rw [Row.replaceAt?_append (Row.at?_replaceAt? hReplace),
      hInner, Option.bind_some,
      Row.replaceAt?_replaceAt? hReplace] at hOuter
    exact ⟨steps, hSteps, hOuter⟩

end Inserted

end Replaced

------------------------------------------------------------
-- Undoing Insertions
------------------------------------------------------------

section Undoing

variable {editor : Editor} {row : Row Identity}
variable {cursor : Cursor Identity}

/- A character is deleted as soon as it has been typed. -/
theorem restores_run_type
    (settings : Settings)
    (hSound : editor.document.Sound)
    (hPlaced : editor.IsPlaced)
    (hRegion :
      editor.document.region? editor.caret.region = some row)
    (hCursor : editor.cursor = .ok cursor)
    (hSolid : Row.IsSolid cursor.row)
    (c : Char) :
    ∃ restored,
      cursor.Restores restored ∧
        editor.document.Replaces editor.caret.region restored
          (run settings editor
            [.type c, .backspace]).document := by
  have hTyped := sound_type hSound c
  rcases Cursor.restores_type hSolid
      (isSettled_of_cursor hPlaced hCursor) c with
    ⟨erased, hErase, hRestores⟩
  rcases exists_put? hRegion (cursor.type c) with
    ⟨changed, hPut, hReplaces⟩
  refine ⟨erased.row, hRestores, ?_⟩
  simp only [run, List.foldl_cons, List.foldl_nil]
  rw [fst_apply_of_isPlaced settings hPlaced rfl, attempt,
    fst_apply_of_isPlaced settings
      (isPlaced_type hSound hPlaced c) rfl]
  rw [type] at hTyped ⊢
  simp only [hCursor, put, hPut] at hTyped ⊢
  exact replaces_backspace hReplaces hTyped hErase

/- A fraction is removed as soon as it has been inserted. -/
theorem restores_run_fraction
    (settings : Settings)
    (hSound : editor.document.Sound)
    (hPlaced : editor.IsPlaced)
    (hRegion :
      editor.document.region? editor.caret.region = some row)
    (hCursor : editor.cursor = .ok cursor) :
    ∃ restored,
      cursor.Restores restored ∧
        editor.document.Replaces editor.caret.region restored
          (run settings editor
            [.fraction, .backspace]).document := by
  have hPlacedLater := isPlaced_addFraction hSound hPlaced
  have hSoundLater : editor.addFraction.editor.document.Sound :=
    sound_insert hSound rfl isSolid_emptyFraction .numerator
      false
  rcases replaces_insert hRegion hCursor (.emptyFraction ())
      .numerator false with
    ⟨changed, hInsert, hReplaces⟩
  rcases @Cursor.restores_insert _ cursor
      ((Node.emptyFraction ()).number editor.document.next)
      rfl with
    ⟨left, right, hOpened, hRestores⟩
  rw [hOpened] at hReplaces
  refine ⟨(Cursor.join left right).row, hRestores, ?_⟩
  simp only [run, List.foldl_cons, List.foldl_nil]
  rw [fst_apply_of_isPlaced settings hPlaced rfl, attempt,
    fst_apply_of_isPlaced settings hPlacedLater rfl]
  rw [addFraction, hInsert] at hSoundLater ⊢
  exact @replaces_backspace_of_empty _ _ _ left right
    .numerator editor.document.next [] hReplaces hSoundLater

/-
  The first deletion after a limit has been inserted empties
  its subscript, which is selected; the second one removes
  the limit.
-/
theorem restores_run_limit
    (settings : Settings)
    (hSound : editor.document.Sound)
    (hPlaced : editor.IsPlaced)
    (hRegion :
      editor.document.region? editor.caret.region = some row)
    (hCursor : editor.cursor = .ok cursor) :
    ∃ restored,
      cursor.Restores restored ∧
        editor.document.Replaces editor.caret.region restored
          (run settings editor
            [.limit, .backspace, .backspace]).document := by
  have hPlacedLater :=
    isPlaced_addLimit hSound hPlaced settings.limit
  have hSoundLater :
      (editor.addLimit settings.limit).editor.document.Sound :=
    sound_insert hSound rfl (isSolid_limit settings.limit)
      .subscript true
  have hPlacedLast := isPlaced_backspace hSoundLater hPlacedLater
  have hSoundLast := sound_backspace hSoundLater
  rcases replaces_insert hRegion hCursor settings.limit.node
      .subscript true with
    ⟨changed, hInsert, hReplaces⟩
  rcases @Cursor.restores_insert _ cursor
      (settings.limit.node.number editor.document.next)
      rfl with
    ⟨left, right, hOpened, hRestores⟩
  rw [hOpened] at hReplaces
  refine ⟨(Cursor.join left right).row, hRestores, ?_⟩
  simp only [run, List.foldl_cons, List.foldl_nil]
  rw [fst_apply_of_isPlaced settings hPlaced rfl, attempt,
    fst_apply_of_isPlaced settings hPlacedLater rfl, attempt,
    fst_apply_of_isPlaced settings hPlacedLast rfl, attempt]
  rw [addLimit, hInsert] at hSoundLater hSoundLast ⊢
  rcases @exists_emptied _ _ _ left right .subscript
      editor.document.next _ _ hReplaces hSoundLater with
    ⟨emptied, hEmptied, hReplacesLast⟩
  rw [hEmptied] at hSoundLast ⊢
  exact replaces_backspace_of_empty hReplacesLast hSoundLast

end Undoing

end Editor

/- Something is inserted and deleted again. -/
inductive Intent.Undone : List Intent → Prop where
  | type (c : Char) : Undone [.type c, .backspace]
  | fraction : Undone [.fraction, .backspace]
  | limit : Undone [.limit, .backspace, .backspace]

/- A caret that is not selected is not when pulled back. -/
theorem Caret.selected_clampTo
    {caret : Caret}
    (hSelected : caret.selected = false)
    (row : Row Identity) :
    (caret.clampTo row).selected = false := by
  simp only [clampTo]
  split
  · rw [atEndOf]
    split <;> rfl
  · exact hSelected

namespace Editor

/- Pulling the caret back first makes no difference. -/
theorem run_clampTo
    (settings : Settings)
    {document : Document}
    {caret : Caret}
    {row : Row Identity}
    (hRegion : document.region? caret.region = some row)
    {intent : Intent}
    (hAim : ∀ editor, aim editor intent = editor)
    (intents : List Intent) :
    run settings ⟨document, caret⟩ (intent :: intents) =
      run settings ⟨document, caret.clampTo row⟩
        (intent :: intents) := by
  have hPlaced := isPlaced_clampTo hRegion
  rw [run, run, List.foldl_cons, List.foldl_cons,
    fst_apply settings hRegion (hAim _),
    fst_apply_of_isPlaced settings hPlaced (hAim _)]

/-
  Deleting backwards undoes what has just been inserted,
  wherever an unselected caret has been put in a document
  that is reached while continuations are filled with
  placeholders.  The text is what it was, and so is the tree
  unless the caret was on a continuation or two runs of the
  row met.
-/
theorem run_undone
    (settings : Settings)
    {document : Document}
    (hReachable :
      document.ReachableUnder
        (isPlaceholder ·.placeholder = true))
    {caret : Caret}
    (hSelected : caret.selected = false)
    {row : Row Identity}
    (hRegion : document.region? caret.region = some row)
    {intents : List Intent}
    (hUndone : Intent.Undone intents) :
    (run settings ⟨document, caret⟩
          intents).document.toText =
        document.toText ∧
      ((∀ node,
          row[(caret.clampTo row).index]? = some node →
            node.isContinuation = false) →
        row.IsJoined →
        (run settings ⟨document, caret⟩
            intents).document.root =
          document.root) := by
  have hSound := hReachable.reachable.sound
  have hPlaced := Caret.isPlaced_clampTo caret row
  have hUnselected := Caret.selected_clampTo hSelected row
  have hRun :
      run settings ⟨document, caret⟩ intents =
        run settings ⟨document, caret.clampTo row⟩
          intents := by
    cases hUndone <;>
      exact run_clampTo settings hRegion (fun _ => rfl) _
  rw [hRun]
  rw [← Caret.region_clampTo caret row] at hRegion
  rcases Document.region?_eq_some_iff.mp hRegion with
    ⟨steps, hSteps, hAt⟩
  have hSolid := hSound.solid steps row hAt
  rcases Row.exists_cursor? hSolid hPlaced with
    ⟨cursor, hFound, _⟩
  have hCursor :=
    @cursor_of_cursor? ⟨document, caret.clampTo row⟩ row
      hRegion hUnselected cursor hFound
  rcases Row.cursor?_eq_some_iff.mp hFound with
    ⟨rfl, hIndex, _⟩
  have hRestored :
      ∃ restored,
        cursor.Restores restored ∧
          document.Replaces
            (caret.clampTo cursor.row).region restored
            (run settings
              ⟨document, caret.clampTo cursor.row⟩
              intents).document := by
    cases hUndone with
    | type c =>
        exact restores_run_type settings hSound
          ⟨_, hRegion, hPlaced⟩ hRegion hCursor hSolid c
    | fraction =>
        exact restores_run_fraction settings hSound
          ⟨_, hRegion, hPlaced⟩ hRegion hCursor
    | limit =>
        exact restores_run_limit settings hSound
          ⟨_, hRegion, hPlaced⟩ hRegion hCursor
  rcases hRestored with
    ⟨restored, hRestores, steps', hSteps', hReplace⟩
  rw [hSteps] at hSteps'
  rcases Option.some.inj hSteps' with rfl
  refine ⟨?_, ?_⟩
  · refine Row.toText_replaceAt? hAt hReplace ?_
    exact hRestores.toText
      (hReachable.proper steps cursor.row hAt)
  · intro hOff hJoined
    rw [← hIndex] at hOff
    rw [hRestores.same hOff hJoined,
      Row.replaceAt?_self hAt] at hReplace
    exact (Option.some.inj hReplace).symm

/- A limit in the middle of a run is undone. -/
theorem undone_limit_in_run :
    let editor : Editor :=
      ⟨.ofText "ab".toList, ⟨.root, 0, 1, false⟩⟩
    let intents := [Intent.limit, .backspace, .backspace]
    (run .standard editor intents).document.toText =
        editor.document.toText ∧
      (run .standard editor intents).document.root =
        editor.document.root := by
  intro editor intents
  have hRegion :
      (Document.ofText "ab".toList).region? .root =
        some [.text "ab".toList] := by
    have hRow :
        Row.ofText "ab".toList = [.text "ab".toList] :=
      Row.ofText_of_none (by decide)
    rw [Document.ofText, Document.ofTextFrom, hRow]
    rfl
  have hUndone :=
    @run_undone .standard _ (.read 0 "ab".toList)
      ⟨.root, 0, 1, false⟩ rfl _ hRegion intents .limit
  refine ⟨hUndone.1, hUndone.2 ?_ (by decide)⟩
  intro node hNode
  rcases Option.some.inj hNode with rfl
  rfl

end Editor

end FormulaEditor
