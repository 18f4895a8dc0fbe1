import FormulaEditor.Proofs.Document.Succession
import FormulaEditor.Proofs.Editing.Navigation
import FormulaEditor.Proofs.InPlace.Workspace

/-
  This file proves that no access of a workspace fails, and
  that a workspace does what an editor does.  It needs no
  assumption about the document, in which identities may be
  repeated, nor about the caret.

  Key definitions include:
    * `InPlace.Workspace.Opened`
    * `InPlace.Workspace.Agrees`
    * `InPlace.Workspace.IsIndexed`

  Key theorems include:
    * `InPlace.Workspace.exists_opened`
    * `InPlace.Workspace.isPlaced_takeLim?`
    * `InPlace.Workspace.agrees_attempt`
    * `InPlace.Workspace.apply_of`
    * `InPlace.Workspace.agrees_run`
    * `InPlace.Workspace.isIndexed_run`
    * `InPlace.Workspace.apply_ok`
-/

namespace FormulaEditor

namespace InPlace

------------------------------------------------------------
-- Carets
------------------------------------------------------------

/- The end of a row is found without a fault. -/
theorem endOf_eq
    (region : Region)
    (row : Row Identity) :
    endOf region row = .ok (.atEndOf region row) := by
  rw [endOf, Caret.atEndOf]
  rcases hLast : row.getLast? with _ | _ | _ | _
  case some.text run =>
    have hLength : 1 ≤ row.length := by
      cases row with
      | nil => cases hLast
      | cons node row => exact Nat.succ_pos _
    simp [sub, hLength]
  all_goals rfl

/- A caret is pulled back without a fault. -/
theorem clampTo_eq
    (row : Row Identity)
    (caret : Caret) :
    clampTo row caret = .ok (caret.clampTo row) := by
  rw [clampTo, Caret.clampTo]
  split <;> simp [endOf_eq]

namespace Workspace

------------------------------------------------------------
-- Regions
------------------------------------------------------------

section Regions

variable (editor : Editor)

@[simp] theorem root_of :
    (of editor).root = editor.document.root :=
  rfl

@[simp] theorem caret_of :
    (of editor).caret = editor.caret :=
  rfl

@[simp] theorem path?_of
    (id : Identity) :
    (of editor).owners.path? id = editor.document.path? id :=
  rfl

@[simp] theorem owner?_of
    (id : Identity) :
    (of editor).owner? id = editor.document.owner? id :=
  rfl

@[simp] theorem regionOf?_of
    (path : Path) :
    (of editor).regionOf? path =
      editor.document.regionOf? path :=
  rfl

/- A region is read as in the document. -/
theorem region?_of
    (region : Region) :
    (of editor).region? region =
      editor.document.region? region := by
  cases region with
  | root => rfl
  | slot owner slot =>
      rw [region?, owner?_of, Document.owner?,
        Document.region?, Document.stepsTo?]
      cases hPath : editor.document.path? owner with
      | none => rfl
      | some path =>
          rcases Document.exists_nodeAt?_of_path? hPath with
            ⟨node, hNode, _⟩
          simp only [Document.nodeAt?, hNode, Option.map_some,
            Document.rowAt?, Row.at?_stepsInto hNode]
          cases node <;> rfl

/- What the caret is in is told as in the document. -/
theorem focus_of :
    (of editor).focus = editor.focus := by
  rw [focus, region?_of]
  rfl

end Regions

variable {editor : Editor}

/- A region is borrowed where the document has it. -/
theorem borrow?_of
    {region : Region}
    {steps : List Step}
    {row : Row Identity}
    (hSteps : editor.document.stepsTo? region = some steps)
    (hAt : editor.document.root.at? steps = some row) :
    (of editor).borrow? region = some (steps, row) := by
  cases region with
  | root =>
      rcases Option.some.inj hSteps with rfl
      rcases Option.some.inj hAt with rfl
      rfl
  | slot owner slot =>
      rcases Option.map_eq_some_iff.mp hSteps with
        ⟨path, hPath, rfl⟩
      rcases Document.exists_nodeAt?_of_path? hPath with
        ⟨node, hNode, _⟩
      rw [Row.at?_stepsInto hNode] at hAt
      simp [borrow?, hPath, hNode, hAt]

/-
  The region of the caret is opened: the row is borrowed
  where the cursor has been opened, and at the same place.
-/
structure Opened
    (editor : Editor)
    (steps : List Step)
    (row : Row Identity)
    (cursor : Cursor Identity) :
    Prop where
  leads :
    editor.document.stepsTo? editor.caret.region = some steps
  reached : editor.document.root.at? steps = some row
  opens : editor.cursor = .ok cursor
  settled : cursor.IsSettled
  place : takeSelection row editor.caret = .of cursor

/- The region of a placed caret is opened. -/
theorem exists_opened
    (hPlaced : editor.IsPlaced) :
    ∃ steps row cursor, Opened editor steps row cursor := by
  rcases hPlaced with ⟨row, hRegion, hPlaced⟩
  rcases Document.region?_eq_some_iff.mp hRegion with
    ⟨steps, hSteps, hAt⟩
  cases hSelected : editor.caret.selected with
  | true =>
      refine ⟨steps, row, .empty, hSteps, hAt,
        Editor.cursor_of_selected hRegion hSelected,
        Cursor.isSettled_zero [] [], ?_⟩
      rw [takeSelection, hSelected]
      rfl
  | false =>
      have hCursor :
          row.cursor? editor.caret.index
              editor.caret.offset =
            some
              ⟨(row.take editor.caret.index).reverse,
                row.drop editor.caret.index,
                editor.caret.offset⟩ :=
        if_pos hPlaced.inRow
      rcases Row.cursor?_eq_some_iff.mp hCursor with
        ⟨hRow, hIndex, _⟩
      refine ⟨steps, row, _, hSteps, hAt,
        Editor.cursor_of_cursor? hRegion hSelected hCursor,
        Cursor.isSettled_of_cursor? hPlaced hCursor, ?_⟩
      rw [takeSelection, hSelected, Place.of, hRow, hIndex]
      rfl

/- A row that is put back closes the region of the caret. -/
theorem close_of
    {steps : List Step}
    {place : Place Identity}
    {root : Row Identity}
    (hReplace :
      editor.document.root.replaceAt? place.row steps =
        some root)
    (region : Region) :
    (of editor).close region steps place =
      .ok (.of
        ⟨.ofRow editor.document.next root,
          ⟨region, place.index, place.offset, false⟩⟩) := by
  rw [close, putBack, root_of, hReplace]
  rfl

section Opened

variable {steps : List Step} {row : Row Identity}
variable {cursor : Cursor Identity}
variable (hOpened : Opened editor steps row cursor)
include hOpened

/- An opened region is borrowed. -/
theorem Opened.borrow? :
    (of editor).borrow? editor.caret.region =
      some (steps, row) :=
  borrow?_of hOpened.leads hOpened.reached

/- An opened region is closed, whatever was done to it. -/
theorem Opened.exists_root
    (cursor' : Cursor Identity) :
    ∃ root,
      editor.document.root.replaceAt? cursor'.row steps =
          some root ∧
        editor.put? cursor' =
          some
            ⟨.ofRow editor.document.next root,
              ⟨editor.caret.region, cursor'.index,
                cursor'.offset, false⟩⟩ := by
  rcases Row.exists_replaceAt? hOpened.reached cursor'.row with
    ⟨root, hReplace⟩
  refine ⟨root, hReplace, ?_⟩
  exact Option.map_eq_some_iff.mpr
    ⟨_, Document.setRegion?_eq_some_iff.mpr
      ⟨steps, root, hOpened.leads, hReplace, rfl⟩, rfl⟩

/- To close a region in place is to close it. -/
theorem Opened.close
    (cursor' : Cursor Identity) :
    (of editor).close editor.caret.region steps
        (.of cursor') =
      .ok (.of (editor.put cursor').editor) := by
  rcases hOpened.exists_root cursor' with
    ⟨root, hReplace, hPut⟩
  rw [close_of hReplace, Editor.put, hPut]
  rfl

end Opened

/-
  A workspace ends up as an editor does, unless there has
  been no identity left to hand out.
-/
def Agrees
    (result : Checked Workspace)
    (editor : Editor) :
    Prop :=
  result = .ok (.of editor) ∨
    result = .error .exhausted ∧
      UInt32.size ≤ editor.document.next

------------------------------------------------------------
-- Typing and Inserting
------------------------------------------------------------

/- A character is typed in place. -/
theorem type_of
    (hPlaced : editor.IsPlaced)
    (c : Char) :
    (of editor).type c =
      .ok (.of (editor.type c).editor) := by
  rcases exists_opened hPlaced with
    ⟨steps, row, cursor, hOpened⟩
  rw [type, caret_of, hOpened.borrow?]
  simp only [hOpened.place, typeChar_of, ok_bind]
  rw [Editor.type, hOpened.opens]
  exact hOpened.close (cursor.type c)

/- Only handing out identities can fail. -/
theorem agrees_adopt
    {content : Node Unit}
    {rest : Node Identity × Workspace → Checked Workspace}
    {after : Editor}
    (hAfter :
      after.document.next =
        editor.document.next + content.ids.length)
    (hRest :
      rest
          (content.number editor.document.next,
            .of { editor with
              document :=
                (editor.document.adopt content).2 }) =
        .ok (.of after)) :
    Agrees ((of editor).adopt content >>= rest) after := by
  by_cases hNext :
      editor.document.next + content.ids.length < UInt32.size
  · have hAdopt :
        (of editor).adopt content =
          .ok
            (content.number editor.document.next,
              .of { editor with
                document :=
                  (editor.document.adopt content).2 }) :=
      if_pos hNext
    rw [hAdopt, ok_bind]
    exact .inl hRest
  · have hAdopt :
        (of editor).adopt content = .error .exhausted :=
      if_neg hNext
    rw [hAdopt]
    exact .inr ⟨rfl, hAfter ▸ Nat.le_of_not_lt hNext⟩

/- A node is put in place where the region is opened. -/
theorem Opened.insertNode
    {steps : List Step}
    {row root : Row Identity}
    {cursor : Cursor Identity}
    (hOpened : Opened editor steps row cursor)
    {node : Node Identity}
    (hReplace :
      editor.document.root.replaceAt? (cursor.insert node).row
          steps =
        some root)
    (caret : Caret) :
    (of editor).insertNode node caret =
      .ok (.of
        ⟨.ofRow editor.document.next root, caret⟩) := by
  rw [Workspace.insertNode, caret_of, hOpened.borrow?]
  simp only [hOpened.place, insertNode_of, ok_bind, putBack,
    root_of, hReplace]
  rfl

/- A node is inserted in place. -/
theorem agrees_insert
    (hPlaced : editor.IsPlaced)
    (content : Node Unit)
    (first : Slot)
    (selected : Bool) :
    Agrees ((of editor).insert content first selected)
      (editor.insert content first selected).editor := by
  rcases exists_opened hPlaced with
    ⟨steps, row, cursor, hOpened⟩
  -- No region depends on which identity is handed out next.
  have hAdopted :
      Opened
        { editor with
          document := (editor.document.adopt content).2 }
        steps row cursor :=
    ⟨hOpened.leads, hOpened.reached, hOpened.opens,
      hOpened.settled, hOpened.place⟩
  rcases hAdopted.exists_root
      (cursor.insert
        (content.number editor.document.next)) with
    ⟨root, hReplace, hPut⟩
  have hOpens := hAdopted.opens
  simp only [Document.adopt] at hOpens hPut
  simp only [Editor.insert, Document.adopt, hOpens, hPut]
  exact agrees_adopt rfl (hAdopted.insertNode hReplace _)

/-
  Taking the word `lim` leaves the caret placed, as the row
  has no other identities afterwards.
-/
theorem isPlaced_takeLim?
    (hPlaced : editor.IsPlaced)
    {changed : Editor}
    (hTaken : editor.takeLim? = some changed) :
    changed.IsPlaced := by
  rcases exists_opened hPlaced with
    ⟨steps, row, _, hOpened⟩
  rcases Editor.exists_of_takeLim? hTaken with
    ⟨cursor, taken, hCursor, hTake, hPut⟩
  rcases Editor.exists_row_of_cursor hCursor with
    ⟨found, hFound, hRow⟩
  rw [Document.region?_eq_some_iff.mpr
    ⟨steps, hOpened.leads, hOpened.reached⟩] at hFound
  rcases Option.some.inj hFound with rfl
  have hKept : ∀ id ∈ Row.ids taken.row, id ∈ Row.ids row := by
    have hEdited :=
      (Cursor.edited_takeLim? hTake).of_emptied hRow
    rcases hEdited.cells with ⟨left, right, hCells, hSublist⟩
    intro id hMem
    rw [← Row.ids_cells, hCells, List.nil_append] at hMem
    rw [← Row.ids_cells]
    exact (Row.ids_sublist hSublist).subset hMem
  rcases hOpened.exists_root taken with
    ⟨root, hReplace, hPut'⟩
  rw [hPut] at hPut'
  rcases Option.some.inj hPut' with rfl
  have hSteps :=
    Document.stepsTo?_of_kept hOpened.leads hOpened.reached
      hReplace hKept editor.document.next
  exact ⟨taken.row,
    Document.region?_eq_some_iff.mpr
      ⟨steps, hSteps, Row.at?_replaceAt? hReplace⟩,
    Cursor.isPlaced_caret (Cursor.isSettled_takeLim? hTake)
      editor.caret.region false⟩

/-
  The word `lim` is taken in place.  Where the index is not
  made again it is the right one all the same, as no address
  has changed.
-/
theorem takeLim_of
    (hPlaced : editor.IsPlaced)
    (hSelected : editor.caret.selected = false) :
    (of editor).takeLim = .ok (editor.takeLim?.map of) := by
  rcases exists_opened hPlaced with
    ⟨steps, row, cursor, hOpened⟩
  have hPlace := hOpened.place
  rw [takeSelection, hSelected] at hPlace
  have hRow : cursor.row = row :=
    (congrArg Place.row hPlace).symm
  have hTakeHere :
      InPlace.takeLim
          ⟨row, editor.caret.index, editor.caret.offset⟩ =
        InPlace.takeLim (.of cursor) :=
    congrArg InPlace.takeLim hPlace
  simp only [takeLim, caret_of, hOpened.borrow?, hTakeHere,
    Editor.takeLim?, hSelected, hOpened.opens,
    Bool.false_eq_true, if_false]
  cases hTake : cursor.takeLim? with
  | none =>
      rw [takeLim_of_none hOpened.settled hTake]
      rfl
  | some taken =>
      rcases takeLim_of_some hOpened.settled hTake with
        ⟨emptied, hTaken, hAddresses⟩
      rcases hOpened.exists_root taken with
        ⟨root, hReplace, hPut⟩
      rw [hTaken]
      simp only [ok_bind, Place.of, putBack, root_of, hReplace,
        hPut, Option.map_some]
      cases emptied with
      | true => simp [of, reindex, Document.ofRow]
      | false =>
          have hSame := hAddresses rfl
          rw [hRow] at hSame
          have hIndex :=
            Index.ofRow_replaceAt? hOpened.reached hReplace
              hSame
          rw [← editor.document.indexed] at hIndex
          simp [of, Document.ofRow, hIndex]

/- What the trigger stands for is inserted in place. -/
theorem agrees_trigger
    (hPlaced : editor.IsPlaced)
    (limit : LimitTemplate) :
    Agrees ((of editor).trigger limit)
      (editor.trigger limit).editor := by
  rw [trigger, Editor.trigger, caret_of]
  cases hSelected : editor.caret.selected with
  | true =>
      have hTake : editor.takeLim? = none := by
        rw [Editor.takeLim?, if_pos hSelected]
      rw [hTake, if_pos rfl]
      exact agrees_insert hPlaced _ _ _
  | false =>
      simp only [Bool.false_eq_true, if_false,
        takeLim_of hPlaced hSelected, ok_bind]
      cases hTake : editor.takeLim? with
      | none => exact agrees_insert hPlaced _ _ _
      | some changed =>
          exact agrees_insert
            (isPlaced_takeLim? hPlaced hTake) _ _ _

------------------------------------------------------------
-- Deleting
------------------------------------------------------------

/- The node of an identity is in the row its path ends in. -/
theorem exists_row_of_path?
    {id : Identity}
    {path : Path}
    (hPath : editor.document.path? id = some path) :
    ∃ left node right,
      editor.document.root.at? path.steps =
          some (List.reverse left ++ node :: right) ∧
        left.length = path.index := by
  rcases Document.exists_nodeAt?_of_path? hPath with
    ⟨node, hNode, _⟩
  rcases Row.nodeAt?_eq_some_iff.mp hNode with
    ⟨row, hAt, hHere⟩
  rcases exists_append_of_getElem? hHere with
    ⟨left, right, rfl, hLength, _⟩
  refine ⟨left.reverse, node, right, ?_, ?_⟩
  · rw [List.reverse_reverse, hAt]
  · rw [List.length_reverse, hLength]

/- A construct is removed in place. -/
theorem removeOwner_of
    (editor : Editor)
    (id : Identity) :
    (of editor).removeOwner id =
      .ok (.of (editor.removeOwner id).editor) := by
  rw [removeOwner, Editor.removeOwner, path?_of]
  cases hPath : editor.document.path? id with
  | none => rfl
  | some path =>
      rcases exists_row_of_path? hPath with
        ⟨left, node, right, hAt, hLength⟩
      simp only [root_of, regionOf?_of, Document.rowAt?, hAt]
      cases hRegion : editor.document.regionOf? path with
      | none => rfl
      | some region =>
          have hCursor :
              Row.cursor? (left.reverse ++ node :: right)
                  path.index 0 =
                some ⟨left, node :: right, 0⟩ :=
            Row.cursor?_eq_some_iff.mpr ⟨rfl, hLength, rfl⟩
          rcases Row.exists_replaceAt? hAt
              (Cursor.join left right).row with
            ⟨root, hReplace⟩
          have hSet :
              editor.document.setRowAt? path.steps
                  (Cursor.join left right).row =
                some (.ofRow editor.document.next root) :=
            Option.map_eq_some_iff.mpr ⟨root, hReplace, rfl⟩
          simp only [hCursor, hSet]
          rw [← hLength, removeItem_row, ok_bind,
            close_of hReplace]
          rfl

/- Deleting backwards is done in place. -/
theorem backspace_of
    (hPlaced : editor.IsPlaced) :
    (of editor).backspace =
      .ok (.of editor.backspace.editor) := by
  rcases exists_opened hPlaced with
    ⟨steps, row, cursor, hOpened⟩
  have hPlace := hOpened.place
  rw [backspace, Editor.backspace, caret_of]
  simp only [hOpened.borrow?, hOpened.opens]
  by_cases hSelected : editor.caret.selected = true
  · rw [takeSelection, if_pos hSelected] at hPlace
    rw [if_pos hSelected, if_pos hSelected, hPlace]
    exact hOpened.close cursor
  · rw [takeSelection, if_neg hSelected] at hPlace
    rw [if_neg hSelected, if_neg hSelected, hPlace]
    simp only [erase_of hOpened.settled, ok_bind]
    rcases cursor.eraseBack with refusal | erased
    · cases refusal with
      | nothingBefore =>
          cases editor.caret.region with
          | root => rfl
          | slot owner slot => exact removeOwner_of editor owner
      | _ => rfl
    · exact hOpened.close erased

------------------------------------------------------------
-- Moving
------------------------------------------------------------

/- A continuation to land on is put in place. -/
theorem agrees_addLanding
    {path : Path}
    {left right root : Row Identity}
    {node : Node Identity}
    (hLength : left.length = path.index)
    (placeholder : Char)
    (region : Region)
    (hReplace :
      editor.document.root.replaceAt?
          (left.reverse ++ node ::
            .continuation editor.document.next [placeholder] ::
              right)
          path.steps =
        some root) :
    Agrees
      ((of editor).addLanding placeholder region path
        (left.reverse ++ node :: right))
      ⟨.ofRow (editor.document.next + 1) root,
        ⟨region, path.index + 1, 0, false⟩⟩ := by
  have hIndex : left.reverse.length = path.index := by
    rw [List.length_reverse, hLength]
  refine agrees_adopt rfl ?_
  simp only [insertAt_append_succ hIndex, ok_bind]
  exact close_of hReplace region

/- Landing after a node is done in place. -/
theorem agrees_landPast
    (editor : Editor)
    (id : Identity)
    (placeholder : Char)
    (intoRun : Bool) :
    Agrees ((of editor).landPast id placeholder intoRun)
      (editor.landPast id placeholder intoRun).editor := by
  rw [landPast, Editor.landPast, path?_of]
  cases hPath : editor.document.path? id with
  | none => exact .inl rfl
  | some path =>
      rcases exists_row_of_path? hPath with
        ⟨left, node, right, hAt, hLength⟩
      simp only [root_of, regionOf?_of, Document.rowAt?, hAt]
      cases hRegion : editor.document.regionOf? path with
      | none => exact .inl rfl
      | some region =>
          have hRow :
              Cursor.row ⟨node :: left, right, 0⟩ =
                left.reverse ++ node :: right :=
            Cursor.row_cons_left left node right 0 0
          have hIndex :
              Cursor.index ⟨node :: left, right, 0⟩ =
                path.index + 1 := by
            rw [Cursor.index, List.length_cons, hLength]
          have hCursor :=
            Row.cursor?_eq_some_iff.mpr ⟨hRow, hIndex, rfl⟩
          have hAfter :
              (left.reverse ++ node :: right)[path.index + 1]? =
                right[0]? := by
            rw [← hRow, ← hIndex, Cursor.getElem?_row]
          rcases Row.exists_replaceAt? hAt
              (left.reverse ++ node ::
                .continuation editor.document.next
                    [placeholder] :: right) with
            ⟨root, hReplace⟩
          have hLanding :=
            agrees_addLanding hLength placeholder region
              hReplace
          rw [List.append_cons, ← List.reverse_cons]
            at hReplace
          have hSet :
              (editor.document.adopt
                  (.continuation () [placeholder])).2.setRowAt?
                  path.steps
                  (List.reverse (node :: left) ++
                    (editor.document.adopt
                      (.continuation () [placeholder])).1 ::
                      right) =
                some (.ofRow (editor.document.next + 1) root) :=
            Option.map_eq_some_iff.mpr ⟨root, hReplace, rfl⟩
          simp only [hCursor, hAfter]
          -- A place is only made where there is none.
          rcases right with _ | ⟨_ | _ | _, right⟩
          case cons.continuation => exact .inl rfl
          case cons.text run =>
            cases intoRun with
            | true => exact .inl rfl
            | false =>
                simp only [hSet]
                exact hLanding
          all_goals
            simp only [hSet]
            exact hLanding

/- Moving forward is done in place. -/
theorem agrees_forward
    (editor : Editor)
    (placeholder : Char) :
    Agrees ((of editor).forward placeholder)
      (editor.forward placeholder).editor := by
  rw [forward, Editor.forward, caret_of, focus_of]
  cases editor.caret.region with
  | root => exact .inl rfl
  | slot owner slot =>
      simp only
      split
      · exact .inl rfl
      · cases slot.sibling? with
        | none => exact agrees_landPast editor _ _ _
        | some sibling =>
            simp only [region?_of]
            cases editor.document.region?
                (.slot owner sibling) with
            | none => exact .inl rfl
            | some row =>
                simp only [endOf_eq, ok_bind]
                exact .inl rfl

/- Leaving a construct is done in place. -/
theorem agrees_leave
    (editor : Editor)
    (id : Identity)
    (placeholder : Char) :
    Agrees ((of editor).leave id placeholder)
      (editor.leave id placeholder).editor := by
  rw [leave, Editor.leave, owner?_of]
  cases editor.document.owner? id with
  | none => exact .inl rfl
  | some node => exact agrees_landPast editor _ _ _

------------------------------------------------------------
-- Applying Intents
------------------------------------------------------------

/- Every intent is carried out in place. -/
theorem agrees_attempt
    (settings : Settings)
    (hPlaced : editor.IsPlaced)
    (intent : Intent) :
    Agrees ((of editor).attempt settings intent)
      (Editor.attempt settings editor intent).editor := by
  cases intent with
  | forward => exact agrees_forward editor _
  | trigger => exact agrees_trigger hPlaced _
  | fraction => exact agrees_insert hPlaced _ _ _
  | limit => exact agrees_insert hPlaced _ _ _
  | type c => exact .inl (type_of hPlaced c)
  | backspace => exact .inl (backspace_of hPlaced)
  | focus caret => exact .inl rfl
  | leave id => exact agrees_leave editor id _

/- An intent first puts the caret where it asks for it. -/
theorem aim_of
    (editor : Editor)
    (intent : Intent) :
    (of editor).aim intent = .of (editor.aim intent) := by
  cases intent <;> rfl

/- Every intent is applied in place. -/
theorem apply_of
    (settings : Settings)
    (editor : Editor)
    (intent : Intent) :
    (of editor).apply settings intent =
        .ok
          (.of (editor.apply settings intent).1,
            (editor.apply settings intent).2) ∨
      (of editor).apply settings intent =
          .error .exhausted ∧
        UInt32.size ≤
          (editor.apply settings intent).1.document.next := by
  simp only [apply, aim_of, region?_of, Editor.apply,
    Document.clamp?]
  generalize editor.aim intent = aimed
  rw [caret_of]
  cases hRegion :
      aimed.document.region? aimed.caret.region with
  | none =>
      simp only [endOf_eq, ok_bind]
      exact .inl rfl
  | some row =>
      have hAttempt :=
        agrees_attempt settings
          (Editor.isPlaced_clampTo hRegion) intent
      simp only [clampTo_eq, ok_bind, Option.map_some]
      change
        ((of ⟨aimed.document, aimed.caret.clampTo row⟩).attempt
                settings intent >>= fun space =>
              .ok (space, space.focus)) = _ ∨
          ((of ⟨aimed.document,
                aimed.caret.clampTo row⟩).attempt
                settings intent >>= fun space =>
              .ok (space, space.focus)) = _ ∧ _
      rcases hAttempt with hDone | ⟨hFault, hNext⟩
      · rw [hDone, ok_bind, focus_of]
        exact .inl rfl
      · rw [hFault]
        exact .inr ⟨rfl, hNext⟩

/- Identities that have been handed out are not taken back. -/
theorem next_le_run
    (settings : Settings)
    (editor : Editor)
    (intents : List Intent) :
    editor.document.next ≤
      (Editor.run settings editor intents).document.next := by
  induction intents generalizing editor with
  | nil => exact Nat.le_refl _
  | cons intent intents ih =>
      have hApply :=
        (Editor.edits_apply settings editor intent).inherits
      exact Nat.le_trans hApply.next (ih _)

/- Intents are applied in place one after the other. -/
theorem agrees_run
    (settings : Settings)
    (editor : Editor)
    (intents : List Intent) :
    Agrees ((of editor).run settings intents)
      (Editor.run settings editor intents) := by
  induction intents generalizing editor with
  | nil => exact .inl rfl
  | cons intent intents ih =>
      rcases apply_of settings editor intent with
        hDone | ⟨hFault, hFull⟩
      · rw [run, hDone, ok_bind]
        exact ih _
      · have hLater :=
          next_le_run settings
            (editor.apply settings intent).1 intents
        rw [run, hFault]
        exact .inr ⟨rfl, Nat.le_trans hFull hLater⟩

------------------------------------------------------------
-- The Index After a Run
------------------------------------------------------------

/-
  The index of a workspace is right if it finds each of its
  identities, which are distinct and were all handed out
  before, at the path of the node that has it, and finds no
  others.
-/
structure IsIndexed
    (space : Workspace) :
    Prop where
  nodup : (Row.ids space.root).Nodup
  fresh : ∀ id ∈ Row.ids space.root, id < space.next
  finds :
    ∀ id path,
      space.owners.path? id = some path ↔
        ∃ node, space.root.nodeAt? path = some node ∧
          node.id? = some id

/- That of a sound document is. -/
theorem isIndexed_of
    (hSound : editor.document.Sound) :
    (of editor).IsIndexed where
  nodup := hSound.nodup
  fresh := hSound.fresh
  finds _ _ := Document.path?_eq_some_iff hSound.nodup

/-
  Every run in place on a document that has been reached by
  editing leaves the index right, though it is only made
  again where an intent makes it so.  Nothing but running
  out of identities ends it early.
-/
theorem isIndexed_run
    (settings : Settings)
    (hReachable : editor.document.Reachable)
    (intents : List Intent) :
    (∃ space,
        (of editor).run settings intents = .ok space ∧
          space.IsIndexed) ∨
      (of editor).run settings intents = .error .exhausted ∧
        UInt32.size ≤
          (Editor.run settings editor
            intents).document.next := by
  have hAfter :=
    Editor.reachable_run hReachable settings intents
  rcases agrees_run settings editor intents with
    hDone | hExhausted
  · exact .inl ⟨_, hDone, isIndexed_of hAfter.sound⟩
  · exact .inr hExhausted

/-
  An intent can be applied in place to every document and
  every caret, as long as there are identities left: no
  access is out of range, no character is cut in two, no
  difference is negative and no borrowed row is gone, and
  all of it leads to what the editor does.  Nothing but
  running out of identities ever gets in the way.
-/
theorem apply_ok
    (settings : Settings)
    (editor : Editor)
    (intent : Intent)
    {after : Editor}
    {focus : Focus}
    (hApply : editor.apply settings intent = (after, focus)) :
    (after.document.next < UInt32.size →
        (of editor).apply settings intent =
          .ok (.of after, focus)) ∧
      ∀ fault,
        (of editor).apply settings intent = .error fault →
          fault = .exhausted := by
  have hAgrees := apply_of settings editor intent
  rw [hApply] at hAgrees
  rcases hAgrees with hDone | ⟨hFault, hNext⟩
  · rw [hDone]
    exact ⟨fun _ => rfl, fun _ hFault => nomatch hFault⟩
  · rw [hFault]
    refine ⟨fun hLess => ?_, fun fault hEq => ?_⟩
    · exact absurd hNext (Nat.not_le_of_lt hLess)
    · exact (Except.error.inj hEq).symm

/-
  A run of characters of two and three bytes is split, in a
  fraction whose identity is also that of another node.
-/
theorem apply_ok_in_wide_run :
    let editor : Editor :=
      ⟨.ofRow 4
        [.continuation 3 [' '],
          .construct .fraction 3
            [.text ['é', '∞']] [.continuation 2 [' ']]],
        ⟨.slot 3 .numerator, 0, 1, false⟩⟩
    ∃ after focus,
      editor.apply .standard .fraction = (after, focus) ∧
        after.document.next < UInt32.size ∧
        (of editor).apply .standard .fraction =
          .ok (.of after, focus) := by
  intro editor
  have hNext :
      (editor.apply .standard .fraction).1.document.next <
        UInt32.size := by
    decide
  exact ⟨_, _, rfl, hNext,
    (apply_ok .standard editor .fraction rfl).1 hNext⟩

end Workspace

end InPlace

end FormulaEditor
