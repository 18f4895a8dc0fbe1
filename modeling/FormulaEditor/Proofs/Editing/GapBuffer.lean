import FormulaEditor.Proofs.Editing.Gap
import FormulaEditor.Proofs.Editing.Reachability
import FormulaEditor.Proofs.Formula.Replacement
import FormulaEditor.Proofs.Formula.Spelling

/-
  This file proves that an editor is a gap buffer: that
  typing, inserting a construct and deleting backwards do to
  the gap at the caret what they do to a plain gap buffer,
  and change nothing outside the row that they edit.

  Key definitions include:
    * `Document.Replaces`
    * `Editor.Rewrites`
    * `Editor.Inserts`
    * `Editor.Removes`
    * `Editor.Deletes`

  Key theorems include:
    * `Editor.rewrites_type`
    * `Editor.inserts_insert`
    * `Editor.deletes_backspace`
    * `Editor.apply_gap`
-/

namespace FormulaEditor

------------------------------------------------------------
-- Replacing the Row of a Region
------------------------------------------------------------

/- Only the row of a region is replaced. -/
def Document.Replaces
    (document : Document)
    (region : Region)
    (row : Row Identity)
    (changed : Document) :
    Prop :=
  ∃ steps, document.stepsTo? region = some steps ∧
    document.root.replaceAt? row steps = some changed.root

/- A replaced row is the row of its region afterwards. -/
theorem Document.Replaces.region?
    {document changed : Document}
    {region : Region}
    {row : Row Identity}
    (hReplaces : document.Replaces region row changed)
    (hSound : changed.Sound) :
    changed.region? region = some row := by
  rcases hReplaces with ⟨steps, hSteps, hReplace⟩
  refine Document.region?_eq_some_iff.mpr ⟨steps, ?_, ?_⟩
  · exact Document.stepsTo?_of_replaceAt? hSound.nodup hSteps
      hReplace
  · exact Row.at?_replaceAt? hReplace

/- To replace a row and replace it again is to do it once. -/
theorem Document.Replaces.trans
    {document between changed : Document}
    {region : Region}
    {row new : Row Identity}
    (hFirst : document.Replaces region row between)
    (hSound : between.Sound)
    (hSecond : between.Replaces region new changed) :
    document.Replaces region new changed := by
  rcases hFirst with ⟨steps, hSteps, hReplace⟩
  rcases hSecond with ⟨steps', hSteps', hReplace'⟩
  have hSame :=
    stepsTo?_of_replaceAt? hSound.nodup hSteps hReplace
  rw [hSteps'] at hSame
  rcases Option.some.inj hSame with rfl
  rw [Row.replaceAt?_replaceAt? hReplace] at hReplace'
  exact ⟨steps', hSteps, hReplace'⟩

namespace Editor

/-
  A row has been rewritten: only the row of the region is
  new, and the caret is unselected in that region, at a gap
  that parts the atoms of the new row.
-/
structure Rewrites
    (document : Document)
    (region : Region)
    (row : Row Identity)
    (gap : Gap)
    (changed : Editor) :
    Prop where
  only : document.Replaces region row changed.document
  atoms : row.atoms = gap.before ++ gap.after
  region : changed.caret.region = region
  selected : changed.caret.selected = false
  gap : changed.gap? = some gap

/- Closing a cursor rewrites the row of its region. -/
theorem rewrites_of_replaces
    {document changed : Document}
    {region : Region}
    {cursor : Cursor Identity}
    (hReplaces :
      document.Replaces region cursor.row changed)
    (hSound : changed.Sound) :
    Rewrites document region cursor.row cursor.gap
      ⟨changed,
        ⟨region, cursor.index, cursor.offset, false⟩⟩ where
  only := hReplaces
  atoms := cursor.atoms_row
  region := rfl
  selected := rfl
  gap := by
    rw [gap?, hReplaces.region? hSound, Option.map_some,
      cursor.gap_row region]

/- A region that has been closed opens at the same cursor. -/
theorem cursor_of_replaces
    {document changed : Document}
    {region : Region}
    {cursor : Cursor Identity}
    (hReplaces :
      document.Replaces region cursor.row changed)
    (hSound : changed.Sound) :
    Editor.cursor
        ⟨changed,
          ⟨region, cursor.index, cursor.offset, false⟩⟩ =
      .ok cursor :=
  @cursor_of_cursor? ⟨changed, ⟨region, _, _, _⟩⟩ cursor.row
    (hReplaces.region? hSound) rfl cursor
    (Row.cursor?_eq_some_iff.mpr ⟨rfl, rfl, rfl⟩)

/- A region that is there can be closed. -/
theorem exists_put?
    {editor : Editor}
    {row : Row Identity}
    (hRegion :
      editor.document.region? editor.caret.region = some row)
    (cursor : Cursor Identity) :
    ∃ document,
      editor.put? cursor =
          some
            ⟨document,
              ⟨editor.caret.region, cursor.index,
                cursor.offset, false⟩⟩ ∧
        editor.document.Replaces editor.caret.region
          cursor.row document := by
  rcases Document.region?_eq_some_iff.mp hRegion with
    ⟨steps, hSteps, hAt⟩
  rcases Row.exists_replaceAt? hAt cursor.row with
    ⟨root, hReplace⟩
  refine ⟨.ofRow editor.document.next root, ?_, steps,
    hSteps, hReplace⟩
  exact Option.map_eq_some_iff.mpr
    ⟨_, Document.setRegion?_eq_some_iff.mpr
      ⟨steps, root, hSteps, hReplace, rfl⟩, rfl⟩

/- Closing a region that is there rewrites its row. -/
theorem rewrites_put
    {editor : Editor}
    {row : Row Identity}
    (hRegion :
      editor.document.region? editor.caret.region = some row)
    {cursor : Cursor Identity}
    (hSound : (editor.put cursor).editor.document.Sound) :
    Rewrites editor.document editor.caret.region cursor.row
      cursor.gap (editor.put cursor).editor := by
  rcases exists_put? hRegion cursor with
    ⟨document, hPut, hReplaces⟩
  rw [put, hPut] at hSound ⊢
  exact rewrites_of_replaces hReplaces hSound

------------------------------------------------------------
-- Typing
------------------------------------------------------------

/- Typing puts one character before the gap. -/
theorem rewrites_type
    {editor : Editor}
    (hSound : editor.document.Sound)
    {row : Row Identity}
    (hRegion :
      editor.document.region? editor.caret.region = some row)
    {cursor : Cursor Identity}
    (hCursor : editor.cursor = .ok cursor)
    (c : Char) :
    ∃ changed,
      Rewrites editor.document editor.caret.region changed
        ⟨cursor.gap.before ++ [.text [c]], cursor.gap.after⟩
        (editor.type c).editor := by
  have hTyped := sound_type hSound c
  rw [type, hCursor] at hTyped ⊢
  rw [← cursor.gap_type c]
  exact ⟨_, rewrites_put hRegion hTyped⟩

------------------------------------------------------------
-- Inserting
------------------------------------------------------------

/-
  A construct has been inserted: all of its identities are
  new, the row of the region has it at the gap, nothing else
  has changed, and the caret is at the start of its row in
  the first slot.
-/
structure Inserts
    (document : Document)
    (region : Region)
    (gap : Gap)
    (content : Node Unit)
    (first : Slot)
    (selected : Bool)
    (changed : Editor) :
    Prop where
  fresh :
    ∀ id ∈ (content.number document.next).ids,
      id ∉ Row.ids document.root
  only :
    ∃ row, document.Replaces region row changed.document ∧
      row.atoms =
        gap.before ++
          content.number document.next :: gap.after
  caret :
    changed.caret =
      ⟨.slot document.next first, 0, 0, selected⟩
  inside :
    ∃ below,
      (content.number document.next).region? first =
          some below ∧
        changed.document.region? changed.caret.region =
          some below

/- The identities that are handed out next are new. -/
theorem not_mem_ids_of_mem_number
    {document : Document}
    (hSound : document.Sound)
    {content : Node Unit}
    {id : Identity}
    (hMem : id ∈ (content.number document.next).ids) :
    id ∉ Row.ids document.root := by
  rw [Node.ids_number, List.mem_range'_1] at hMem
  intro hOld
  exact Nat.lt_irrefl _
    (Nat.lt_of_lt_of_le (hSound.fresh id hOld) hMem.1)

/- A construct is numbered first. -/
theorem id?_number
    {content : Node Unit}
    (hConstruct : content.isConstruct = true)
    (next : Identity) :
    (content.number next).id? = some next := by
  cases content with
  | text run => cases hConstruct
  | construct => rfl
  | continuation => cases hConstruct

/- The node right after the place has the cursor's index. -/
theorem getElem?_of_right
    {cursor : Cursor Identity}
    {node : Node Identity}
    {right : Row Identity}
    (hRight : cursor.right = node :: right) :
    cursor.row[cursor.index]? = some node := by
  rw [cursor.getElem?_row, hRight]
  rfl

/- A node that has been put into a row is found there. -/
theorem path?_of_replaceAt?
    {root : Row Identity}
    {steps : List Step}
    {cursor : Cursor Identity}
    {changed : Document}
    (hReplace :
      root.replaceAt? cursor.row steps = some changed.root)
    (hSound : changed.Sound)
    {node : Node Identity}
    {right : Row Identity}
    (hRight : cursor.right = node :: right)
    {id : Identity}
    (hId : node.id? = some id) :
    changed.path? id = some ⟨steps, cursor.index⟩ := by
  refine (Document.path?_eq_some_iff hSound.nodup).mpr
    ⟨node, ?_, hId⟩
  exact Row.nodeAt?_eq_some_iff.mpr
    ⟨_, Row.at?_replaceAt? hReplace,
      getElem?_of_right hRight⟩

/- A region of a node that has been put into a row. -/
theorem region?_of_replaces
    {document changed : Document}
    {region : Region}
    {cursor : Cursor Identity}
    (hReplaces : document.Replaces region cursor.row changed)
    (hSound : changed.Sound)
    {node : Node Identity}
    {right : Row Identity}
    (hRight : cursor.right = node :: right)
    {id : Identity}
    (hId : node.id? = some id)
    {slot : Slot}
    {below : Row Identity}
    (hBelow : node.region? slot = some below) :
    changed.region? (.slot id slot) = some below := by
  rcases hReplaces with ⟨steps, _, hReplace⟩
  have hPath :=
    path?_of_replaceAt? hReplace hSound hRight hId
  refine Document.region?_eq_some_iff.mpr
    ⟨steps ++ [⟨cursor.index, slot⟩],
      Option.map_eq_some_iff.mpr ⟨_, hPath, rfl⟩, ?_⟩
  rw [Row.at?_append, Row.at?_replaceAt? hReplace]
  exact Row.at?_cons_eq_some_iff.mpr
    ⟨node, below, getElem?_of_right hRight, hBelow, rfl⟩

/- A construct that is inserted is right after the place. -/
theorem exists_right_insert
    (cursor : Cursor Identity)
    (node : Node Identity) :
    ∃ right, (cursor.insert node).right = node :: right := by
  unfold Cursor.insert
  split
  · exact ⟨_, rfl⟩
  · split
    · exact ⟨_, rfl⟩
    · split
      · exact ⟨_, rfl⟩
      · exact ⟨_, rfl⟩
  · exact ⟨_, rfl⟩

/- Inserting replaces the row, and goes into a slot. -/
theorem replaces_insert
    {editor : Editor}
    {row : Row Identity}
    (hRegion :
      editor.document.region? editor.caret.region = some row)
    {cursor : Cursor Identity}
    (hCursor : editor.cursor = .ok cursor)
    (content : Node Unit)
    (first : Slot)
    (selected : Bool) :
    ∃ changed,
      (editor.insert content first selected).editor =
          ⟨changed,
            ⟨.slot editor.document.next first, 0, 0,
              selected⟩⟩ ∧
        editor.document.Replaces editor.caret.region
          (cursor.insert
            (content.number editor.document.next)).row
          changed := by
  -- Handing out identities changes neither rows nor index.
  have hLater :
      Editor.cursor
          ⟨(editor.document.adopt content).2, editor.caret⟩ =
        .ok cursor :=
    hCursor
  have hRegionLater :
      (editor.document.adopt content).2.region?
          editor.caret.region =
        some row :=
    hRegion
  rcases @exists_put?
      ⟨(editor.document.adopt content).2, editor.caret⟩ row
      hRegionLater
      (cursor.insert (editor.document.adopt content).1) with
    ⟨changed, hPut, hReplaces⟩
  refine ⟨changed, ?_, hReplaces⟩
  rw [insert]
  simp only [hLater, hPut]
  rfl

/- Inserting puts one construct with new identities in. -/
theorem inserts_insert
    {editor : Editor}
    (hSound : editor.document.Sound)
    {row : Row Identity}
    (hRegion :
      editor.document.region? editor.caret.region = some row)
    {cursor : Cursor Identity}
    (hCursor : editor.cursor = .ok cursor)
    {content : Node Unit}
    (hConstruct : content.isConstruct = true)
    (hContent :
      ∀ slot below, content.region? slot = some below →
        below.Everywhere Row.IsSolid)
    {first : Slot}
    {below : Row Identity}
    (hFirst :
      (content.number editor.document.next).region? first =
        some below)
    (selected : Bool) :
    Inserts editor.document editor.caret.region cursor.gap
      content first selected
      (editor.insert content first selected).editor := by
  have hNumbered :=
    isConstruct_number hConstruct editor.document.next
  have hInserted :=
    sound_insert hSound hConstruct hContent first selected
  rcases replaces_insert hRegion hCursor content first
      selected with
    ⟨changed, hInsert, hReplaces⟩
  rw [hInsert] at hInserted ⊢
  rcases exists_right_insert cursor
      (content.number editor.document.next) with
    ⟨right, hRight⟩
  refine ⟨?_, ⟨_, hReplaces, ?_⟩, rfl, below, hFirst, ?_⟩
  · intro id hMem
    exact not_mem_ids_of_mem_number hSound hMem
  · rw [Cursor.atoms_row, cursor.gap_insert hNumbered]
  · exact region?_of_replaces hReplaces hInserted hRight
      (id?_number hConstruct _) hFirst

------------------------------------------------------------
-- Deleting Backwards
------------------------------------------------------------

/-
  The node with an identity has been removed: the row around
  it has kept all other cells, the identity is gone, and the
  caret is where the node was.
-/
structure Removes
    (document : Document)
    (owner : Identity)
    (path : Path)
    (left right row : Row Identity)
    (changed : Editor) :
    Prop where
  found : document.path? owner = some path
  place :
    ∃ node, node.id? = some owner ∧
      left.length = path.index ∧
      document.rowAt? path.steps = some (left ++ node :: right)
  cells : row.cells = left.cells ++ right.cells
  rewrites :
    ∃ region, document.regionOf? path = some region ∧
      Rewrites document region row ⟨left.atoms, right.atoms⟩
        changed
  gone : owner ∉ Row.ids changed.document.root

/-
  What deleting backwards has done to a row.  A selected row
  is emptied.  Otherwise a continuation at the caret is
  removed, or else the atom before the gap is.  If there is
  none either, the node around the row is removed, and in
  the outermost row nothing happens.
-/
structure Deletes
    (editor : Editor)
    (row : Row Identity)
    (changed : Editor) :
    Prop where
  selected :
    editor.caret.selected = true →
      Rewrites editor.document editor.caret.region [] .empty
        changed
  continuation :
    ∀ index, editor.caret.selected = false →
      row.continuationBack? editor.caret = some index →
      ∃ row',
        row'.cells =
            Row.cells (row.take index) ++
              Row.cells (row.drop (index + 1)) ∧
          Rewrites editor.document editor.caret.region row'
            (row.gap editor.caret) changed
  atom :
    ∀ before atom, editor.caret.selected = false →
      row.continuationBack? editor.caret = none →
      (row.gap editor.caret).before = before ++ [atom] →
      ∃ row',
        Rewrites editor.document editor.caret.region row'
          ⟨before, (row.gap editor.caret).after⟩ changed
  root :
    editor.caret.selected = false →
      row.continuationBack? editor.caret = none →
      (row.gap editor.caret).before = [] →
      editor.caret.region = .root →
      changed = editor
  slot :
    ∀ owner slot, editor.caret.selected = false →
      row.continuationBack? editor.caret = none →
      (row.gap editor.caret).before = [] →
      editor.caret.region = .slot owner slot →
      ∃ path left right row',
        Removes editor.document owner path left right row'
          changed

/- The identity of a node is among its identities. -/
theorem mem_ids_of_id?
    {node : Node Identity}
    {id : Identity}
    (hId : node.id? = some id) :
    id ∈ node.ids := by
  cases node with
  | text run => cases hId
  | construct kind own first second =>
      rcases Option.some.inj hId with rfl
      exact List.mem_cons_self
  | continuation own content =>
      rcases Option.some.inj hId with rfl
      exact List.mem_cons_self

/- A node that is taken out of a row leaves the document. -/
theorem not_mem_ids_of_replaceAt?
    {document changed : Document}
    (hSound : document.Sound)
    {steps : List Step}
    {left right new : Row Identity}
    {node : Node Identity}
    (hAt :
      document.root.at? steps = some (left ++ node :: right))
    (hReplace :
      document.root.replaceAt? new steps = some changed.root)
    (hCells : new.cells = left.cells ++ right.cells)
    {id : Identity}
    (hMem : id ∈ node.ids) :
    id ∉ Row.ids changed.root := by
  rcases Row.ids_replaceAt? hAt hReplace with
    ⟨lead, tail, hOld, hNew⟩
  have hIds : Row.ids new = Row.ids left ++ Row.ids right := by
    rw [← Row.ids_cells, hCells, ids_append, Row.ids_cells,
      Row.ids_cells]
  have hPerm :
      (Row.ids document.root).Perm
        (node.ids ++ Row.ids changed.root) := by
    rw [hOld, hNew, hIds, ids_append, Row.ids]
    simp only [List.append_assoc]
    exact ((List.perm_append_comm_assoc _ _ _).append_left
      lead).trans (List.perm_append_comm_assoc _ _ _)
  have hNodup := hPerm.nodup_iff.mp hSound.nodup
  exact (List.disjoint_of_nodup_append hNodup) hMem

/- How the node with an identity is removed. -/
theorem exists_removeOwner
    {editor : Editor}
    (hSound : editor.document.Sound)
    {owner : Identity}
    {path : Path}
    (hPath : editor.document.path? owner = some path)
    {left right : Row Identity}
    {node : Node Identity}
    (hRow :
      editor.document.rowAt? path.steps =
        some (Cursor.row ⟨left, node :: right, 0⟩))
    (hIndex : left.length = path.index) :
    ∃ region root,
      editor.document.regionOf? path = some region ∧
        editor.document.stepsTo? region = some path.steps ∧
        editor.document.root.replaceAt?
            (Cursor.join left right).row path.steps =
          some root ∧
        (editor.removeOwner owner).editor =
          ⟨editor.document.withRoot root,
            ⟨region, (Cursor.join left right).index,
              (Cursor.join left right).offset, false⟩⟩ := by
  rcases Document.exists_regionOf? hSound.nodup hRow with
    ⟨region, hRegionOf, hRegionSteps⟩
  have hCursor :
      Row.cursor? (Cursor.row ⟨left, node :: right, 0⟩)
          path.index 0 =
        some ⟨left, node :: right, 0⟩ :=
    Row.cursor?_eq_some_iff.mpr ⟨rfl, hIndex, rfl⟩
  rcases Row.exists_replaceAt? hRow
      (Cursor.join left right).row with
    ⟨root, hReplace⟩
  have hSet :
      editor.document.setRowAt? path.steps
          (Cursor.join left right).row =
        some (editor.document.withRoot root) :=
    Option.map_eq_some_iff.mpr ⟨root, hReplace, rfl⟩
  refine
    ⟨region, root, hRegionOf, hRegionSteps, hReplace, ?_⟩
  rw [removeOwner]
  simp only [hPath, hRegionOf, hRow, hCursor, hSet]
  rfl

/- Removing the owner of a region takes it out of its row. -/
theorem removes_removeOwner
    {editor : Editor}
    (hSound : editor.document.Sound)
    {owner : Identity}
    {slot : Slot}
    {row : Row Identity}
    (hRegion :
      editor.document.region? (.slot owner slot) = some row) :
    ∃ path left right row',
      Removes editor.document owner path left right row'
        (editor.removeOwner owner).editor := by
  have hRemoved := sound_removeOwner hSound owner
  rcases Document.region?_eq_some_iff.mp hRegion with
    ⟨steps, hSteps, _⟩
  rcases Option.map_eq_some_iff.mp hSteps with
    ⟨path, hPath, _⟩
  rcases Document.exists_nodeAt?_of_path? hPath with
    ⟨node, hNode, hId⟩
  rcases Row.nodeAt?_eq_some_iff.mp hNode with
    ⟨outer, hOuter, hHere⟩
  rcases exists_append_of_getElem? hHere with
    ⟨left, right, rfl, hLength, _⟩
  have hRow :
      editor.document.rowAt? path.steps =
        some
          (Cursor.row ⟨left.reverse, node :: right, 0⟩) := by
    rw [Cursor.row, List.reverse_reverse]
    exact hOuter
  rcases exists_removeOwner hSound hPath hRow
      (List.length_reverse.trans hLength) with
    ⟨region, root, hRegionOf, hRegionSteps, hReplace, hEq⟩
  rw [hEq] at hRemoved ⊢
  have hCells := Cursor.cells_join left.reverse right
  have hGap := Cursor.gap_join left.reverse right
  rw [List.reverse_reverse] at hCells hGap
  refine ⟨path, left, right, _, hPath,
    ⟨node, hId, hLength, hOuter⟩, hCells,
    ⟨region, hRegionOf, ?_⟩, ?_⟩
  · rw [← hGap]
    exact rewrites_of_replaces
      ⟨path.steps, hRegionSteps, hReplace⟩ hRemoved
  · exact not_mem_ids_of_replaceAt? hSound hOuter hReplace
      hCells (mem_ids_of_id? hId)

section Deleting

variable {editor : Editor} {row : Row Identity}

/- An unselected caret that is placed opens its row. -/
theorem exists_opened
    (hSound : editor.document.Sound)
    (hRegion :
      editor.document.region? editor.caret.region = some row)
    (hPlaced : editor.caret.IsPlaced row)
    (hSelected : editor.caret.selected = false) :
    ∃ cursor,
      editor.cursor = .ok cursor ∧
        cursor.IsPlaced ∧
        row.gap editor.caret = cursor.gap ∧
        cursor.unlink? =
          (row.continuationBack? editor.caret).map
            (Cursor.without row) := by
  rcases Document.region?_eq_some_iff.mp hRegion with
    ⟨steps, _, hAt⟩
  rcases Row.exists_cursor? (hSound.solid steps row hAt)
      hPlaced with
    ⟨cursor, hFound, hCursorPlaced⟩
  have hCursor := cursor_of_cursor? hRegion hSelected hFound
  exact ⟨cursor, hCursor, hCursorPlaced,
    gap_eq_of_cursor hRegion hCursor,
    Cursor.unlink?_cursor hFound⟩

/- Deleting what a cursor has before it rewrites its row. -/
theorem rewrites_backspace
    (hSound : editor.document.Sound)
    (hRegion :
      editor.document.region? editor.caret.region = some row)
    (hSelected : editor.caret.selected = false)
    {cursor erased : Cursor Identity}
    (hCursor : editor.cursor = .ok cursor)
    (hErase : cursor.eraseBack = .ok erased) :
    Rewrites editor.document editor.caret.region erased.row
      erased.gap editor.backspace.editor := by
  have hErased := sound_backspace hSound
  rw [backspace] at hErased ⊢
  simp only [hCursor, hSelected, Bool.false_eq_true, if_false,
    hErase] at hErased ⊢
  exact rewrites_put hRegion hErased

/- A selected row is emptied. -/
theorem rewrites_backspace_of_selected
    (hSound : editor.document.Sound)
    (hRegion :
      editor.document.region? editor.caret.region = some row)
    (hSelected : editor.caret.selected = true) :
    Rewrites editor.document editor.caret.region [] .empty
      editor.backspace.editor := by
  have hErased := sound_backspace hSound
  rw [backspace] at hErased ⊢
  simp only [cursor_of_selected hRegion hSelected, hSelected,
    if_true] at hErased ⊢
  exact rewrites_put hRegion hErased

/- A continuation at the caret is removed. -/
theorem rewrites_backspace_of_continuation
    (hSound : editor.document.Sound)
    (hRegion :
      editor.document.region? editor.caret.region = some row)
    (hPlaced : editor.caret.IsPlaced row)
    (hSelected : editor.caret.selected = false)
    {index : Nat}
    (hBack :
      row.continuationBack? editor.caret = some index) :
    ∃ row',
      row'.cells =
          Row.cells (row.take index) ++
            Row.cells (row.drop (index + 1)) ∧
        Rewrites editor.document editor.caret.region row'
          (row.gap editor.caret) editor.backspace.editor := by
  rcases exists_opened hSound hRegion hPlaced hSelected with
    ⟨cursor, hCursor, _, hGap, hUnlink⟩
  rw [hBack, Option.map_some] at hUnlink
  have hErase := Cursor.eraseBack_of_unlink?_some hUnlink
  have hCells :=
    Cursor.cells_join (row.take index).reverse
      (row.drop (index + 1))
  rw [List.reverse_reverse] at hCells
  rw [hGap, ← Cursor.gap_of_unlink?_some hUnlink]
  exact ⟨_, hCells,
    rewrites_backspace hSound hRegion hSelected hCursor
      hErase⟩

/- The atom before the gap is deleted. -/
theorem rewrites_backspace_of_atom
    (hSound : editor.document.Sound)
    (hRegion :
      editor.document.region? editor.caret.region = some row)
    (hPlaced : editor.caret.IsPlaced row)
    (hSelected : editor.caret.selected = false)
    (hBack : row.continuationBack? editor.caret = none)
    {before : Row Identity}
    {atom : Node Identity}
    (hBefore :
      (row.gap editor.caret).before = before ++ [atom]) :
    ∃ row',
      Rewrites editor.document editor.caret.region row'
        ⟨before, (row.gap editor.caret).after⟩
        editor.backspace.editor := by
  rcases exists_opened hSound hRegion hPlaced hSelected with
    ⟨cursor, hCursor, hCursorPlaced, hGap, hUnlink⟩
  rw [hBack, Option.map_none] at hUnlink
  rw [hGap] at hBefore ⊢
  rcases Cursor.gap_of_unlink?_none hCursorPlaced hUnlink
    with ⟨erased, cell, hErase, hLast, hAfter⟩ | ⟨hNone, _⟩
  · rw [hLast] at hBefore
    rcases List.append_inj_left' hBefore rfl with rfl
    rw [← hAfter]
    exact ⟨_, rewrites_backspace hSound hRegion hSelected
      hCursor hErase⟩
  · rw [hNone] at hBefore
    simp at hBefore

/- At the start of a row there is nothing to delete in it. -/
theorem exists_nothingBefore
    (hSound : editor.document.Sound)
    (hRegion :
      editor.document.region? editor.caret.region = some row)
    (hPlaced : editor.caret.IsPlaced row)
    (hSelected : editor.caret.selected = false)
    (hBack : row.continuationBack? editor.caret = none)
    (hBefore : (row.gap editor.caret).before = []) :
    ∃ cursor,
      editor.cursor = .ok cursor ∧
        cursor.eraseBack = .error .nothingBefore := by
  rcases exists_opened hSound hRegion hPlaced hSelected with
    ⟨cursor, hCursor, hCursorPlaced, hGap, hUnlink⟩
  rw [hBack, Option.map_none] at hUnlink
  rw [hGap] at hBefore
  rcases Cursor.gap_of_unlink?_none hCursorPlaced hUnlink
    with ⟨erased, cell, _, hLast, _⟩ | ⟨_, hErase⟩
  · rw [hLast] at hBefore
    simp at hBefore
  · exact ⟨cursor, hCursor, hErase⟩

/- Deleting backwards deletes from the gap. -/
theorem deletes_backspace
    (hSound : editor.document.Sound)
    (hRegion :
      editor.document.region? editor.caret.region = some row)
    (hPlaced : editor.caret.IsPlaced row) :
    Deletes editor row editor.backspace.editor := by
  refine ⟨?_, ?_, ?_, ?_, ?_⟩
  · exact rewrites_backspace_of_selected hSound hRegion
  · intro index hSelected hBack
    exact rewrites_backspace_of_continuation hSound hRegion
      hPlaced hSelected hBack
  · intro before atom hSelected hBack hBefore
    exact rewrites_backspace_of_atom hSound hRegion hPlaced
      hSelected hBack hBefore
  · intro hSelected hBack hBefore hRoot
    rcases exists_nothingBefore hSound hRegion hPlaced
        hSelected hBack hBefore with
      ⟨cursor, hCursor, hErase⟩
    rw [backspace]
    simp only [hCursor, hSelected, Bool.false_eq_true,
      if_false, hErase, hRoot]
    rfl
  · intro owner slot hSelected hBack hBefore hSlot
    rcases exists_nothingBefore hSound hRegion hPlaced
        hSelected hBack hBefore with
      ⟨cursor, hCursor, hErase⟩
    rw [hSlot] at hRegion
    rw [backspace]
    simp only [hCursor, hSelected, Bool.false_eq_true,
      if_false, hErase, hSlot]
    exact removes_removeOwner hSound hRegion

end Deleting

------------------------------------------------------------
-- Editors as Gap Buffers
------------------------------------------------------------

/- An intent is carried out at the caret pulled back. -/
theorem fst_apply
    (settings : Settings)
    {document : Document}
    {caret : Caret}
    {row : Row Identity}
    (hRegion : document.region? caret.region = some row)
    {intent : Intent}
    (hAim :
      aim ⟨document, caret⟩ intent = ⟨document, caret⟩) :
    (apply settings ⟨document, caret⟩ intent).1 =
      (attempt settings ⟨document, caret.clampTo row⟩
        intent).editor := by
  have hClamp :
      document.clamp? caret = some (caret.clampTo row) := by
    rw [Document.clamp?, hRegion, Option.map_some]
  simp only [apply, hAim, hClamp]

/-
  An editor is a gap buffer.  Wherever the caret has been
  put in a document that is reached by editing, it parts the
  atoms of its row unless the row is selected; typing puts a
  character before the gap, inserting puts a construct into
  it, and deleting backwards deletes from it.
-/
theorem apply_gap
    (settings : Settings)
    {document : Document}
    (hReachable : document.Reachable)
    {caret : Caret}
    {row : Row Identity}
    (hRegion : document.region? caret.region = some row) :
    ((caret.clampTo row).selected = false →
      row.atoms =
        (row.gap (caret.clampTo row)).before ++
          (row.gap (caret.clampTo row)).after) ∧
    (∀ c, ∃ typed,
      Rewrites document caret.region typed
        ⟨(row.gap (caret.clampTo row)).before ++
            [.text [c]],
          (row.gap (caret.clampTo row)).after⟩
        (apply settings ⟨document, caret⟩ (.type c)).1) ∧
    Inserts document caret.region
      (row.gap (caret.clampTo row)) (.emptyFraction ())
      .numerator false
      (apply settings ⟨document, caret⟩ .fraction).1 ∧
    Inserts document caret.region
      (row.gap (caret.clampTo row)) settings.limit.node
      .subscript true
      (apply settings ⟨document, caret⟩ .limit).1 ∧
    Deletes ⟨document, caret.clampTo row⟩ row
      (apply settings ⟨document, caret⟩ .backspace).1 := by
  have hSound := hReachable.sound
  have hPlaced := Caret.isPlaced_clampTo caret row
  have hClamped :
      document.region? (caret.clampTo row).region =
        some row := by
    rw [Caret.region_clampTo, hRegion]
  rcases Document.region?_eq_some_iff.mp hRegion with
    ⟨steps, _, hAt⟩
  have hSolid := hSound.solid steps row hAt
  rcases @exists_cursor ⟨document, caret.clampTo row⟩ row
      hClamped hSolid hPlaced with
    ⟨cursor, hCursor⟩
  have hGap := gap_eq_of_cursor hClamped hCursor
  simp only at hGap
  rw [← Caret.region_clampTo caret row]
  refine ⟨?_, ?_, ?_, ?_, ?_⟩
  · exact Row.atoms_eq_gap hPlaced
  · intro c
    rw [fst_apply settings hRegion rfl, hGap]
    exact rewrites_type hSound hClamped hCursor c
  · rw [fst_apply settings hRegion rfl, hGap]
    exact inserts_insert hSound hClamped hCursor rfl
      isSolid_emptyFraction rfl false
  · rw [fst_apply settings hRegion rfl, hGap]
    exact inserts_insert hSound hClamped hCursor rfl
      (isSolid_limit settings.limit) rfl true
  · rw [fst_apply settings hRegion rfl]
    exact deletes_backspace hSound hClamped hPlaced

/- Deleting in the middle of a run that has been read. -/
theorem rewrites_backspace_in_run :
    ∃ row,
      Rewrites (.ofText "ab".toList) .root row
        ⟨[], [.text ['b']]⟩
        (apply .standard
          ⟨.ofText "ab".toList, ⟨.root, 0, 1, false⟩⟩
          .backspace).1 := by
  have hReachable :
      Document.Reachable (.ofText "ab".toList) :=
    .read 0 "ab".toList
  have hRegion :
      (Document.ofText "ab".toList).region? .root =
        some [.text "ab".toList] := by
    have hRow :
        Row.ofText "ab".toList = [.text "ab".toList] :=
      Row.ofText_of_none (by decide)
    rw [Document.ofText, Document.ofTextFrom, hRow]
    rfl
  have hGap :=
    @apply_gap .standard _ hReachable ⟨.root, 0, 1, false⟩
      [.text "ab".toList] hRegion
  exact hGap.2.2.2.2.atom [] (.text ['a']) rfl rfl rfl

end Editor

end FormulaEditor
