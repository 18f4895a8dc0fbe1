import FormulaEditor.Editing.Intent
import FormulaEditor.Proofs.Editing.Joining
import FormulaEditor.Proofs.Editing.Placement
import Mathlib.Logic.Relation

/-
  This file says once what an edit does to a document: it
  replaces one row by one with some of its cells and at most
  some nodes that the intent adds.  What edits preserve is
  proved from this, and not intent by intent.

  Key definitions include:
    * `Row.Edited`
    * `Document.Edit`
    * `Document.Edits`
    * `Intent.additions`

  Key theorems include:
    * `Editor.removeOwner_cases`
    * `Editor.landPast_cases`
    * `Editor.edits_apply`
    * `Row.Edited.everywhere`
    * `Document.Edits.throughout`
-/

namespace FormulaEditor

------------------------------------------------------------
-- Edited Rows
------------------------------------------------------------

section Rows

variable {ι : Type}

/-
  A row has been edited: some of its cells are kept in their
  order, the added nodes stand at one place among them, no
  run has been emptied, and no two runs meet unless one has
  been added.
-/
structure Row.Edited
    (added row new : Row ι) :
    Prop where
  cells :
    ∃ left right, Row.cells new = left ++ (added ++ right) ∧
      (left ++ right).Sublist (Row.cells row)
  solid : Row.IsSolid row → Row.IsSolid new
  joined :
    (∀ node ∈ added, node.isRun = false) →
      Row.IsJoined row → Row.IsJoined new

namespace Row.Edited

variable {added row row' new : Row ι}

/- Taking out cells is an edit. -/
theorem of_cells_sublist
    (hSublist : (Row.cells new).Sublist (Row.cells row))
    (hSolid : Row.IsSolid row → Row.IsSolid new)
    (hJoined : Row.IsJoined row → Row.IsJoined new) :
    Row.Edited [] row new where
  cells := ⟨Row.cells new, [], by simp, by simpa using hSublist⟩
  solid := hSolid
  joined _ := hJoined

/- A row may be emptied before it is edited. -/
theorem of_emptied
    (hEdited : Row.Edited added row' new)
    (hRow : row' = row ∨ row' = []) :
    Row.Edited added row new := by
  rcases hRow with rfl | rfl
  · exact hEdited
  · refine ⟨?_, fun _ => hEdited.solid Row.isSolid_nil,
      fun hAdded _ => hEdited.joined hAdded Row.isJoined_nil⟩
    rcases hEdited.cells with ⟨left, right, hCells, hKept⟩
    exact ⟨left, right, hCells,
      hKept.trans (List.nil_sublist _)⟩

end Row.Edited

namespace Cursor

open Row

/- Typing adds a character. -/
theorem edited_type
    (cursor : Cursor ι)
    (c : Char) :
    Edited [.text [c]] cursor.row (cursor.type c).row where
  cells := by
    refine ⟨cursor.before, cursor.ahead, ?_, ?_⟩
    · rw [cells_row, before_type, after_type,
        List.append_assoc]
    · rw [cells_row]
      exact (ahead_sublist_after cursor).append_left _
  solid hSolid := isSolid_type hSolid c
  joined hAdded :=
    nomatch hAdded (.text [c]) (List.mem_singleton.mpr rfl)

/- Inserting a construct adds it. -/
theorem edited_insert
    (cursor : Cursor ι)
    {node : Node ι}
    (hConstruct : node.isConstruct = true) :
    Edited [node] cursor.row (cursor.insert node).row where
  cells := by
    refine ⟨cursor.before, cursor.ahead, ?_, ?_⟩
    · rw [cells_row, before_insert cursor hConstruct,
        after_insert cursor hConstruct]
      cases node with
      | text run => cases hConstruct
      | construct => rfl
      | continuation => cases hConstruct
    · rw [cells_row]
      exact (ahead_sublist_after cursor).append_left _
  solid hSolid := isSolid_insert hSolid hConstruct
  joined _ hJoined := isJoined_insert hJoined hConstruct

/- The word `lim` is dropped from the end. -/
theorem dropLim?_sublist
    {s kept : Text}
    (hDrop : dropLim? s = some kept) :
    kept.Sublist s := by
  rw [dropLim?] at hDrop
  split at hDrop
  · rcases Option.some.inj hDrop with rfl
    exact List.take_sublist _ _
  · cases hDrop

/- Removing the word `lim` only takes cells out. -/
theorem edited_takeLim?
    {cursor taken : Cursor ι}
    (hTake : cursor.takeLim? = some taken) :
    Edited [] cursor.row taken.row := by
  refine .of_cells_sublist ?_
    (fun hSolid => isSolid_takeLim? hSolid hTake)
    (fun hJoined => isJoined_takeLim? hJoined hTake)
  unfold takeLim? at hTake
  split at hTake
  · next left run right offset =>
      rcases Option.map_eq_some_iff.mp hTake with
        ⟨kept, hDrop, rfl⟩
      have hRun :
          (kept ++ run.drop offset).Sublist run := by
        have hSplit :=
          (dropLim?_sublist hDrop).append_right
            (run.drop offset)
        rwa [List.take_append_drop] at hSplit
      rw [cells_withRun, row, cells_append, cells_cons]
      exact ((chars_sublist hRun).append_right _).append_left _
  · next run left right offset _ =>
      rcases Option.map_eq_some_iff.mp hTake with
        ⟨kept, hDrop, rfl⟩
      rw [cells_withRun, row_cons_left left (.text run) right
        offset 0, row, cells_append, cells_cons]
      exact ((chars_sublist
        (dropLim?_sublist hDrop)).append_right _).append_left _
  · cases hTake

/- Deleting backwards only takes cells out. -/
theorem edited_eraseBack
    {cursor erased : Cursor ι}
    (hErase : cursor.eraseBack = .ok erased) :
    Edited [] cursor.row erased.row := by
  refine .of_cells_sublist ?_
    (fun hSolid => isSolid_eraseBack hSolid hErase)
    (fun hJoined => isJoined_eraseBack hJoined hErase)
  unfold eraseBack at hErase
  split at hErase
  · next left run right offset =>
      split at hErase
      · rcases Except.ok.inj hErase with rfl
        have hRun : (run.eraseIdx offset).Sublist run :=
          List.eraseIdx_sublist ..
        rw [cells_keepRun, row, cells_append, cells_cons]
        exact ((chars_sublist hRun).append_right
          _).append_left _
      · cases hErase
  · next left id content right offset =>
      rcases Except.ok.inj hErase with rfl
      rw [cells_join, ← cells_append]
      exact cells_sublist
        ((List.sublist_cons_self ..).append_left _)
  · next run left right offset _ _ =>
      rcases Except.ok.inj hErase with rfl
      have hRun : run.dropLast.Sublist run :=
        List.dropLast_sublist run
      rw [cells_keepRun, row_cons_left left (.text run) right
        offset 0, row, cells_append, cells_cons]
      exact ((chars_sublist hRun).append_right _).append_left _
  · next node left right offset _ _ _ =>
      rcases Except.ok.inj hErase with rfl
      rw [cells_join, ← cells_append,
        row_cons_left left node right offset 0]
      exact cells_sublist
        ((List.sublist_cons_self ..).append_left _)
  · cases hErase

/- Removing a node only takes cells out. -/
theorem edited_join
    (left right : Row ι)
    (node : Node ι)
    (offset : Nat) :
    Edited [] (row ⟨left, node :: right, offset⟩)
      (join left right).row := by
  refine .of_cells_sublist ?_ ?_ ?_
  · rw [cells_join, ← cells_append]
    exact cells_sublist
      ((List.sublist_cons_self ..).append_left _)
  · intro hSolid
    rw [row, isSolid_append, isSolid_reverse, isSolid_cons]
      at hSolid
    exact isSolid_join hSolid.1 hSolid.2.2
  · intro hJoined
    rw [row, isJoined_reverse_append, isJoined_cons]
      at hJoined
    exact isJoined_join hJoined.1 hJoined.2.1.2

/- A continuation may be put into a row at any place. -/
theorem edited_land
    (left right : Row ι)
    (offset : Nat)
    (id : ι)
    (placeholder : Char) :
    Edited [.continuation id [placeholder]]
      (row ⟨left, right, offset⟩)
      (left.reverse ++
        .continuation id [placeholder] :: right) where
  cells := by
    refine ⟨cells left.reverse, cells right, ?_, ?_⟩
    · simp
    · rw [row, cells_append]
  solid hSolid := by
    rw [row, isSolid_append] at hSolid
    simp [hSolid]
  joined _ hJoined := by
    rw [row, isJoined_reverse_append] at hJoined
    simp [hJoined]

end Cursor

end Rows

------------------------------------------------------------
-- Edited Documents
------------------------------------------------------------

/-
  One edit of a document.  Identities are handed out, and
  one row may be replaced by an edited one in which the
  added nodes have the identities that were handed out.
-/
inductive Document.Edit
    (adds : List (Node Unit))
    (document : Document) :
    Document → Prop where
  | later {next : Identity} :
      document.next ≤ next →
        Edit adds document { document with next }
  | rewrite
      {steps : List Step}
      {row new root : Row Identity}
      {added : Row Unit} :
      document.root.at? steps = some row →
        document.root.replaceAt? new steps = some root →
        (∀ node ∈ added, node ∈ adds) →
        Row.Edited (added.number document.next) row new →
        Edit adds document
          (ofRow (document.next + (Row.ids added).length)
            root)

/- Any number of edits, one after the other. -/
abbrev Document.Edits
    (adds : List (Node Unit)) :
    Document → Document → Prop :=
  Relation.ReflTransGen (Document.Edit adds)

/- The nodes that an intent may add to a document. -/
def Intent.additions
    (settings : Settings) :
    Intent → List (Node Unit)
  | .forward => [.continuation () [settings.placeholder]]
  | .trigger => [.emptyFraction (), settings.limit.node]
  | .fraction => [.emptyFraction ()]
  | .limit => [settings.limit.node]
  | .type c => [.text [c]]
  | .backspace => []
  | .focus _ => []
  | .leave _ => [.continuation () [settings.placeholder]]

/- The rows of a new fraction are empty. -/
theorem Node.eq_nil_of_region?_emptyFraction
    {slot : Slot}
    {below : Row Unit}
    (hRegion :
      (Node.emptyFraction ()).region? slot = some below) :
    below = [] := by
  rcases Node.region?_eq_some_iff.mp hRegion with
    ⟨id, other, hNode⟩
  rcases slot with ⟨kind, _ | _⟩
  · exact (Node.construct.inj hNode).2.2.1.symm
  · exact (Node.construct.inj hNode).2.2.2.symm

/- The rows of a new limit have been read from text. -/
theorem LimitTemplate.eq_ofText_of_region?
    {limit : LimitTemplate}
    {slot : Slot}
    {below : Row Unit}
    (hRegion : limit.node.region? slot = some below) :
    ∃ s, below = Row.ofText s := by
  rcases Node.region?_eq_some_iff.mp hRegion with
    ⟨id, other, hNode⟩
  rcases slot with ⟨kind, _ | _⟩
  · exact ⟨_, (Node.construct.inj hNode).2.2.1.symm⟩
  · exact ⟨_, (Node.construct.inj hNode).2.2.2.symm⟩

/- What holds of all that may be added holds of additions. -/
theorem Intent.forall_mem_additions
    {holds : Node Unit → Prop}
    {settings : Settings}
    {intent : Intent}
    (hFraction : holds (.emptyFraction ()))
    (hLimit : holds settings.limit.node)
    (hLanding :
      holds (.continuation () [settings.placeholder]))
    (hTyped : ∀ c, intent = .type c → holds (.text [c])) :
    ∀ node ∈ intent.additions settings, holds node := by
  cases intent with
  | forward => exact List.forall_mem_singleton.mpr hLanding
  | trigger =>
      exact List.forall_mem_cons.mpr
        ⟨hFraction, List.forall_mem_singleton.mpr hLimit⟩
  | fraction => exact List.forall_mem_singleton.mpr hFraction
  | limit => exact List.forall_mem_singleton.mpr hLimit
  | type c =>
      exact List.forall_mem_singleton.mpr (hTyped c rfl)
  | backspace => exact List.forall_mem_nil _
  | focus caret => exact List.forall_mem_nil _
  | leave id => exact List.forall_mem_singleton.mpr hLanding

namespace Editor

variable {adds : List (Node Unit)}

/- What the cursor of an editor is opened in. -/
theorem exists_row_of_cursor
    {editor : Editor}
    {cursor : Cursor Identity}
    (hCursor : editor.cursor = .ok cursor) :
    ∃ row,
      editor.document.region? editor.caret.region = some row ∧
        (cursor.row = row ∨ cursor.row = []) := by
  rw [Editor.cursor] at hCursor
  split at hCursor
  · cases hCursor
  · next row hRegion =>
      refine ⟨row, hRegion, ?_⟩
      split at hCursor
      · rcases Except.ok.inj hCursor with rfl
        exact .inr rfl
      · split at hCursor
        · cases hCursor
        · next found hFound =>
            rcases Except.ok.inj hCursor with rfl
            exact .inl (Row.cursor?_eq_some_iff.mp hFound).1

/- Closing a region replaces its row and nothing else. -/
theorem exists_of_put?
    {editor changed : Editor}
    {row : Row Identity}
    (hRegion :
      editor.document.region? editor.caret.region = some row)
    {cursor : Cursor Identity}
    (hPut : editor.put? cursor = some changed) :
    ∃ steps root,
      editor.document.root.at? steps = some row ∧
        editor.document.root.replaceAt? cursor.row steps =
          some root ∧
        changed.document =
          .ofRow editor.document.next root := by
  rcases Option.map_eq_some_iff.mp hPut with
    ⟨document, hSet, rfl⟩
  rcases Document.setRegion?_eq_some_iff.mp hSet with
    ⟨steps, root, hSteps, hReplace, rfl⟩
  rcases Document.region?_eq_some_iff.mp hRegion with
    ⟨steps', hSteps', hAt⟩
  rw [hSteps] at hSteps'
  rcases Option.some.inj hSteps' with rfl
  exact ⟨steps, root, hAt, hReplace, rfl⟩

/-
  Closing a region with an edited row is an edit, where the
  editor may have handed out identities already.
-/
theorem edit_put?
    {document : Document}
    {editor changed : Editor}
    {cursor edited : Cursor Identity}
    {added : Row Unit}
    (hRoot : editor.document.root = document.root)
    (hNext :
      editor.document.next =
        document.next + (Row.ids added).length)
    (hCursor : editor.cursor = .ok cursor)
    (hAdds : ∀ node ∈ added, node ∈ adds)
    (hEdited :
      Row.Edited (added.number document.next) cursor.row
        edited.row)
    (hPut : editor.put? edited = some changed) :
    Document.Edit adds document changed.document := by
  rcases exists_row_of_cursor hCursor with
    ⟨row, hRegion, hRow⟩
  rcases exists_of_put? hRegion hPut with
    ⟨steps, root, hAt, hReplace, hDocument⟩
  rw [hRoot] at hAt hReplace
  rw [hDocument, hNext]
  exact .rewrite hAt hReplace hAdds
    (hEdited.of_emptied hRow)

/- So it is if no identities are needed. -/
theorem edits_put
    {editor : Editor}
    {cursor edited : Cursor Identity}
    {added : Row Unit}
    (hCursor : editor.cursor = .ok cursor)
    (hAdds : ∀ node ∈ added, node ∈ adds)
    (hEdited :
      Row.Edited (added.number editor.document.next)
        cursor.row edited.row)
    (hNone : Row.ids added = []) :
    Document.Edits adds editor.document
      (editor.put edited).editor.document := by
  rw [put]
  split
  · exact .refl
  · next changed hPut =>
      exact .single
        (edit_put? rfl (by rw [hNone]; rfl) hCursor hAdds
          hEdited hPut)

/- Typing adds the character. -/
theorem edits_type
    (editor : Editor)
    (c : Char) :
    Document.Edits [.text [c]] editor.document
      (editor.type c).editor.document := by
  rw [type]
  split
  · exact .refl
  · next cursor hCursor =>
      exact @edits_put _ editor cursor _ [.text [c]] hCursor
        (fun _ hMem => hMem) (cursor.edited_type c) rfl

/- Numbering a construct leaves a construct. -/
theorem isConstruct_number
    {content : Node Unit}
    (hConstruct : content.isConstruct = true)
    (next : Identity) :
    (content.number next).isConstruct = true := by
  cases content with
  | text run => cases hConstruct
  | construct => rfl
  | continuation => cases hConstruct

/- Inserting a construct adds it. -/
theorem edits_insert
    {content : Node Unit}
    (hConstruct : content.isConstruct = true)
    (hAdds : content ∈ adds)
    (editor : Editor)
    (first : Slot)
    (selected : Bool) :
    Document.Edits adds editor.document
      (editor.insert content first
        selected).editor.document := by
  have hLater :
      Document.Edits adds editor.document
        (editor.document.adopt content).2 :=
    .single (.later (Nat.le_add_right _ _))
  rw [insert]
  simp only
  split
  · exact hLater
  · next cursor hCursor =>
      split
      · exact hLater
      · next changed hPut =>
          have hNumbered :=
            isConstruct_number hConstruct editor.document.next
          exact .single
            (@edit_put? _ editor.document
              ⟨(editor.document.adopt content).2, editor.caret⟩
              changed cursor _ [content] rfl
              (by simp [Row.ids, Document.adopt]) hCursor
              (List.forall_mem_singleton.mpr hAdds)
              (cursor.edited_insert hNumbered) hPut)

/- How the word `lim` is removed from an editor. -/
theorem exists_of_takeLim?
    {editor changed : Editor}
    (hTaken : editor.takeLim? = some changed) :
    ∃ cursor taken,
      editor.cursor = .ok cursor ∧
        cursor.takeLim? = some taken ∧
        editor.put? taken = some changed := by
  rw [takeLim?] at hTaken
  split at hTaken
  · cases hTaken
  · split at hTaken
    · cases hTaken
    · next cursor hCursor =>
        split at hTaken
        · cases hTaken
        · next taken hTake =>
            exact ⟨cursor, taken, hCursor, hTake, hTaken⟩

/- Removing the word `lim` adds nothing. -/
theorem edits_takeLim?
    {editor changed : Editor}
    (hTaken : editor.takeLim? = some changed) :
    Document.Edits adds editor.document changed.document := by
  rcases exists_of_takeLim? hTaken with
    ⟨cursor, taken, hCursor, hTake, hPut⟩
  exact .single
    (@edit_put? _ _ editor changed cursor taken [] rfl rfl
      hCursor (by simp) (Cursor.edited_takeLim? hTake) hPut)

/- Inserting what the trigger stands for adds just that. -/
theorem edits_trigger
    (editor : Editor)
    (limit : LimitTemplate) :
    Document.Edits [.emptyFraction (), limit.node]
      editor.document
      (editor.trigger limit).editor.document := by
  rw [trigger]
  split
  · exact edits_insert rfl (by simp) editor _ _
  · next changed hTaken =>
      exact (edits_takeLim? hTaken).trans
        (edits_insert rfl (by simp) changed _ _)

/-
  Removing a construct does nothing, or it closes the row of
  the construct around the place where that was.
-/
theorem removeOwner_cases
    (editor : Editor)
    (id : Identity) :
    (editor.removeOwner id).editor = editor ∨
      ∃ path region left node right root,
        editor.document.regionOf? path = some region ∧
          editor.document.rowAt? path.steps =
            some (Cursor.row ⟨left, node :: right, 0⟩) ∧
          editor.document.root.replaceAt?
              (Cursor.join left right).row path.steps =
            some root ∧
          (editor.removeOwner id).editor =
            ⟨.ofRow editor.document.next root,
              ⟨region, (Cursor.join left right).index,
                (Cursor.join left right).offset, false⟩⟩ := by
  rw [removeOwner]
  simp only
  split
  · exact .inl rfl
  · next path _ =>
      split
      · next region row hRegion hRow =>
          split
          · next left node right _ hCursor =>
              split
              · exact .inl rfl
              · next document hSet =>
                  rcases Option.map_eq_some_iff.mp hSet with
                    ⟨root, hReplace, rfl⟩
                  rcases Row.cursor?_eq_some_iff.mp hCursor
                    with ⟨rfl, _, _⟩
                  exact .inr
                    ⟨path, region, left, node, right, root,
                      hRegion, hRow, hReplace, rfl⟩
          · exact .inl rfl
      · exact .inl rfl

/- Removing a construct adds nothing. -/
theorem edits_removeOwner
    (editor : Editor)
    (id : Identity) :
    Document.Edits adds editor.document
      (editor.removeOwner id).editor.document := by
  rcases removeOwner_cases editor id with hSame |
    ⟨_, _, left, node, right, _, _, hRow, hReplace, hRemoved⟩
  · rw [hSame]
  · rw [hRemoved]
    exact .single
      (@Document.Edit.rewrite _ _ _ _ _ _ [] hRow hReplace
        (by simp) (Cursor.edited_join left right node 0))

/- Deleting backwards adds nothing. -/
theorem edits_backspace
    (editor : Editor) :
    Document.Edits adds editor.document
      editor.backspace.editor.document := by
  rw [backspace]
  split
  · exact .refl
  · next cursor hCursor =>
      split
      · refine @edits_put adds editor cursor cursor [] hCursor
          (by simp) ?_ rfl
        exact .of_cells_sublist (List.Sublist.refl _) id id
      · split
        · next erased hErase =>
            exact @edits_put adds editor cursor erased []
              hCursor (by simp)
              (Cursor.edited_eraseBack hErase) rfl
        · exact edits_removeOwner editor _
        · exact .refl

/-
  Landing after a node does nothing, or it goes to the
  continuation or to the end of the run after the node, or
  to a new continuation that it puts there.
-/
theorem landPast_cases
    (editor : Editor)
    (id : Identity)
    (placeholder : Char)
    (intoRun : Bool) :
    (editor.landPast id placeholder intoRun).editor =
        editor ∨
      ∃ path region left right,
        editor.document.regionOf? path = some region ∧
          editor.document.rowAt? path.steps =
            some (Cursor.row ⟨left, right, 0⟩) ∧
          ((∃ offset,
            Cursor.IsSettled ⟨left, right, offset⟩ ∧
              (editor.landPast id placeholder
                  intoRun).editor =
                ⟨editor.document,
                  ⟨region, left.length, offset, false⟩⟩) ∨
            ∃ root,
              editor.document.root.replaceAt?
                  (left.reverse ++
                    .continuation editor.document.next
                      [placeholder] :: right)
                  path.steps =
                some root ∧
              (editor.landPast id placeholder
                  intoRun).editor =
                ⟨.ofRow (editor.document.next + 1) root,
                  ⟨region, left.length, 0, false⟩⟩) := by
  rw [landPast]
  simp only
  split
  · exact .inl rfl
  · next path _ =>
      split
      · next region row hRegion hRow =>
          split
          · exact .inl rfl
          · next left right _ hCursor =>
              rcases Row.cursor?_eq_some_iff.mp hCursor with
                ⟨rfl, hIndex, _⟩
              rw [← hIndex]
              split
              · refine .inr ⟨path, region, left, _, hRegion,
                  hRow, .inl ⟨0, ?_, rfl⟩⟩
                exact Cursor.isSettled_zero _ _
              · next run _ _ =>
                  refine .inr ⟨path, region, left, _, hRegion,
                    hRow, .inl ⟨run.length, ?_, rfl⟩⟩
                  exact Nat.le_refl _
              · split
                · exact .inl rfl
                · next document hSet =>
                    rcases Option.map_eq_some_iff.mp hSet with
                      ⟨root, hReplace, rfl⟩
                    exact .inr ⟨path, region, left, right,
                      hRegion, hRow, .inr ⟨root, hReplace, rfl⟩⟩
      · exact .inl rfl

/- Landing after a node adds at most a continuation. -/
theorem edits_landPast
    (editor : Editor)
    (id : Identity)
    (placeholder : Char)
    (intoRun : Bool) :
    Document.Edits [.continuation () [placeholder]]
      editor.document
      (editor.landPast id placeholder
        intoRun).editor.document := by
  rcases landPast_cases editor id placeholder intoRun with
    hSame | ⟨_, _, left, right, _, hRow,
      ⟨_, _, hLanded⟩ | ⟨_, hReplace, hLanded⟩⟩
  · rw [hSame]
  · rw [hLanded]
  · rw [hLanded]
    exact .single
      (@Document.Edit.rewrite _ _ _ _ _ _
        [.continuation () [placeholder]] hRow hReplace
        (by simp) (Cursor.edited_land left right 0 _ _))

/- Moving forward adds at most a continuation. -/
theorem edits_forward
    (editor : Editor)
    (placeholder : Char) :
    Document.Edits [.continuation () [placeholder]]
      editor.document
      (editor.forward placeholder).editor.document := by
  rw [forward]
  split
  · exact .refl
  · split
    · exact .refl
    · split
      · exact edits_landPast editor _ _ _
      · simp only
        split
        · exact .refl
        · exact .refl

/- Leaving a construct adds at most a continuation. -/
theorem edits_leave
    (editor : Editor)
    (id : Identity)
    (placeholder : Char) :
    Document.Edits [.continuation () [placeholder]]
      editor.document
      (editor.leave id placeholder).editor.document := by
  rw [leave]
  split
  · exact .refl
  · exact edits_landPast editor _ _ _

/- Carrying out an intent adds only what it may add. -/
theorem edits_attempt
    (settings : Settings)
    (editor : Editor)
    (intent : Intent) :
    Document.Edits (intent.additions settings) editor.document
      (attempt settings editor intent).editor.document := by
  cases intent with
  | forward => exact edits_forward editor _
  | trigger => exact edits_trigger editor _
  | fraction =>
      exact edits_insert rfl (List.mem_singleton.mpr rfl)
        editor _ _
  | limit =>
      exact edits_insert rfl (List.mem_singleton.mpr rfl)
        editor _ _
  | type c => exact edits_type editor c
  | backspace => exact edits_backspace editor
  | focus caret => exact .refl
  | leave id => exact edits_leave editor id _

/- Aiming the caret leaves the document as it is. -/
@[simp] theorem document_aim
    (editor : Editor)
    (intent : Intent) :
    (editor.aim intent).document = editor.document := by
  cases intent <;> rfl

/- Applying an intent adds only what it may add. -/
theorem edits_apply
    (settings : Settings)
    (editor : Editor)
    (intent : Intent) :
    Document.Edits (intent.additions settings) editor.document
      (editor.apply settings intent).1.document := by
  rw [← document_aim editor intent]
  simp only [apply]
  split
  · exact .refl
  · next caret hClamp =>
      exact edits_attempt settings
        ⟨(editor.aim intent).document, caret⟩ intent

end Editor

------------------------------------------------------------
-- What Edits Preserve
------------------------------------------------------------

/-
  What holds of every row of a tree still does after an edit
  if it holds of the edited row and of the rows of what has
  been added.
-/
theorem Row.Edited.everywhere
    {holds : Row Identity → Prop}
    {added : Row Unit}
    {next : Identity}
    {row new : Row Identity}
    (hEdited : Row.Edited (added.number next) row new)
    (hAdded :
      ∀ node ∈ added, ∀ slot below,
        node.region? slot = some below →
          ∀ start, (Row.number start below).Everywhere holds)
    (hRow : row.Everywhere holds)
    (hNew : holds new) :
    new.Everywhere holds := by
  rcases hEdited.cells with ⟨left, right, hCells, hKept⟩
  refine Row.everywhere_iff.mpr ⟨hNew, ?_⟩
  intro node hMem slot below hRegion
  have hParts :
      node ∈ left ++ right ∨ node ∈ added.number next := by
    rw [← Row.mem_cells_iff_of_region? hRegion, hCells]
      at hMem
    simp only [List.mem_append] at hMem ⊢
    tauto
  rcases hParts with hOlder | hNewer
  · have hRowMem := hKept.subset hOlder
    rw [Row.mem_cells_iff_of_region? hRegion] at hRowMem
    exact hRow.below hRowMem hRegion
  · rcases List.getElem?_of_mem hNewer with ⟨index, hNode⟩
    rcases Row.exists_of_getElem?_number hNode with
      ⟨_, inner, hInner, rfl⟩
    rcases exists_of_region?_number hRegion with
      ⟨start, content, hContent, rfl⟩
    exact hAdded inner (List.mem_of_getElem? hInner) slot
      content hContent start

namespace Document

variable {adds : List (Node Unit)} {document changed : Document}

/-
  What holds of all nodes of a document still does after an
  edit, if it holds of what the edit adds.
-/
theorem Edit.throughout
    {holds : Node Identity → Prop}
    (hCellwise : Node.IsCellwise holds)
    (hAdds :
      ∀ node ∈ adds, ∀ next, document.next ≤ next →
        Row.Throughout holds [node.number next])
    (hEdit : Edit adds document changed)
    (hAll : document.root.Throughout holds) :
    changed.root.Throughout holds := by
  cases hEdit with
  | later => exact hAll
  | @rewrite steps row new root added
      hAt hReplace hAdded hEdited =>
      rcases hEdited.cells with ⟨left, right, hCells, hKept⟩
      have hRow : Row.Throughout holds (Row.cells row) :=
        (Row.throughout_cells hCellwise row).mpr
          (Row.Everywhere.at? hAll hAt)
      have hNumbered :
          ∀ next, document.next ≤ next →
            Row.Throughout holds (added.number next) := by
        clear hEdited hCells
        induction added with
        | nil =>
            intro next _
            rw [Row.throughout_iff]
            simp [Row.number]
        | cons node added ih =>
            rw [List.forall_mem_cons] at hAdded
            intro next hNext
            rw [Row.number, ← List.singleton_append,
              Row.throughout_append]
            exact ⟨hAdds node hAdded.1 next hNext,
              ih hAdded.2 _
                (Nat.le_trans hNext (Nat.le_add_right _ _))⟩
      have hNew : new.Throughout holds := by
        rw [← Row.throughout_cells hCellwise, hCells,
          Row.throughout_append, Row.throughout_append]
        have hParts := hRow.of_subset hKept.subset
        rw [Row.throughout_append] at hParts
        exact ⟨hParts.1, hNumbered _ (Nat.le_refl _),
          hParts.2⟩
      refine Row.Everywhere.replaceAt? ?_ hAll hNew hReplace
      intro left right slot id below below' other hShape
      rw [List.forall_mem_append, List.forall_mem_cons]
        at hShape ⊢
      exact ⟨hShape.1,
        hCellwise.slot slot id below below' other hShape.2.1,
        hShape.2.2⟩

/- So it does after any number of edits. -/
theorem Edits.throughout
    {holds : Node Identity → Prop}
    (hCellwise : Node.IsCellwise holds)
    (hAdds :
      ∀ node ∈ adds, ∀ next,
        Row.Throughout holds [node.number next])
    (hEdits : Edits adds document changed)
    (hAll : document.root.Throughout holds) :
    changed.root.Throughout holds := by
  induction hEdits with
  | refl => exact hAll
  | tail _ hEdit ih =>
      refine hEdit.throughout hCellwise ?_ ih
      intro node hMem next _
      exact hAdds node hMem next

/-
  An edit keeps a document sound if no run in what it adds
  is empty.
-/
theorem Edit.sound
    (hAdds :
      ∀ node ∈ adds, ∀ slot below,
        node.region? slot = some below →
          below.Everywhere Row.IsSolid)
    (hEdit : Edit adds document changed)
    (hSound : document.Sound) :
    changed.Sound := by
  cases hEdit with
  | later hNext => exact hSound.later hNext
  | @rewrite steps row new root added
      hAt hReplace hAdded hEdited =>
      rcases hEdited.cells with ⟨left, right, hCells, hKept⟩
      have hIds :
          Row.ids new =
            Row.ids left ++
              (List.range' document.next
                  (Row.ids added).length ++
                Row.ids right) := by
        rw [← Row.ids_cells, hCells, ids_append, ids_append,
          Row.ids_number]
      have hOld :
          (Row.ids left ++ Row.ids right).Sublist
            (Row.ids row) := by
        rw [← ids_append, ← Row.ids_cells row]
        exact Row.ids_sublist hKept
      have hRowIds := Row.ids_at?_sublist hAt
      have hOldNodup : (Row.ids row).Nodup :=
        hSound.nodup.sublist hRowIds
      have hPerm :
          (Row.ids new).Perm
            (List.range' document.next
                (Row.ids added).length ++
              (Row.ids left ++ Row.ids right)) := by
        rw [hIds]
        exact List.perm_append_comm_assoc ..
      refine hSound.replaceAt? hAt hReplace
        (Nat.le_add_right _ _) ?_ ?_ ?_
      · rw [hPerm.nodup_iff, List.nodup_append]
        refine
          ⟨List.nodup_range', hOldNodup.sublist hOld, ?_⟩
        intro id hMem other hOther
        have hLess :=
          hSound.fresh other
            (hRowIds.subset (hOld.subset hOther))
        rw [List.mem_range'_1] at hMem
        exact Nat.ne_of_gt (Nat.lt_of_lt_of_le hLess hMem.1)
      · intro id hMem
        rw [hPerm.mem_iff, List.mem_append,
          List.mem_range'_1] at hMem
        exact hMem.symm.imp_left fun hOlder =>
          hOld.subset hOlder
      · refine hEdited.everywhere ?_ (hSound.solid.at? hAt)
          (hEdited.solid (hSound.solid steps row hAt))
        intro node hMem slot below hRegion start
        exact Row.everywhere_isSolid_number
          (hAdds node (hAdded node hMem) slot below hRegion)
          start

/- So does any number of edits. -/
theorem Edits.sound
    (hAdds :
      ∀ node ∈ adds, ∀ slot below,
        node.region? slot = some below →
          below.Everywhere Row.IsSolid)
    (hEdits : Edits adds document changed)
    (hSound : document.Sound) :
    changed.Sound := by
  induction hEdits with
  | refl => exact hSound
  | tail _ hEdit ih => exact hEdit.sound hAdds ih

end Document

end FormulaEditor
