import FormulaEditor.Proofs.Editing.GapBuffer

/-
  This file proves that editing never strands the caret:
  whatever is asked of an editor, the caret is placed in a
  row of the document afterwards, and the answer tells what
  it is in.

  Key definitions include:
    * `Editor.IsPlaced`

  Key theorems include:
    * `Editor.isPlaced_attempt`
    * `Editor.isPlaced_apply`
    * `Editor.apply_focus`
    * `Editor.apply_placed`
-/

namespace FormulaEditor

/-
  The steps to a node are those to the region that the node
  is in.
-/
theorem Document.stepsTo?_of_regionOf?
    {document : Document}
    (hSound : document.Sound)
    {path : Path}
    {region : Region}
    (hRegion : document.regionOf? path = some region)
    {row : Row Identity}
    (hRow : document.rowAt? path.steps = some row) :
    document.stepsTo? region = some path.steps := by
  rcases exists_regionOf? hSound.nodup hRow with
    ⟨found, hFound, hSteps⟩
  rw [hRegion] at hFound
  rcases Option.some.inj hFound with rfl
  exact hSteps

namespace Editor

/- The caret of an editor is placed in its region. -/
def IsPlaced
    (editor : Editor) :
    Prop :=
  ∃ row,
    editor.document.region? editor.caret.region = some row ∧
      editor.caret.IsPlaced row

------------------------------------------------------------
-- Opening and Closing Regions
------------------------------------------------------------

section Placed

variable {editor : Editor}

/- A region is opened at a settled cursor. -/
theorem isSettled_of_cursor
    (hPlaced : editor.IsPlaced)
    {cursor : Cursor Identity}
    (hCursor : editor.cursor = .ok cursor) :
    cursor.IsSettled := by
  rcases hPlaced with ⟨row, hRegion, hPlaced⟩
  rw [Editor.cursor, hRegion] at hCursor
  simp only at hCursor
  split at hCursor
  · rcases Except.ok.inj hCursor with rfl
    exact Cursor.isSettled_zero [] []
  · split at hCursor
    · cases hCursor
    · next found hFound =>
        rcases Except.ok.inj hCursor with rfl
        exact Cursor.isSettled_of_cursor? hPlaced hFound

/- Closing a region at a settled cursor places the caret. -/
theorem isPlaced_of_replaces
    {document changed : Document}
    {region : Region}
    {cursor : Cursor Identity}
    (hReplaces :
      document.Replaces region cursor.row changed)
    (hSound : changed.Sound)
    (hSettled : cursor.IsSettled) :
    IsPlaced
      ⟨changed,
        ⟨region, cursor.index, cursor.offset, false⟩⟩ :=
  ⟨cursor.row, hReplaces.region? hSound,
    Cursor.isPlaced_caret hSettled region false⟩

/- So does closing the region of the caret. -/
theorem isPlaced_put
    (hPlaced : editor.IsPlaced)
    {cursor : Cursor Identity}
    (hSettled : cursor.IsSettled)
    (hSound : (editor.put cursor).editor.document.Sound) :
    (editor.put cursor).editor.IsPlaced := by
  rcases hPlaced with ⟨row, hRegion, _⟩
  rcases exists_put? hRegion cursor with
    ⟨document, hPut, hReplaces⟩
  rw [put, hPut] at hSound ⊢
  exact isPlaced_of_replaces hReplaces hSound hSettled

------------------------------------------------------------
-- Typing and Inserting
------------------------------------------------------------

/- Typing leaves the caret placed. -/
theorem isPlaced_type
    (hSound : editor.document.Sound)
    (hPlaced : editor.IsPlaced)
    (c : Char) :
    (editor.type c).editor.IsPlaced := by
  have hTyped := sound_type hSound c
  rw [type] at hTyped ⊢
  split
  · exact hPlaced
  · next cursor hCursor =>
      rw [hCursor] at hTyped
      exact isPlaced_put hPlaced
        (Cursor.isSettled_type
          (isSettled_of_cursor hPlaced hCursor) c)
        hTyped

/- Inserting leaves the caret in what was inserted. -/
theorem isPlaced_insert
    (hSound : editor.document.Sound)
    (hPlaced : editor.IsPlaced)
    {content : Node Unit}
    (hConstruct : content.isConstruct = true)
    (hContent :
      ∀ slot below, content.region? slot = some below →
        below.Everywhere Row.IsSolid)
    {first : Slot}
    {below : Row Identity}
    (hFirst :
      (content.number editor.document.next).region? first =
        some below)
    (selected : Bool) :
    (editor.insert content first
        selected).editor.IsPlaced := by
  rcases hPlaced with ⟨row, hRegion, hPlaced⟩
  rcases Document.region?_eq_some_iff.mp hRegion with
    ⟨steps, _, hAt⟩
  rcases exists_cursor hRegion (hSound.solid steps row hAt)
      hPlaced with
    ⟨cursor, hCursor⟩
  have hInserts :=
    inserts_insert hSound hRegion hCursor hConstruct hContent
      hFirst selected
  rcases hInserts.inside with ⟨inner, _, hInside⟩
  refine ⟨inner, hInside, ?_⟩
  rw [hInserts.caret]
  exact Caret.isPlaced_zero _ selected inner

/- A new fraction has the caret in its numerator. -/
theorem isPlaced_addFraction
    (hSound : editor.document.Sound)
    (hPlaced : editor.IsPlaced) :
    editor.addFraction.editor.IsPlaced :=
  isPlaced_insert hSound hPlaced rfl isSolid_emptyFraction
    rfl false

/- A new limit has the caret in its subscript. -/
theorem isPlaced_addLimit
    (hSound : editor.document.Sound)
    (hPlaced : editor.IsPlaced)
    (limit : LimitTemplate) :
    (editor.addLimit limit).editor.IsPlaced :=
  isPlaced_insert hSound hPlaced rfl (isSolid_limit limit)
    rfl true

/- Inserting what the trigger stands for places the caret. -/
theorem isPlaced_trigger
    (hSound : editor.document.Sound)
    (hPlaced : editor.IsPlaced)
    (limit : LimitTemplate) :
    (editor.trigger limit).editor.IsPlaced := by
  rw [trigger]
  split
  · exact isPlaced_addFraction hSound hPlaced
  · next changed hTaken =>
      have hChanged : changed.document.Sound :=
        (@edits_takeLim? [] _ _ hTaken).sound (by simp) hSound
      rcases exists_of_takeLim? hTaken with
        ⟨cursor, taken, _, hTake, hPut⟩
      have hOutcome : (editor.put taken).editor = changed := by
        rw [put, hPut]
        rfl
      rw [← hOutcome] at hChanged ⊢
      exact isPlaced_addLimit hChanged
        (isPlaced_put hPlaced
          (Cursor.isSettled_takeLim? hTake) hChanged)
        limit

------------------------------------------------------------
-- Deleting
------------------------------------------------------------

/- Removing a construct places the caret where it was. -/
theorem isPlaced_removeOwner
    (hSound : editor.document.Sound)
    (hPlaced : editor.IsPlaced)
    (id : Identity) :
    (editor.removeOwner id).editor.IsPlaced := by
  have hRemoved := sound_removeOwner hSound id
  rcases removeOwner_cases editor id with hSame |
    ⟨path, region, left, node, right, root, hRegion, hRow,
      hReplace, hEq⟩
  · rw [hSame]
    exact hPlaced
  · have hSteps :=
      Document.stepsTo?_of_regionOf? hSound hRegion hRow
    rw [hEq] at hRemoved ⊢
    exact isPlaced_of_replaces
      ⟨path.steps, hSteps, hReplace⟩ hRemoved
      (Cursor.isSettled_join left right)

/- Deleting backwards leaves the caret placed. -/
theorem isPlaced_backspace
    (hSound : editor.document.Sound)
    (hPlaced : editor.IsPlaced) :
    editor.backspace.editor.IsPlaced := by
  have hErased := sound_backspace hSound
  rw [backspace] at hErased ⊢
  split
  · exact hPlaced
  · next cursor hCursor =>
      rw [hCursor] at hErased
      simp only at hErased
      split
      · next hSelected =>
          rw [if_pos hSelected] at hErased
          exact isPlaced_put hPlaced
            (isSettled_of_cursor hPlaced hCursor) hErased
      · next hSelected =>
          rw [if_neg hSelected] at hErased
          split
          · next erased hErase =>
              rw [hErase] at hErased
              exact isPlaced_put hPlaced
                (Cursor.isSettled_eraseBack hErase) hErased
          · exact isPlaced_removeOwner hSound hPlaced _
          · exact hPlaced

------------------------------------------------------------
-- Moving
------------------------------------------------------------

/- Landing after a node places the caret there. -/
theorem isPlaced_landPast
    (hSound : editor.document.Sound)
    (hPlaced : editor.IsPlaced)
    (id : Identity)
    (placeholder : Char)
    (intoRun : Bool) :
    (editor.landPast id placeholder
        intoRun).editor.IsPlaced := by
  have hLater :
      (editor.landPast id placeholder
        intoRun).editor.document.Sound := by
    refine (edits_landPast editor id placeholder
      intoRun).sound ?_ hSound
    intro node hMem slot below hRegion
    rw [List.mem_singleton.mp hMem] at hRegion
    cases hRegion
  rcases landPast_cases editor id placeholder intoRun with
    hSame | ⟨path, region, left, right, hRegion, hRow, hLand⟩
  · rw [hSame]
    exact hPlaced
  · have hSteps :=
      Document.stepsTo?_of_regionOf? hSound hRegion hRow
    -- Where there is a place to land on, no row is edited.
    rcases hLand with
      ⟨offset, hSettled, hEq⟩ | ⟨root, hReplace, hEq⟩
    · rw [hEq]
      exact ⟨_,
        Document.region?_eq_some_iff.mpr
          ⟨path.steps, hSteps, hRow⟩,
        Cursor.isPlaced_caret hSettled region false⟩
    · rw [hEq] at hLater ⊢
      exact @isPlaced_of_replaces editor.document _ region
        ⟨left,
          .continuation editor.document.next
            [placeholder] :: right, 0⟩
        ⟨path.steps, hSteps, hReplace⟩ hLater
        (Cursor.isSettled_zero _ _)

/- Moving forward leaves the caret placed. -/
theorem isPlaced_forward
    (hSound : editor.document.Sound)
    (hPlaced : editor.IsPlaced)
    (placeholder : Char) :
    (editor.forward placeholder).editor.IsPlaced := by
  rw [forward]
  split
  · exact hPlaced
  · split
    · exact hPlaced
    · split
      · exact isPlaced_landPast hSound hPlaced _ _ _
      · simp only
        split
        · exact hPlaced
        · next row hRegion =>
            refine ⟨row, ?_, Caret.isPlaced_atEndOf _ row⟩
            simpa [Outcome.done] using hRegion

/- Leaving a construct leaves the caret placed. -/
theorem isPlaced_leave
    (hSound : editor.document.Sound)
    (hPlaced : editor.IsPlaced)
    (id : Identity)
    (placeholder : Char) :
    (editor.leave id placeholder).editor.IsPlaced := by
  rw [leave]
  split
  · exact hPlaced
  · exact isPlaced_landPast hSound hPlaced _ _ _

------------------------------------------------------------
-- Applying Intents
------------------------------------------------------------

/- Carrying out an intent leaves the caret placed. -/
theorem isPlaced_attempt
    (settings : Settings)
    (hSound : editor.document.Sound)
    (hPlaced : editor.IsPlaced)
    (intent : Intent) :
    (attempt settings editor intent).editor.IsPlaced := by
  cases intent with
  | forward => exact isPlaced_forward hSound hPlaced _
  | trigger => exact isPlaced_trigger hSound hPlaced _
  | fraction => exact isPlaced_addFraction hSound hPlaced
  | limit => exact isPlaced_addLimit hSound hPlaced _
  | type c => exact isPlaced_type hSound hPlaced c
  | backspace => exact isPlaced_backspace hSound hPlaced
  | focus caret => exact hPlaced
  | leave id => exact isPlaced_leave hSound hPlaced id _

/- A caret that is pulled back is placed in its region. -/
theorem isPlaced_clampTo
    {document : Document}
    {caret : Caret}
    {row : Row Identity}
    (hRegion : document.region? caret.region = some row) :
    IsPlaced ⟨document, caret.clampTo row⟩ := by
  refine ⟨row, ?_, Caret.isPlaced_clampTo caret row⟩
  rw [Caret.region_clampTo, hRegion]

/- So it is if the region is looked up. -/
theorem isPlaced_clamp?
    {document : Document}
    {caret placed : Caret}
    (hClamp : document.clamp? caret = some placed) :
    IsPlaced ⟨document, placed⟩ := by
  rcases Option.map_eq_some_iff.mp hClamp with
    ⟨row, hRegion, rfl⟩
  exact isPlaced_clampTo hRegion

/- The caret at the end of a document is placed. -/
theorem isPlaced_atEnd
    (document : Document) :
    (atEnd document).IsPlaced := by
  refine ⟨document.root, ?_, Caret.isPlaced_atEndOf _ _⟩
  rw [atEnd, Document.lastCaret, Caret.region_atEndOf]
  rfl

/- The caret at the end of a document is in no construct. -/
theorem focus_atEnd
    (document : Document) :
    (atEnd document).focus = .root := by
  have hRegion : document.region? .root = some document.root :=
    rfl
  rw [focus, atEnd, Document.focus, Document.lastCaret,
    Caret.region_atEndOf, hRegion]
  rcases Caret.getElem?_atEndOf .root document.root with
    ⟨run, hRun, _⟩ | ⟨hNone, _⟩
  · simp only [hRun]
    rfl
  · simp only [hNone]
    rfl

/- Applying an intent leaves the caret placed. -/
theorem isPlaced_apply
    (settings : Settings)
    (hSound : editor.document.Sound)
    (intent : Intent) :
    (editor.apply settings intent).1.IsPlaced := by
  rw [← document_aim editor intent] at hSound
  simp only [apply]
  split
  · exact isPlaced_atEnd _
  · next caret hClamp =>
      exact @isPlaced_attempt
        ⟨(editor.aim intent).document, caret⟩ settings hSound
        (isPlaced_clamp? hClamp) intent

/- The answer tells what the caret is in afterwards. -/
theorem snd_apply
    (settings : Settings)
    (editor : Editor)
    (intent : Intent) :
    (editor.apply settings intent).2 =
      (editor.apply settings intent).1.focus := by
  simp only [apply]
  split
  · exact (focus_atEnd _).symm
  · rfl

/- Nothing but the caret changes if its region is gone. -/
theorem fst_apply_of_region?_none
    (settings : Settings)
    {intent : Intent}
    (hGone :
      editor.document.region?
          (editor.aim intent).caret.region =
        none) :
    (editor.apply settings intent).1 =
      .atEnd editor.document := by
  have hClamp :
      editor.document.clamp? (editor.aim intent).caret =
        none := by
    rw [Document.clamp?, hGone]
    rfl
  simp only [apply, document_aim, hClamp]

/- An intent is carried out right where a placed caret is. -/
theorem fst_apply_of_isPlaced
    (settings : Settings)
    (hPlaced : editor.IsPlaced)
    {intent : Intent}
    (hAim : editor.aim intent = editor) :
    (editor.apply settings intent).1 =
      (attempt settings editor intent).editor := by
  rcases hPlaced with ⟨row, hRegion, hPlaced⟩
  rw [fst_apply settings hRegion hAim,
    Caret.clampTo_of_isPlaced hPlaced]

/- A caret that is placed is focused just where it is. -/
theorem apply_focus
    (settings : Settings)
    (hPlaced : editor.IsPlaced)
    (caret : Caret) :
    apply settings ⟨editor.document, caret⟩
        (.focus editor.caret) =
      (editor, editor.focus) := by
  rcases hPlaced with ⟨row, hRegion, hPlaced⟩
  have hClamp :
      editor.document.clamp? editor.caret =
        some editor.caret := by
    rw [Document.clamp?, hRegion, Option.map_some,
      Caret.clampTo_of_isPlaced hPlaced]
  simp only [apply, aim, hClamp]
  rfl

end Placed

/-
  Whatever intent is applied to a document that is reached
  by editing, and wherever the caret has been put, the caret
  is placed afterwards and the answer tells what it is in.
  If the region was gone, the document is as it was and the
  caret is at its end.  To focus the caret once more changes
  nothing.
-/
theorem apply_placed
    {editor after : Editor}
    (hReachable : editor.document.Reachable)
    (settings : Settings)
    {intent : Intent}
    {focus : Focus}
    (hApply : editor.apply settings intent = (after, focus)) :
    after.IsPlaced ∧
      focus = after.focus ∧
      (editor.document.region?
            (editor.aim intent).caret.region =
          none →
        after = .atEnd editor.document) ∧
      ∀ settings' caret,
        apply settings' ⟨after.document, caret⟩
            (.focus after.caret) =
          (after, focus) := by
  have hPlaced :=
    isPlaced_apply settings hReachable.sound intent
  have hFocus := snd_apply settings editor intent
  rw [hApply] at hPlaced hFocus
  simp only at hPlaced hFocus
  refine ⟨hPlaced, hFocus, ?_, ?_⟩
  · intro hGone
    have hEnd := fst_apply_of_region?_none settings hGone
    rw [hApply] at hEnd
    exact hEnd
  · intro settings' caret
    rw [hFocus]
    exact apply_focus settings' hPlaced caret

/-
  Deleting a fraction between two runs puts the caret where
  the runs have been joined.
-/
theorem placed_between_joined_runs :
    ∃ editor : Editor,
      editor.document.Reachable ∧
        (editor.apply .standard .backspace).1.caret =
          ⟨.root, 0, 1, false⟩ ∧
        (editor.apply .standard .backspace).1.document.root =
          [.text "ab".toList] ∧
        (editor.apply .standard .backspace).1.IsPlaced := by
  have hReachable :=
    ((Document.Reachable.empty.apply .standard .start
        (.type 'b')).apply .standard .start .fraction).apply
      .standard .start (.type 'a')
  refine ⟨⟨_, ⟨.slot 0 .numerator, 0, 0, false⟩⟩,
    hReachable, ?_, ?_, ?_⟩
  · rfl
  · rfl
  · exact (@apply_placed
      ⟨_, ⟨.slot 0 .numerator, 0, 0, false⟩⟩ _ hReachable
      .standard .backspace _ (Prod.eta _).symm).1

end Editor

end FormulaEditor
