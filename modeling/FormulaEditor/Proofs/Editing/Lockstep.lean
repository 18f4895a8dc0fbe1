import FormulaEditor.Proofs.Document.Drafts
import FormulaEditor.Proofs.Editing.Mirroring

/-
  This file proves that editing does not depend on which
  identities a document has: editors that mirror each other
  answer the same to intents that mirror each other, and
  mirror each other afterwards.

  Key theorems include:
    * `Editor.mirrors_insert`
    * `Editor.mirrors_removeOwner`
    * `Editor.mirrors_landPast`
    * `Editor.mirrors_attempt`
    * `Editor.apply_lockstep`
-/

namespace FormulaEditor

------------------------------------------------------------
-- Landing on a Row
------------------------------------------------------------

/-
  Where in a row that is landed on the caret goes: to its
  continuation, or to the end of its run if it may.
-/
def Row.landing?
    {ι : Type}
    (intoRun : Bool) :
    Row ι → Option Nat
  | .continuation _ _ :: _ => some 0
  | .text run :: _ => if intoRun then some run.length else none
  | _ => none

/- Rows with the same content are landed on alike. -/
theorem Row.landing?_of_content
    {row row' : Row Identity}
    (hRows : row.content = row'.content)
    (intoRun : Bool) :
    row.landing? intoRun = row'.landing? intoRun := by
  have hLanding :
      ∀ row : Row Identity,
        row.content.landing? intoRun =
          row.landing? intoRun := by
    intro row
    rcases row with _ | ⟨_ | _ | _, row⟩ <;> rfl
  rw [← hLanding row, hRows, hLanding row']

namespace Editor

variable {editor other : Editor}

------------------------------------------------------------
-- Typing and Inserting
------------------------------------------------------------

section Edits

variable (hSound : editor.document.Sound)
variable (hSound' : other.document.Sound)

include hSound hSound'

/- Typing keeps mirrors. -/
theorem mirrors_type
    (hMirrors : editor.Mirrors other)
    (c : Char) :
    (editor.type c).editor.Mirrors (other.type c).editor := by
  have hTyped := sound_type hSound c
  have hTyped' := sound_type hSound' c
  rw [type] at hTyped hTyped' ⊢
  rw [type]
  rcases cursor_cases hMirrors with
    ⟨refusal, hError, hError'⟩ |
    ⟨steps, cursor, cursor', hSteps, hSteps', hCursor,
      hCursor', hCursors⟩
  · rw [hError, hError']
    exact hMirrors
  · rw [hCursor] at hTyped ⊢
    rw [hCursor'] at hTyped' ⊢
    refine mirrors_put hMirrors hSteps hSteps' ?_ hTyped
      hTyped'
    rw [Cursor.content_type, hCursors, Cursor.content_type]

omit hSound hSound' in
/- Identities that are handed out are not looked at. -/
theorem Mirrors.adopt
    (hMirrors : editor.Mirrors other)
    (content : Node Unit) :
    Mirrors ⟨(editor.document.adopt content).2, editor.caret⟩
      ⟨(other.document.adopt content).2, other.caret⟩ :=
  ⟨hMirrors.content, hMirrors.caret.place,
    hMirrors.caret.index, hMirrors.caret.offset,
    hMirrors.caret.selected⟩

/- Inserting keeps mirrors, though its identities differ. -/
theorem mirrors_insert
    (hMirrors : editor.Mirrors other)
    {content : Node Unit}
    (hConstruct : content.isConstruct = true)
    (hContent :
      ∀ slot below, content.region? slot = some below →
        below.Everywhere Row.IsSolid)
    {first : Slot}
    {below : Row Unit}
    (hFirst : content.region? first = some below)
    (selected : Bool) :
    (editor.insert content first selected).editor.Mirrors
      (other.insert content first selected).editor := by
  have hInserted :=
    sound_insert hSound hConstruct hContent first selected
  have hInserted' :=
    sound_insert hSound' hConstruct hContent first selected
  have hAdopted := hMirrors.adopt content
  rw [insert] at hInserted hInserted' ⊢
  rw [insert]
  rcases cursor_cases hAdopted with
    ⟨refusal, hError, hError'⟩ |
    ⟨steps, cursor, cursor', hSteps, hSteps', hCursor,
      hCursor', hCursors⟩
  · simp only [hError, hError']
    exact hAdopted
  · simp only [hCursor] at hInserted ⊢
    simp only [hCursor'] at hInserted' ⊢
    have hNodes :
        (cursor.insert
            (editor.document.adopt content).1).content =
          (cursor'.insert
            (other.document.adopt content).1).content := by
      rw [Cursor.content_insert, Cursor.content_insert,
        hCursors]
      congr 1
      exact (Node.content_number _ content).trans
        (Node.content_number _ content).symm
    rcases put?_cases hAdopted.root hSteps hSteps' hNodes with
      ⟨hNone, hNone'⟩ |
      ⟨changed, changed', hPut, hPut', hSet, hSet', hChanged⟩
    · simp only [hNone, hNone']
      exact hAdopted
    · simp only [hPut] at hInserted ⊢
      simp only [hPut'] at hInserted' ⊢
      refine ⟨(Row.sameContent_iff _ _).mpr hChanged, ?_, rfl,
        rfl, rfl⟩
      rcases exists_region?_number hFirst
          editor.document.next with
        ⟨inner, hInner⟩
      rcases exists_region?_number hFirst
          other.document.next with
        ⟨inner', hInner'⟩
      have hPlace :=
        Document.place?_of_insert hSteps hSet hInserted
          (id?_number hConstruct _) hInner
      have hPlace' :=
        Document.place?_of_insert hSteps' hSet' hInserted'
          (id?_number hConstruct _) hInner'
      rw [← Cursor.index_of_content hNodes] at hPlace'
      exact hPlace.trans hPlace'.symm

omit hSound hSound' in
/- Mirrors both lose the word `lim`, or neither does. -/
theorem takeLim?_cases
    (hMirrors : editor.Mirrors other) :
    (editor.takeLim? = none ∧ other.takeLim? = none) ∨
      ∃ changed changed',
        editor.takeLim? = some changed ∧
          other.takeLim? = some changed' ∧
            (changed.document.Sound →
              changed'.document.Sound →
                changed.Mirrors changed') := by
  rw [takeLim?, takeLim?, ← hMirrors.caret.selected]
  split
  · exact .inl ⟨rfl, rfl⟩
  · rcases cursor_cases hMirrors with
      ⟨refusal, hError, hError'⟩ |
      ⟨steps, cursor, cursor', hSteps, hSteps', hCursor,
        hCursor', hCursors⟩
    · rw [hError, hError']
      exact .inl ⟨rfl, rfl⟩
    · rw [hCursor, hCursor']
      rcases Cursor.takeLim?_cases hCursors with
        ⟨hNone, hNone'⟩ |
        ⟨taken, taken', hTaken, hTaken', hSame⟩
      · simp only [hNone, hNone']
        exact .inl ⟨trivial, trivial⟩
      · simp only [hTaken, hTaken']
        rcases put?_cases hMirrors.root hSteps hSteps' hSame
            with
          hNone |
          ⟨changed, changed', hPut, hPut', hSet, hSet',
            hChanged⟩
        · exact .inl hNone
        · refine .inr ⟨_, _, hPut, hPut', ?_⟩
          intro hSound hSound'
          exact mirrors_of_setRowAt? hSteps hSteps' hSet
            hSet' hChanged hSound hSound' _ _ _

omit hSound' in
/- Removing the word `lim` keeps a document sound. -/
theorem sound_of_takeLim?
    {changed : Editor}
    (hTaken : editor.takeLim? = some changed) :
    changed.document.Sound :=
  (@edits_takeLim? [] editor changed hTaken).sound (by simp)
    hSound

/- Inserting a fraction keeps mirrors. -/
theorem mirrors_addFraction
    (hMirrors : editor.Mirrors other) :
    editor.addFraction.editor.Mirrors
      other.addFraction.editor :=
  mirrors_insert hSound hSound' hMirrors rfl
    isSolid_emptyFraction rfl false

/- Inserting a limit keeps mirrors. -/
theorem mirrors_addLimit
    (hMirrors : editor.Mirrors other)
    (limit : LimitTemplate) :
    (editor.addLimit limit).editor.Mirrors
      (other.addLimit limit).editor :=
  mirrors_insert hSound hSound' hMirrors rfl
    (isSolid_limit limit) rfl true

/- Inserting what the trigger stands for keeps mirrors. -/
theorem mirrors_trigger
    (hMirrors : editor.Mirrors other)
    (limit : LimitTemplate) :
    (editor.trigger limit).editor.Mirrors
      (other.trigger limit).editor := by
  rw [trigger, trigger]
  rcases takeLim?_cases hMirrors with ⟨hNone, hNone'⟩ |
    ⟨changed, changed', hTaken, hTaken', hChanged⟩
  · rw [hNone, hNone']
    exact mirrors_addFraction hSound hSound' hMirrors
  · have hSoundTaken := sound_of_takeLim? hSound hTaken
    have hSoundTaken' := sound_of_takeLim? hSound' hTaken'
    rw [hTaken, hTaken']
    exact mirrors_addLimit hSoundTaken hSoundTaken'
      (hChanged hSoundTaken hSoundTaken') limit

------------------------------------------------------------
-- Deleting Backwards
------------------------------------------------------------

/- Removing constructs at one path keeps mirrors. -/
theorem mirrors_removeOwner
    (hMirrors : editor.Mirrors other)
    {id id' : Identity}
    (hPath :
      editor.document.path? id = other.document.path? id') :
    (editor.removeOwner id).editor.Mirrors
      (other.removeOwner id').editor := by
  have hRemoved := sound_removeOwner hSound id
  have hRemoved' := sound_removeOwner hSound' id'
  rw [removeOwner] at hRemoved hRemoved' ⊢
  rw [removeOwner]
  simp only at hRemoved hRemoved' ⊢
  rcases Document.finds_cases hMirrors.root hSound hSound'
      hPath with
    ⟨hNone, hNone'⟩ |
    ⟨path, region, region', row, row', hFinds, hFinds', hRows⟩
  · rw [hNone, hNone']
    exact hMirrors
  · simp only [hFinds.found, hFinds.inside, hFinds.opened]
      at hRemoved ⊢
    simp only [hFinds'.found, hFinds'.inside, hFinds'.opened]
      at hRemoved' ⊢
    rcases Cursor.cursor?_cases hRows path.index 0 with
      ⟨hNone, hNone'⟩ |
      ⟨⟨left, right, offset⟩, ⟨left', right', offset'⟩,
        hCursor, hCursor', hCursors⟩
    · rw [hNone, hNone']
      exact hMirrors
    · rw [hCursor] at hRemoved ⊢
      rw [hCursor'] at hRemoved' ⊢
      rcases Cursor.mk.inj hCursors with ⟨hLeft, hRight, _⟩
      simp only at hLeft hRight
      cases right with
      | nil =>
          cases right' with
          | nil => exact hMirrors
          | cons node' right' => cases hRight
      | cons node right =>
          cases right' with
          | nil => cases hRight
          | cons node' right' =>
              have hRest :
                  Row.content right = Row.content right' :=
                (List.cons.inj hRight).2
              have hJoined :
                  (Cursor.join left right).content =
                    (Cursor.join left' right').content := by
                rw [Cursor.content_join, Cursor.content_join,
                  hLeft, hRest]
              simp only [← Cursor.index_of_content hJoined,
                ← Cursor.offset_of_content hJoined]
                at hRemoved' ⊢
              exact mirrors_close hMirrors hMirrors.root
                hFinds.reached hFinds'.reached
                (Cursor.row_of_content hJoined) hRemoved
                hRemoved'

/- Deleting backwards keeps mirrors. -/
theorem mirrors_backspace
    (hMirrors : editor.Mirrors other) :
    editor.backspace.editor.Mirrors
      other.backspace.editor := by
  have hErased := sound_backspace hSound
  have hErased' := sound_backspace hSound'
  rw [backspace] at hErased hErased' ⊢
  rw [backspace]
  rcases cursor_cases hMirrors with
    ⟨refusal, hError, hError'⟩ |
    ⟨steps, cursor, cursor', hSteps, hSteps', hCursor,
      hCursor', hCursors⟩
  · rw [hError, hError']
    exact hMirrors
  · simp only [hCursor] at hErased ⊢
    simp only [hCursor', ← hMirrors.caret.selected]
      at hErased' ⊢
    cases hSelected : editor.caret.selected with
    | true =>
        simp only [hSelected, if_true] at hErased hErased' ⊢
        exact mirrors_put hMirrors hSteps hSteps' hCursors
          hErased hErased'
    | false =>
        simp only [hSelected, Bool.false_eq_true, if_false]
          at hErased hErased' ⊢
        rcases Cursor.eraseBack_cases hCursors with
          ⟨refusal, hErase, hErase'⟩ |
          ⟨erased, erased', hErase, hErase', hSame⟩
        · simp only [hErase] at hErased ⊢
          simp only [hErase'] at hErased' ⊢
          rcases Document.eq_root_or_slot_of_stepsTo? hSteps
              hSteps' with
            ⟨hRegion, hRegion'⟩ |
            ⟨owner, owner', slot, hRegion, hRegion', hPath⟩
          · rw [hRegion, hRegion']
            cases refusal <;> exact hMirrors
          · rw [hRegion] at hErased ⊢
            rw [hRegion'] at hErased' ⊢
            cases refusal with
            | nothingBefore =>
                exact mirrors_removeOwner hSound hSound'
                  hMirrors hPath
            | regionGone => exact hMirrors
            | constructGone => exact hMirrors
            | nowhereToGo => exact hMirrors
            | outOfRange => exact hMirrors
        · simp only [hErase] at hErased ⊢
          simp only [hErase'] at hErased' ⊢
          exact mirrors_put hMirrors hSteps hSteps' hSame
            hErased hErased'

------------------------------------------------------------
-- Landing After a Construct
------------------------------------------------------------

omit hSound' in
/- Landing after a node keeps a document sound. -/
theorem sound_landPast
    (id : Identity)
    (placeholder : Char)
    (intoRun : Bool) :
    (editor.landPast id placeholder
        intoRun).editor.document.Sound := by
  refine (edits_landPast editor id placeholder intoRun).sound
    ?_ hSound
  intro node hMem slot below hRegion
  rw [List.mem_singleton.mp hMem] at hRegion
  cases hRegion

omit hSound hSound' in
/- What landing after a node comes to, once that is found. -/
theorem landPast_of_finds
    {id : Identity}
    {path : Path}
    {region : Region}
    {row left right : Row Identity}
    {offset : Nat}
    (hFinds : editor.document.Finds id path region row)
    (hCursor :
      row.cursor? (path.index + 1) 0 =
        some ⟨left, right, offset⟩)
    (placeholder : Char)
    (intoRun : Bool) :
    editor.landPast id placeholder intoRun =
      match right.landing? intoRun with
      | some offset =>
          .done
            ⟨editor.document,
              ⟨region, path.index + 1, offset, false⟩⟩
      | none =>
          let added :=
            editor.document.adopt
              (.continuation () [placeholder])
          editor.close .regionGone
            ⟨region, path.index + 1, 0, false⟩
            (added.2.setRowAt? path.steps
              (left.reverse ++ added.1 :: right)) := by
  rw [landPast]
  simp only [hFinds.found, hFinds.inside, hFinds.opened,
    hCursor]
  rcases right with _ | ⟨run | _ | _, right⟩
  · rfl
  · cases intoRun <;> rfl
  · rfl
  · rfl

/- Landing after constructs at one path keeps mirrors. -/
theorem mirrors_landPast
    (hMirrors : editor.Mirrors other)
    {id id' : Identity}
    (hPath :
      editor.document.path? id = other.document.path? id')
    (placeholder : Char)
    (intoRun : Bool) :
    (editor.landPast id placeholder intoRun).editor.Mirrors
      (other.landPast id' placeholder intoRun).editor := by
  have hLanded := sound_landPast hSound id placeholder intoRun
  have hLanded' :=
    sound_landPast hSound' id' placeholder intoRun
  rcases Document.finds_cases hMirrors.root hSound hSound'
      hPath with
    ⟨hNone, hNone'⟩ |
    ⟨path, region, region', row, row', hFinds, hFinds', hRows⟩
  · simp only [landPast, hNone, hNone']
    exact hMirrors
  · rcases Cursor.cursor?_cases hRows (path.index + 1) 0 with
      ⟨hNone, hNone'⟩ |
      ⟨⟨left, right, offset⟩, ⟨left', right', offset'⟩,
        hCursor, hCursor', hCursors⟩
    · simp only [landPast, hFinds.found, hFinds.inside,
        hFinds.opened, hNone, hFinds'.found, hFinds'.inside,
        hFinds'.opened, hNone']
      exact hMirrors
    · rcases Cursor.mk.inj hCursors with ⟨hLeft, hRight, _⟩
      simp only at hLeft hRight
      rw [landPast_of_finds hFinds hCursor] at hLanded ⊢
      rw [landPast_of_finds hFinds' hCursor',
        ← Row.landing?_of_content hRight] at hLanded' ⊢
      cases hLanding : right.landing? intoRun with
      | some offset =>
          have hPlace :=
            Document.place?_eq_some_iff.mpr
              ⟨hFinds.reached, row, hFinds.opened⟩
          have hPlace' :=
            Document.place?_eq_some_iff.mpr
              ⟨hFinds'.reached, row', hFinds'.opened⟩
          exact ⟨hMirrors.content,
            hPlace.trans hPlace'.symm, rfl, rfl, rfl⟩
      | none =>
          have hAdopted :=
            hMirrors.adopt (.continuation () [placeholder])
          have hAdded :
              Node.continuation () [placeholder] ::
                  Row.content right =
                Node.continuation () [placeholder] ::
                  Row.content right' := by
            rw [hRight]
          have hOpened :
              Cursor.content
                  ⟨left,
                    .continuation editor.document.next
                        [placeholder] :: right,
                    0⟩ =
                Cursor.content
                  ⟨left',
                    .continuation other.document.next
                        [placeholder] :: right',
                    0⟩ :=
            Cursor.mk.injEq .. |>.mpr ⟨hLeft, hAdded, rfl⟩
          rw [hLanding] at hLanded hLanded'
          exact mirrors_close hMirrors hAdopted.root
            hFinds.reached hFinds'.reached
            (Cursor.row_of_content hOpened) hLanded hLanded'

------------------------------------------------------------
-- Moving Forward and Leaving
------------------------------------------------------------

/- Moving forward keeps mirrors. -/
theorem mirrors_forward
    (hMirrors : editor.Mirrors other)
    {steps : List Step}
    (hSteps :
      editor.document.stepsTo? editor.caret.region =
        some steps)
    (hSteps' :
      other.document.stepsTo? other.caret.region = some steps)
    (placeholder : Char) :
    (editor.forward placeholder).editor.Mirrors
      (other.forward placeholder).editor := by
  have hFocus : editor.focus = other.focus :=
    Document.focus_of_mirrors hMirrors.root hMirrors.caret
  rw [forward, forward, hFocus]
  rcases Document.eq_root_or_slot_of_stepsTo? hSteps hSteps'
      with
    ⟨hRegion, hRegion'⟩ |
    ⟨owner, owner', slot, hRegion, hRegion', hPath⟩
  · rw [hRegion, hRegion']
    exact hMirrors
  · rw [hRegion, hRegion']
    simp only
    split
    · exact hMirrors
    · cases slot.sibling? with
      | none =>
          exact mirrors_landPast hSound hSound' hMirrors hPath
            placeholder false
      | some sibling =>
          have hPlace :=
            Document.place?_slot_of_path? hMirrors.root hPath
              sibling
          rcases Document.region?_cases hMirrors.root hPlace
              with
            ⟨hNone, hNone'⟩ |
            ⟨_, row, row', _, _, hRow, hRow', hRows⟩
          · simp only [hNone, hNone']
            exact hMirrors
          · simp only [hRow, hRow']
            exact ⟨hMirrors.content,
              Caret.mirrors_atEndOf hPlace hRows⟩

/- Leaving constructs at one path keeps mirrors. -/
theorem mirrors_leave
    (hMirrors : editor.Mirrors other)
    {id id' : Identity}
    (hPath :
      editor.document.path? id = other.document.path? id')
    (placeholder : Char) :
    (editor.leave id placeholder).editor.Mirrors
      (other.leave id' placeholder).editor := by
  rw [leave, leave]
  rcases Document.owner?_cases hMirrors.root hPath with
    ⟨hNone, hNone'⟩ | ⟨_, _, hOwner, hOwner'⟩
  · rw [hNone, hNone']
    exact hMirrors
  · rw [hOwner, hOwner']
    exact mirrors_landPast hSound hSound' hMirrors hPath
      placeholder true

------------------------------------------------------------
-- Intents in Lockstep
------------------------------------------------------------

/- Carrying out mirrored intents keeps mirrors. -/
theorem mirrors_attempt
    (settings : Settings)
    (hMirrors : editor.Mirrors other)
    {steps : List Step}
    (hSteps :
      editor.document.stepsTo? editor.caret.region =
        some steps)
    (hSteps' :
      other.document.stepsTo? other.caret.region = some steps)
    {intent intent' : Intent}
    (hIntents :
      Intent.Mirrors editor.document other.document intent
        intent') :
    (attempt settings editor intent).editor.Mirrors
      (attempt settings other intent').editor := by
  cases hIntents with
  | forward =>
      exact mirrors_forward hSound hSound' hMirrors hSteps
        hSteps' settings.placeholder
  | trigger =>
      exact mirrors_trigger hSound hSound' hMirrors
        settings.limit
  | fraction =>
      exact mirrors_addFraction hSound hSound' hMirrors
  | limit =>
      exact mirrors_addLimit hSound hSound' hMirrors
        settings.limit
  | type c => exact mirrors_type hSound hSound' hMirrors c
  | backspace =>
      exact mirrors_backspace hSound hSound' hMirrors
  | focus hCarets => exact hMirrors
  | leave hPath =>
      exact mirrors_leave hSound hSound' hMirrors hPath
        settings.placeholder

end Edits

/- Aiming at mirrored carets keeps mirrors. -/
theorem mirrors_aim
    (hMirrors : editor.Mirrors other)
    {intent intent' : Intent}
    (hIntents :
      Intent.Mirrors editor.document other.document intent
        intent') :
    (editor.aim intent).Mirrors (other.aim intent') := by
  cases hIntents with
  | focus hCarets => exact ⟨hMirrors.content, hCarets⟩
  | forward => exact hMirrors
  | trigger => exact hMirrors
  | fraction => exact hMirrors
  | limit => exact hMirrors
  | type c => exact hMirrors
  | backspace => exact hMirrors
  | leave hPath => exact hMirrors

/- Documents with the same content end at the same place. -/
theorem mirrors_atEnd
    {document other : Document}
    (hContent : document.root.content = other.root.content) :
    (atEnd document).Mirrors (atEnd other) := by
  have hPlace : document.place? .root = other.place? .root :=
    rfl
  exact ⟨(Row.sameContent_iff _ _).mpr hContent,
    Caret.mirrors_atEndOf hPlace hContent⟩

/- Applying mirrored intents keeps mirrors. -/
theorem mirrors_apply
    (settings : Settings)
    (hSound : editor.document.Sound)
    (hSound' : other.document.Sound)
    (hMirrors : editor.Mirrors other)
    {intent intent' : Intent}
    (hIntents :
      Intent.Mirrors editor.document other.document intent
        intent') :
    (editor.apply settings intent).2 =
        (other.apply settings intent').2 ∧
      (editor.apply settings intent).1.Mirrors
        (other.apply settings intent').1 := by
  have hAimed := mirrors_aim hMirrors hIntents
  rw [apply, apply]
  simp only
  rcases Document.clamp?_cases hAimed.root hAimed.caret with
    ⟨hNone, hNone'⟩ |
    ⟨steps, pulled, pulled', hClamp, hClamp', hSteps,
      hSteps', hPulled⟩
  · rw [hNone, hNone']
    exact ⟨rfl, mirrors_atEnd hAimed.root⟩
  · rw [hClamp, hClamp']
    have hAttempt :=
      @mirrors_attempt ⟨(editor.aim intent).document, pulled⟩
        ⟨(other.aim intent').document, pulled'⟩
        (by rw [document_aim]; exact hSound)
        (by rw [document_aim]; exact hSound')
        settings ⟨hAimed.content, hPulled⟩ steps hSteps
        hSteps' intent intent'
        (by rw [document_aim, document_aim]; exact hIntents)
    exact ⟨Document.focus_of_mirrors hAttempt.root
      hAttempt.caret, hAttempt⟩

/-
  Identities never influence content.  Of two documents that
  are reached by editing and have the same content, with
  carets at the same place, mirrored intents make documents
  that have the same content and the same text, with carets
  at the same place again, and the answers are equal.
-/
theorem apply_lockstep
    (settings : Settings)
    (hReachable : editor.document.Reachable)
    (hReachable' : other.document.Reachable)
    (hMirrors : editor.Mirrors other)
    {intent intent' : Intent}
    (hIntents :
      Intent.Mirrors editor.document other.document intent
        intent') :
    (editor.apply settings intent).2 =
        (other.apply settings intent').2 ∧
      (editor.apply settings intent).1.Mirrors
        (other.apply settings intent').1 ∧
      (editor.apply settings intent).1.document.toText =
        (other.apply settings intent').1.document.toText := by
  rcases mirrors_apply settings hReachable.sound
      hReachable'.sound hMirrors hIntents with
    ⟨hFocus, hApplied⟩
  exact ⟨hFocus, hApplied, toText_of_content hApplied.root⟩

/-
  Leaving a fraction from its numerator, in readings of one
  text that have given it different identities.
-/
theorem lockstep_of_other_identities :
    ∃ editor other : Editor,
      Row.ids editor.document.root = [0] ∧
        Row.ids other.document.root = [7] ∧
        editor.Mirrors other ∧
        (editor.apply .standard (.leave 0)).2 =
            .continuation ∧
        (editor.apply .standard (.leave 0)).2 =
          (other.apply .standard (.leave 7)).2 ∧
        (editor.apply .standard (.leave 0)).1.Mirrors
          (other.apply .standard (.leave 7)).1 ∧
        (editor.apply .standard (.leave 0)).1.document.toText =
          (other.apply .standard
            (.leave 7)).1.document.toText := by
  let text := "\\frac\x7ba\x7d\x7bb\x7d".toList
  let editor : Editor :=
    ⟨.ofTextFrom 0 text, ⟨.slot 0 .numerator, 0, 1, false⟩⟩
  let other : Editor :=
    ⟨.ofTextFrom 7 text, ⟨.slot 7 .numerator, 0, 1, false⟩⟩
  have hMirrors : editor.Mirrors other :=
    ⟨by decide +kernel, by decide +kernel, rfl, rfl, rfl⟩
  have hIntents :
      Intent.Mirrors editor.document other.document
        (.leave 0) (.leave 7) :=
    .leave (by decide +kernel)
  exact ⟨editor, other, by decide +kernel, by decide +kernel,
    hMirrors, by decide +kernel,
    apply_lockstep .standard (.read 0 text) (.read 7 text)
      hMirrors hIntents⟩

------------------------------------------------------------
-- Runs in Lockstep
------------------------------------------------------------

/- Whatever a key stands for names no identity. -/
theorem mirrors_of_ofKey?
    {trigger : Char}
    {key : Key}
    {intent : Intent}
    (hKey : Intent.ofKey? trigger key = some intent)
    (document other : Document) :
    Intent.Mirrors document other intent intent := by
  cases key with
  | tab =>
      rcases Option.some.inj hKey with rfl
      exact .forward
  | backspace =>
      rcases Option.some.inj hKey with rfl
      exact .backspace
  | char c =>
      rw [Intent.ofKey?] at hKey
      split at hKey
      · rcases Option.some.inj hKey with rfl
        exact .trigger
      · rcases Option.some.inj hKey with rfl
        exact .type c
  | other => cases hKey

/-
  The same keys do the same to documents that differ in
  their identities only.
-/
theorem run_lockstep
    (settings : Settings)
    (keys : List Key)
    (hReachable : editor.document.Reachable)
    (hReachable' : other.document.Reachable)
    (hMirrors : editor.Mirrors other) :
    (editor.run settings
        (keys.filterMap
          (Intent.ofKey? settings.trigger))).Mirrors
      (other.run settings
        (keys.filterMap
          (Intent.ofKey? settings.trigger))) := by
  induction keys generalizing editor other with
  | nil => exact hMirrors
  | cons key keys ih =>
      rw [List.filterMap_cons]
      cases hKey : Intent.ofKey? settings.trigger key with
      | none => exact ih hReachable hReachable' hMirrors
      | some intent =>
          have hIntents :=
            mirrors_of_ofKey? hKey editor.document
              other.document
          have hApplied :=
            (mirrors_apply settings hReachable.sound
              hReachable'.sound hMirrors hIntents).2
          exact ih
            (hReachable.apply settings editor.caret intent)
            (hReachable'.apply settings other.caret intent)
            hApplied

end Editor

end FormulaEditor
