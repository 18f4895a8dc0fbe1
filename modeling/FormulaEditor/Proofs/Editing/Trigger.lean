import FormulaEditor.Proofs.Document.Shape
import FormulaEditor.Proofs.Editing.Carets

/-
  This file proves what the trigger inserts, and where: a
  limit in place of the word `lim` when the last three atoms
  before the caret are its letters, and a fraction at the
  caret otherwise.

  Key theorems include:
    * `Cursor.gap_takeLim?`
    * `Cursor.takeLim?_eq_none_iff`
    * `Editor.inserts_trigger_of_lim`
    * `Editor.inserts_trigger`
    * `Editor.apply_trigger`
-/

namespace FormulaEditor

------------------------------------------------------------
-- The Word Before a Cursor
------------------------------------------------------------

namespace Cursor

open Row

/- A text ends with what has been dropped from its end. -/
theorem dropLim?_eq_some_iff
    {s kept : Text} :
    dropLim? s = some kept ↔ s = kept ++ limWord := by
  rw [dropLim?]
  constructor
  · intro hDrop
    split at hDrop
    · next hSuffix =>
        rcases List.isSuffixOf_iff_suffix.mp hSuffix with
          ⟨lead, rfl⟩
        rcases Option.some.inj hDrop with rfl
        rw [List.length_append, Nat.add_sub_cancel,
          List.take_left]
    · cases hDrop
  · rintro rfl
    rw [if_pos (List.isSuffixOf_iff_suffix.mpr
        (List.suffix_append kept limWord)),
      List.length_append, Nat.add_sub_cancel, List.take_left]

/- What is left of a run is around the place. -/
theorem before_withRun
    {ι : Type}
    (left right : Row ι)
    (kept rest : Text) :
    (withRun left (kept ++ rest) right kept.length).before =
        cells left.reverse ++ chars kept ∧
      (withRun left (kept ++ rest) right kept.length).after =
        chars rest ++ cells right := by
  cases hRun : kept ++ rest with
  | nil =>
      rcases List.append_eq_nil_iff.mp hRun with ⟨rfl, rfl⟩
      rcases right with _ | ⟨_ | _ | _, right⟩ <;>
        simp [withRun, before, after]
  | cons c run =>
      simp only [withRun, before, after]
      rw [← hRun, List.take_left, List.drop_left]
      exact ⟨rfl, rfl⟩

/- The word that is removed was right before the place. -/
theorem before_takeLim?
    {ι : Type}
    {cursor taken : Cursor ι}
    (hTake : cursor.takeLim? = some taken) :
    cursor.before = taken.before ++ chars limWord ∧
      cursor.after = taken.after := by
  unfold takeLim? at hTake
  split at hTake
  · next left run right offset =>
      rcases Option.map_eq_some_iff.mp hTake with
        ⟨kept, hDrop, rfl⟩
      rcases before_withRun left right kept
          (run.drop offset) with
        ⟨hBefore, hAfter⟩
      rw [hBefore, hAfter, List.append_assoc, ← chars_append,
        ← dropLim?_eq_some_iff.mp hDrop]
      exact ⟨rfl, rfl⟩
  · next run left right offset hNone =>
      rcases Option.map_eq_some_iff.mp hTake with
        ⟨kept, hDrop, rfl⟩
      rcases before_withRun left right kept [] with
        ⟨hBefore, hAfter⟩
      rw [List.append_nil] at hBefore hAfter
      rw [hBefore, hAfter, List.append_assoc, ← chars_append,
        ← dropLim?_eq_some_iff.mp hDrop]
      rcases right with _ | ⟨run' | _ | _, right⟩
      case cons.text => exact (hNone run' right rfl).elim
      all_goals simp [before, after]
  · cases hTake

/- So it is for the atoms at the place. -/
theorem gap_takeLim?
    {cursor taken : Cursor Identity}
    (hTake : cursor.takeLim? = some taken) :
    cursor.gap =
      ⟨taken.gap.before ++ chars limWord,
        taken.gap.after⟩ := by
  rcases before_takeLim? hTake with ⟨hBefore, hAfter⟩
  rw [gap, hBefore, hAfter, List.filter_append,
    filter_isAtom_chars]
  rfl

/- The last atom of a row is no character after a construct. -/
theorem ne_char_of_append_eq_atoms
    {left lead : Row Identity}
    (hStarts : startsInRun left = false)
    (hSettled :
      ∀ node, left.head? = some node →
        node.isContinuation = false)
    (c : Char) :
    lead ++ [.text [c]] ≠ atoms left.reverse := by
  intro hLead
  cases left with
  | nil => simp [atoms] at hLead
  | cons node left =>
      cases node with
      | text run => cases hStarts
      | continuation id content => cases hSettled _ rfl
      | construct kind id first second =>
          have hAtoms :
              atoms (.construct kind id first second ::
                  left).reverse =
                atoms left.reverse ++
                  [.construct kind id first second] := by
            simp [atoms, Node.isAtom]
          rw [hAtoms] at hLead
          have hLast := (List.append_inj' hLead rfl).2
          cases hLast

/-
  Characters that end a row are characters of the run that
  ends it, if a construct or nothing stands before that run.
-/
theorem suffix_of_chars_suffix
    {left : Row Identity}
    {run word : Text}
    (hStarts : startsInRun left = false)
    (hSettled :
      ∀ node, left.head? = some node →
        node.isContinuation = false)
    (hSuffix :
      chars word <:+ atoms left.reverse ++ chars run) :
    word <:+ run := by
  induction run using List.reverseRecOn generalizing word with
  | nil =>
      rw [chars_nil, List.append_nil] at hSuffix
      rcases List.eq_nil_or_concat word with rfl |
        ⟨word, c, rfl⟩
      · exact List.suffix_refl []
      · rcases hSuffix with ⟨lead, hLead⟩
        rw [List.concat_eq_append, chars_append,
          ← List.append_assoc] at hLead
        exact absurd hLead
          (ne_char_of_append_eq_atoms hStarts hSettled c)
  | append_singleton run d ih =>
      rcases List.eq_nil_or_concat word with rfl |
        ⟨word, c, rfl⟩
      · exact List.nil_suffix
      · rcases hSuffix with ⟨lead, hLead⟩
        rw [List.concat_eq_append, chars_append, chars_append,
          ← List.append_assoc, ← List.append_assoc] at hLead
        rcases List.append_inj' hLead rfl with
          ⟨hBefore, hLast⟩
        rcases List.cons.inj hLast with ⟨hChar, _⟩
        rcases List.cons.inj (Node.text.inj hChar) with
          ⟨rfl, _⟩
        rcases ih ⟨lead, hBefore⟩ with ⟨kept, rfl⟩
        exact ⟨kept, by simp⟩

/- A text that ends in the word does have it dropped. -/
theorem dropLim?_ne_none
    {s : Text}
    (hSuffix : limWord <:+ s) :
    dropLim? s ≠ none := by
  rcases hSuffix with ⟨kept, rfl⟩
  rw [dropLim?_eq_some_iff.mpr rfl]
  exact Option.some_ne_none kept

section Taking

variable {left right : Row Identity} {offset : Nat}
variable
  (hSettled : ∀ node ∈ left, node.isContinuation = false)
include hSettled

/- A word before a place in a run is removed from the run. -/
theorem takeLim?_ne_none_of_text
    {run : Text}
    (hStarts : startsInRun left = false)
    (hSuffix :
      chars limWord <:+
        (gap ⟨left, .text run :: right, offset⟩).before) :
    takeLim? ⟨left, .text run :: right, offset⟩ ≠ none := by
  have hWord : limWord <:+ run.take offset := by
    refine suffix_of_chars_suffix hStarts
      (fun node hHead =>
        hSettled node (List.mem_of_head? hHead)) ?_
    simpa [gap, before, atoms, List.filter_append] using hSuffix
  intro hNone
  exact dropLim?_ne_none hWord (Option.map_eq_none_iff.mp hNone)

/- A word right before a place is removed from the run there. -/
theorem takeLim?_ne_none_of_ne_text
    (hJoined : IsJoined left)
    (hRight : ∀ run rest, right = .text run :: rest → False)
    (hSuffix :
      chars limWord <:+ (gap ⟨left, right, offset⟩).before) :
    takeLim? ⟨left, right, offset⟩ ≠ none := by
  have hBefore :
      before ⟨left, right, offset⟩ = cells left.reverse := by
    rw [before]
    split
    · next run rest hRun => exact (hRight run rest hRun).elim
    · rfl
  rw [gap, hBefore] at hSuffix
  rcases left with _ |
    ⟨run | ⟨kind, id, first, second⟩ | _, left⟩
  case nil =>
    exact absurd (List.suffix_nil.mp hSuffix) (by decide)
  case cons.text =>
    rw [isJoined_cons] at hJoined
    have hWord : limWord <:+ run := by
      refine suffix_of_chars_suffix (hJoined.1 rfl)
        (fun node hHead =>
          hSettled node (List.mem_cons_of_mem _
            (List.mem_of_head? hHead))) ?_
      simpa [atoms, List.filter_append] using hSuffix
    intro hNone
    rw [takeLim?] at hNone
    · exact dropLim?_ne_none hWord
        (Option.map_eq_none_iff.mp hNone)
    · exact hRight
  case cons.construct =>
    have hWord : limWord <:+ [] := by
      refine @suffix_of_chars_suffix
        (.construct kind id first second :: left) [] limWord
        rfl
        (fun node hHead =>
          hSettled node (List.mem_of_head? hHead)) ?_
      simpa [atoms] using hSuffix
    exact absurd (List.suffix_nil.mp hWord) (by decide)
  case cons.continuation =>
    cases hSettled _ (List.mem_cons_self ..)

end Taking

/-
  The word is removed exactly where its letters are the last
  atoms before the place, if no two runs of the row meet and
  no continuation stands before the place.
-/
theorem takeLim?_eq_none_iff
    {cursor : Cursor Identity}
    (hJoined : IsJoined cursor.row)
    (hSettled :
      ∀ node ∈ cursor.left, node.isContinuation = false) :
    cursor.takeLim? = none ↔
      ¬ chars limWord <:+ cursor.gap.before := by
  constructor
  · intro hNone hSuffix
    rcases cursor with ⟨left, right, offset⟩
    rw [row, isJoined_reverse_append] at hJoined
    rcases hJoined with ⟨hLeft, _, hMeet⟩
    rcases right with _ | ⟨run | _ | _, right⟩
    case cons.text =>
      have hStarts : startsInRun left = false := by
        cases hRun : startsInRun left with
        | false => rfl
        | true => cases hMeet hRun
      exact takeLim?_ne_none_of_text hSettled hStarts hSuffix
        hNone
    all_goals
      refine takeLim?_ne_none_of_ne_text hSettled hLeft ?_
        hSuffix hNone
      intro run rest hRight
      cases hRight
  · intro hNone
    cases hTake : cursor.takeLim? with
    | none => rfl
    | some taken =>
        rw [gap_takeLim? hTake] at hNone
        exact (hNone (List.suffix_append _ _)).elim

/-
  No continuation stands before a place if the only one in
  the row is at the place.
-/
theorem settled_left
    {cursor : Cursor Identity}
    (hAlone :
      ∀ index id content,
        cursor.row[index]? = some (.continuation id content) →
          index = cursor.index) :
    ∀ node ∈ cursor.left, node.isContinuation = false := by
  intro node hMem
  rw [← List.mem_reverse] at hMem
  rcases List.getElem?_of_mem hMem with ⟨index, hNode⟩
  rcases List.getElem?_eq_some_iff.mp hNode with ⟨hLess, _⟩
  cases node with
  | text => rfl
  | construct => rfl
  | continuation id content =>
      have hHere :
          cursor.row[index]? =
            some (.continuation id content) := by
        rw [row, List.getElem?_append_left hLess, hNode]
      have hIndex := hAlone index id content hHere
      rw [List.length_reverse] at hLess
      exact absurd hIndex (Nat.ne_of_lt hLess)

end Cursor

------------------------------------------------------------
-- The Trigger
------------------------------------------------------------

namespace Editor

/-
  The caret is in a slot of a construct that was inserted, if
  that slot starts without a continuation.
-/
theorem Inserts.focus
    {document : Document}
    {region : Region}
    {gap : Gap}
    {content : Node Unit}
    {first : Slot}
    {selected : Bool}
    {changed : Editor}
    (hInserts :
      Inserts document region gap content first selected
        changed)
    (hSettled :
      ∀ below, content.region? first = some below →
        below.Throughout (·.isContinuation = false)) :
    changed.focus = .slot first := by
  rcases hInserts.inside with ⟨below, hBelow, hInside⟩
  rcases exists_of_region?_number hBelow with
    ⟨start, inner, hInner, rfl⟩
  have hNumbered :
      (Row.number start inner).Throughout
        (·.isContinuation = false) :=
    Row.throughout_number
      (fun {node} hSettled _ => by cases node <;> exact hSettled)
      (hSettled inner hInner) start
  rw [Editor.focus, Document.focus, hInside, hInserts.caret]
  simp only
  split
  · next id text hNode =>
      cases (Row.throughout_iff.mp hNumbered _
        (List.mem_of_getElem? hNode)).1
  · rfl

section Trigger

variable {editor : Editor} {row : Row Identity}
variable {cursor : Cursor Identity}

/-
  If the word is before the caret, a limit is inserted where
  the word was.
-/
theorem inserts_trigger_of_lim
    (hSound : editor.document.Sound)
    (hRegion :
      editor.document.region? editor.caret.region = some row)
    (hSelected : editor.caret.selected = false)
    (hCursor : editor.cursor = .ok cursor)
    {taken : Cursor Identity}
    (hTake : cursor.takeLim? = some taken)
    (limit : LimitTemplate) :
    Inserts editor.document editor.caret.region taken.gap
      limit.node .subscript true
      (editor.trigger limit).editor := by
  rcases exists_put? hRegion taken with
    ⟨document, hPut, hReplaces⟩
  have hTaken :
      editor.takeLim? =
        some
          ⟨document,
            ⟨editor.caret.region, taken.index, taken.offset,
              false⟩⟩ := by
    rw [takeLim?]
    simp only [hSelected, Bool.false_eq_true, if_false,
      hCursor, hTake, hPut]
  have hBetween : document.Sound :=
    (@edits_takeLim? [] _ _ hTaken).sound (by simp) hSound
  have hNext : document.next = editor.document.next := by
    rcases exists_of_put? hRegion hPut with
      ⟨_, root, _, _, rfl⟩
    rfl
  have hInserts :=
    @inserts_insert
      ⟨document,
        ⟨editor.caret.region, taken.index, taken.offset,
          false⟩⟩
      hBetween taken.row (hReplaces.region? hBetween) taken
      (cursor_of_replaces hReplaces hBetween) limit.node rfl
      (isSolid_limit limit) .subscript _ rfl true
  have hTrigger :
      editor.trigger limit =
        addLimit
          ⟨document,
            ⟨editor.caret.region, taken.index, taken.offset,
              false⟩⟩
          limit := by
    rw [trigger, hTaken]
  rw [hTrigger]
  rcases hInserts with
    ⟨_, ⟨new, hOnly, hAtoms⟩, hCaret, hInside⟩
  simp only [hNext] at hAtoms hCaret hInside
  refine ⟨?_, ⟨new, hReplaces.trans hBetween hOnly, hAtoms⟩,
    hCaret, hInside⟩
  intro id hMem
  exact not_mem_ids_of_mem_number hSound hMem

/- The state that a limit is inserted with. -/
theorem focus_of_inserts_limit
    {document : Document}
    {region : Region}
    {gap : Gap}
    {limit : LimitTemplate}
    {selected : Bool}
    {changed : Editor}
    (hInserts :
      Inserts document region gap limit.node .subscript
        selected changed) :
    changed.focus = .slot .subscript := by
  refine hInserts.focus ?_
  intro below hBelow
  rcases LimitTemplate.eq_ofText_of_region? hBelow with
    ⟨s, rfl⟩
  exact Row.settled_ofText s

/- The state that a fraction is inserted with. -/
theorem focus_of_inserts_fraction
    {document : Document}
    {region : Region}
    {gap : Gap}
    {selected : Bool}
    {changed : Editor}
    (hInserts :
      Inserts document region gap (.emptyFraction ())
        .numerator selected changed) :
    changed.focus = .slot .numerator := by
  refine hInserts.focus ?_
  intro below hBelow
  rw [Node.eq_nil_of_region?_emptyFraction hBelow]
  exact Row.throughout_nil

/- Otherwise the trigger stands for a fraction. -/
theorem trigger_of_not_lim
    (hCursor : editor.cursor = .ok cursor)
    (hNone :
      editor.caret.selected = false → cursor.takeLim? = none)
    (limit : LimitTemplate) :
    editor.trigger limit = editor.addFraction := by
  have hNotTaken : editor.takeLim? = none := by
    rw [takeLim?]
    split
    · rfl
    · next hSelected =>
        simp only [hCursor,
          hNone (Bool.eq_false_iff.mpr hSelected)]
  rw [trigger, hNotTaken]

/- So a fraction is inserted at the caret. -/
theorem inserts_trigger_of_not_lim
    (hSound : editor.document.Sound)
    (hRegion :
      editor.document.region? editor.caret.region = some row)
    (hCursor : editor.cursor = .ok cursor)
    (hNone :
      editor.caret.selected = false → cursor.takeLim? = none)
    (limit : LimitTemplate) :
    Inserts editor.document editor.caret.region cursor.gap
      (.emptyFraction ()) .numerator false
      (editor.trigger limit).editor := by
  rw [trigger_of_not_lim hCursor hNone]
  exact inserts_insert hSound hRegion hCursor rfl
    isSolid_emptyFraction rfl false

/-
  What the trigger inserts in a joined row that has no
  continuation but under the caret.
-/
theorem inserts_trigger
    (hSound : editor.document.Sound)
    (hRegion :
      editor.document.region? editor.caret.region = some row)
    (hPlaced : editor.caret.IsPlaced row)
    (hSelected : editor.caret.selected = false)
    (hJoined : row.IsJoined)
    (hAlone :
      ∀ index id content,
        row[index]? = some (.continuation id content) →
          index = editor.caret.index)
    (limit : LimitTemplate) :
    (∀ before,
      (row.gap editor.caret).before =
          before ++ Row.chars Cursor.limWord →
        Inserts editor.document editor.caret.region
          ⟨before, (row.gap editor.caret).after⟩ limit.node
          .subscript true (editor.trigger limit).editor) ∧
    (¬ Row.chars Cursor.limWord <:+
          (row.gap editor.caret).before →
      Inserts editor.document editor.caret.region
        (row.gap editor.caret) (.emptyFraction ()) .numerator
        false (editor.trigger limit).editor) := by
  rcases Document.region?_eq_some_iff.mp hRegion with
    ⟨steps, _, hAt⟩
  rcases Row.exists_cursor? (hSound.solid steps row hAt)
      hPlaced with
    ⟨cursor, hFound, _⟩
  have hCursor := cursor_of_cursor? hRegion hSelected hFound
  rw [gap_eq_of_cursor hRegion hCursor]
  rcases Row.cursor?_eq_some_iff.mp hFound with
    ⟨rfl, hIndex, _⟩
  rw [← hIndex] at hAlone
  have hNever :=
    Cursor.takeLim?_eq_none_iff hJoined
      (Cursor.settled_left hAlone)
  refine ⟨?_, ?_⟩
  · intro before hWord
    cases hTake : cursor.takeLim? with
    | none =>
        have hNot := hNever.mp hTake
        rw [hWord] at hNot
        exact absurd (List.suffix_append _ _) hNot
    | some taken =>
        have hInserts :=
          inserts_trigger_of_lim hSound hRegion hSelected
            hCursor hTake limit
        have hTaken := Cursor.gap_takeLim? hTake
        rw [hTaken] at hWord ⊢
        rw [← List.append_cancel_right hWord]
        exact hInserts
  · intro hNot
    exact inserts_trigger_of_not_lim hSound hRegion hCursor
      (fun _ => hNever.mpr hNot) limit

/-
  What is left of a selected row is the fraction that the
  trigger inserts there.
-/
theorem replaces_trigger_of_selected
    (hRegion :
      editor.document.region? editor.caret.region = some row)
    (hSelected : editor.caret.selected = true)
    (limit : LimitTemplate) :
    editor.document.Replaces editor.caret.region
      [.emptyFraction editor.document.next]
      (editor.trigger limit).editor.document := by
  have hEmpty := cursor_of_selected hRegion hSelected
  rcases replaces_insert hRegion hEmpty (.emptyFraction ())
      .numerator false with
    ⟨changed, hInsert, hReplaces⟩
  rw [trigger_of_not_lim hEmpty (fun _ => rfl), addFraction,
    hInsert]
  exact hReplaces

end Trigger

/-
  What the trigger inserts, wherever the caret has been put
  in a document that is reached by editing.  In a joined row
  with no continuation but under the caret, a limit takes the
  place of the letters of the word if they are the last three
  atoms before the caret, and a fraction is inserted at the
  caret if they are not.  If the row is selected, a fraction
  takes the place of all that it holds.
-/
theorem apply_trigger
    (settings : Settings)
    {document : Document}
    (hReachable : document.Reachable)
    {caret placed : Caret}
    {row : Row Identity}
    (hRegion : document.region? caret.region = some row)
    (hClamp : caret.clampTo row = placed)
    {after : Editor}
    {focus : Focus}
    (hApply :
      apply settings ⟨document, caret⟩ .trigger =
        (after, focus)) :
    (placed.selected = false →
      row.IsJoined →
      (∀ index id content,
        row[index]? = some (.continuation id content) →
          index = placed.index) →
      (∀ before,
        (row.gap placed).before =
            before ++ Row.chars Cursor.limWord →
          Inserts document caret.region
              ⟨before, (row.gap placed).after⟩
              settings.limit.node .subscript true after ∧
            focus = .slot .subscript) ∧
      (¬ Row.chars Cursor.limWord <:+
            (row.gap placed).before →
        Inserts document caret.region (row.gap placed)
            (.emptyFraction ()) .numerator false after ∧
          focus = .slot .numerator)) ∧
    (placed.selected = true →
      document.Replaces caret.region
          [.emptyFraction document.next] after.document ∧
        Inserts document caret.region .empty
          (.emptyFraction ()) .numerator false after ∧
        focus = .slot .numerator) := by
  have hSound := hReachable.sound
  have hPlaced := Caret.isPlaced_clampTo caret row
  have hFirst :=
    @fst_apply settings document caret row hRegion .trigger
      rfl
  have hFocus := snd_apply settings ⟨document, caret⟩ .trigger
  rw [← Caret.region_clampTo caret row] at hRegion ⊢
  rw [hClamp] at hRegion hPlaced hFirst ⊢
  rw [hApply] at hFirst hFocus
  have hAfter :
      after =
        (trigger ⟨document, placed⟩ settings.limit).editor :=
    hFirst
  have hState : focus = after.focus := hFocus
  refine ⟨?_, ?_⟩
  · intro hSelected hJoined hAlone
    rcases @inserts_trigger ⟨document, placed⟩ row hSound
        hRegion hPlaced hSelected hJoined hAlone
        settings.limit with
      ⟨hLimit, hFraction⟩
    rw [← hAfter] at hLimit hFraction
    refine ⟨?_, ?_⟩
    · intro before hWord
      have hInserts := hLimit before hWord
      rw [hState]
      exact ⟨hInserts, focus_of_inserts_limit hInserts⟩
    · intro hNot
      have hInserts := hFraction hNot
      rw [hState]
      exact ⟨hInserts, focus_of_inserts_fraction hInserts⟩
  · intro hSelected
    have hInserts :=
      @inserts_trigger_of_not_lim ⟨document, placed⟩ row _
        hSound hRegion (cursor_of_selected hRegion hSelected)
        (fun _ => rfl) settings.limit
    have hReplaces :=
      @replaces_trigger_of_selected ⟨document, placed⟩ row
        hRegion hSelected settings.limit
    rw [← hAfter] at hInserts hReplaces
    rw [hState]
    exact ⟨hReplaces, hInserts,
      focus_of_inserts_fraction hInserts⟩

/-
  The word ends in the run before the caret, which is at a
  fraction.
-/
theorem inserts_limit_before_fraction :
    ∃ after focus,
      apply .standard
          ⟨.ofText "alim\\frac\x7b\x7d\x7b\x7d".toList,
            ⟨.root, 1, 0, false⟩⟩
          .trigger =
        (after, focus) ∧
      Inserts
          (.ofText "alim\\frac\x7b\x7d\x7b\x7d".toList)
          .root
          ⟨[.text ['a']], [.construct .fraction 0 [] []]⟩
          Settings.standard.limit.node .subscript true
          after ∧
        focus = .slot .subscript := by
  have hRow :
      Row.ofText "alim\\frac\x7b\x7d\x7b\x7d".toList =
        [.text "alim".toList,
          .construct .fraction () [] []] := by
    have hFirst :
        firstSpelled? "alim\\frac\x7b\x7d\x7b\x7d".toList =
          some ("alim".toList, ⟨.fraction, [], [], []⟩) :=
      rfl
    rw [Row.ofText_of_some hFirst]
    simp only
    rw [show Text.trim [] = [] from rfl, Row.ofText_nil]
    rfl
  have hRegion :
      (Document.ofText
            "alim\\frac\x7b\x7d\x7b\x7d".toList).region?
          .root =
        some
          [.text "alim".toList,
            .construct .fraction 0 [] []] := by
    rw [Document.ofText, Document.ofTextFrom, hRow]
    rfl
  have hTrigger :=
    @apply_trigger .standard
      (.ofText "alim\\frac\x7b\x7d\x7b\x7d".toList)
      (.read 0 _) ⟨.root, 1, 0, false⟩
      ⟨.root, 1, 0, false⟩ _ hRegion rfl _ _
      (Prod.eta _).symm
  have hAlone :
      ∀ index id content,
        [Node.text "alim".toList,
            .construct .fraction 0 [] []][index]? =
          some (.continuation id content) →
        index = 1 := by
    intro index id content hNode
    rcases index with _ | _ | index <;> cases hNode
  exact ⟨_, _, rfl,
    (hTrigger.1 rfl (by decide) hAlone).1 [.text ['a']] rfl⟩

end Editor

end FormulaEditor
