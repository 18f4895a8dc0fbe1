import FormulaEditor.Proofs.Editing.GapBuffer

/-
  This file proves when editing leaves two runs next to each
  other: exactly when a character is typed on a continuation
  that stands right after a run.

  Key definitions include:
    * `Editor.typesAfterRun`
    * `Request`
    * `Document.answerAll`

  Key theorems include:
    * `Document.Edits.joined`
    * `Editor.joined_type_iff`
    * `Editor.joined_apply_iff`
    * `Document.joined_throughout_iff`
-/

namespace FormulaEditor

------------------------------------------------------------
-- What Edits Join
------------------------------------------------------------

/- A row of a construct does not show in the row above. -/
theorem Row.isJoined_of_node
    {ι : Type}
    {left right : Row ι}
    {slot : Slot}
    {id : ι}
    {below below' other : Row ι}
    (hJoined :
      IsJoined (left ++ slot.node id below other :: right)) :
    IsJoined (left ++ slot.node id below' other :: right) := by
  have hNode :
      ∀ row : Row ι,
        (slot.node id row other).isRun = false := by
    intro row
    rcases slot with ⟨kind, _ | _⟩ <;> rfl
  rcases List.reverse_surjective left with ⟨left, rfl⟩
  simpa [hNode] using hJoined

/-
  Nothing that is added has runs that meet, in any row, or
  is a run itself.
-/
def AllJoined
    (adds : List (Node Unit)) :
    Prop :=
  ∀ node ∈ adds, node.isRun = false ∧
    ∀ slot below, node.region? slot = some below →
      below.Everywhere Row.IsJoined

namespace Document

variable {adds : List (Node Unit)} {document changed : Document}

/- An edit that adds no run leaves no two runs that meet. -/
theorem Edit.joined
    (hAdds : AllJoined adds)
    (hEdit : Edit adds document changed)
    (hJoined : document.root.Everywhere Row.IsJoined) :
    changed.root.Everywhere Row.IsJoined := by
  cases hEdit with
  | later => exact hJoined
  | @rewrite steps row new root added
      hAt hReplace hAdded hEdited =>
      refine Row.Everywhere.replaceAt?
        (fun _ _ _ _ _ _ _ h => Row.isJoined_of_node h)
        hJoined ?_ hReplace
      refine hEdited.everywhere ?_ (hJoined.at? hAt)
        (hEdited.joined ?_ (hJoined steps row hAt))
      · intro node hMem slot below hRegion start
        exact Row.everywhere_isJoined_number
          ((hAdds node (hAdded node hMem)).2 slot below
            hRegion)
          start
      · intro node hMem
        rcases List.getElem?_of_mem hMem with ⟨index, hNode⟩
        rcases Row.exists_of_getElem?_number hNode with
          ⟨_, inner, hInner, rfl⟩
        rw [isRun_number]
        exact (hAdds inner
          (hAdded inner (List.mem_of_getElem? hInner))).1

/- So do any number of edits. -/
theorem Edits.joined
    (hAdds : AllJoined adds)
    (hEdits : Edits adds document changed)
    (hJoined : document.root.Everywhere Row.IsJoined) :
    changed.root.Everywhere Row.IsJoined := by
  induction hEdits with
  | refl => exact hJoined
  | tail _ hEdit ih => exact hEdit.joined hAdds ih

/- No two runs meet in a document that has been read. -/
theorem joined_ofTextFrom
    (next : Identity)
    (s : Text) :
    (ofTextFrom next s).root.Everywhere Row.IsJoined :=
  Row.everywhere_isJoined_number
    (Row.everywhere_isJoined_ofText s) next

end Document

/- Only typing adds a run. -/
theorem Intent.allJoined_additions
    (settings : Settings)
    {intent : Intent}
    (hOther : ∀ c, intent ≠ .type c) :
    AllJoined (intent.additions settings) := by
  refine Intent.forall_mem_additions ?_ ?_ ?_ ?_
  · refine ⟨rfl, fun slot below hRegion => ?_⟩
    rw [Node.eq_nil_of_region?_emptyFraction hRegion,
      ← Row.ofText_nil]
    exact Row.everywhere_isJoined_ofText []
  · refine ⟨rfl, fun slot below hRegion => ?_⟩
    rcases LimitTemplate.eq_ofText_of_region? hRegion with
      ⟨s, rfl⟩
    exact Row.everywhere_isJoined_ofText s
  · exact ⟨rfl, fun slot below hRegion => nomatch hRegion⟩
  · intro c hType
    exact absurd hType (hOther c)

namespace Editor

------------------------------------------------------------
-- Typing After Runs
------------------------------------------------------------

/-
  Whether an intent is to type on a continuation that stands
  right after a run.
-/
def typesAfterRun
    (editor : Editor) :
    Intent → Bool
  | .type _ =>
      match editor.document.clamp? editor.caret with
      | none => false
      | some caret =>
          match Editor.cursor { editor with caret } with
          | .error _ => false
          | .ok cursor => cursor.isAfterRun
  | _ => false

/-
  Typing leaves two runs next to each other only where there
  was a continuation right after a run.
-/
theorem joined_type_iff
    {editor : Editor}
    (hJoined : editor.document.root.Everywhere Row.IsJoined)
    {cursor : Cursor Identity}
    (hCursor : editor.cursor = .ok cursor)
    (c : Char) :
    (editor.type c).editor.document.root.Everywhere
        Row.IsJoined ↔
      cursor.isAfterRun = false := by
  rcases exists_row_of_cursor hCursor with
    ⟨row, hRegion, hRow⟩
  rcases Document.region?_eq_some_iff.mp hRegion with
    ⟨steps, hSteps, hAt⟩
  rcases exists_put? hRegion (cursor.type c) with
    ⟨changed, hPut, steps', hSteps', hReplace⟩
  rw [hSteps] at hSteps'
  rcases Option.some.inj hSteps' with rfl
  have hTyped : (editor.type c).editor.document = changed := by
    rw [type, hCursor]
    simp only [put, hPut, Outcome.done]
  have hCursorJoined : Row.IsJoined cursor.row := by
    rcases hRow with hRow | hRow
    · rw [hRow]
      exact hJoined steps row hAt
    · rw [hRow]
      exact Row.isJoined_nil
  rw [hTyped, ← Cursor.isJoined_type_iff hCursorJoined c]
  constructor
  · intro hAll
    exact hAll steps _ (Row.at?_replaceAt? hReplace)
  · intro hNew
    refine Row.Everywhere.replaceAt?
      (fun _ _ _ _ _ _ _ h => Row.isJoined_of_node h)
      hJoined ?_ hReplace
    have hEdited :
        Row.Edited (Row.number 0 ([.text [c]] : Row Unit))
          row (cursor.type c).row :=
      (cursor.edited_type c).of_emptied hRow
    refine hEdited.everywhere ?_ (hJoined.at? hAt) hNew
    intro node hMem slot below hSlot
    rw [List.mem_singleton.mp hMem] at hSlot
    cases hSlot

/- Other intents never leave two runs next to each other. -/
theorem joined_apply_of_ne_type
    (settings : Settings)
    {editor : Editor}
    (hJoined : editor.document.root.Everywhere Row.IsJoined)
    {intent : Intent}
    (hOther : ∀ c, intent ≠ .type c) :
    (editor.apply settings
        intent).1.document.root.Everywhere Row.IsJoined :=
  (edits_apply settings editor intent).joined
    (Intent.allJoined_additions settings hOther) hJoined

/- Only typing can be typing after a run. -/
theorem typesAfterRun_of_ne_type
    (editor : Editor)
    {intent : Intent}
    (hOther : ∀ c, intent ≠ .type c) :
    editor.typesAfterRun intent = false := by
  unfold typesAfterRun
  split
  · next c => exact absurd rfl (hOther c)
  · rfl

/-
  An intent keeps all rows joined unless it is to type on a
  continuation that stands right after a run, and then it
  does not.
-/
theorem joined_apply_iff
    (settings : Settings)
    {editor : Editor}
    (hJoined : editor.document.root.Everywhere Row.IsJoined)
    (intent : Intent) :
    (editor.apply settings
          intent).1.document.root.Everywhere Row.IsJoined ↔
      editor.typesAfterRun intent = false := by
  by_cases hType : ∃ c, intent = .type c
  · rcases hType with ⟨c, rfl⟩
    cases hClamp : editor.document.clamp? editor.caret with
    | none =>
        simp only [apply, aim, typesAfterRun, hClamp]
        exact iff_of_true hJoined trivial
    | some caret =>
        simp only [apply, aim, attempt, typesAfterRun, hClamp]
        cases hCursor :
            Editor.cursor ⟨editor.document, caret⟩ with
        | error refusal =>
            rw [type, hCursor]
            exact iff_of_true hJoined rfl
        | ok cursor =>
            exact @joined_type_iff ⟨editor.document, caret⟩
              hJoined cursor hCursor c
  · have hOther : ∀ c, intent ≠ .type c :=
      not_exists.mp hType
    exact iff_of_true
      (joined_apply_of_ne_type settings hJoined hOther)
      (typesAfterRun_of_ne_type editor hOther)

end Editor

------------------------------------------------------------
-- Sequences of Requests
------------------------------------------------------------

/-
  A request: what is asked of a document, where the caret
  has been put, and the settings at the time.
-/
structure Request where
  settings : Settings
  caret : Caret
  intent : Intent

namespace Document

/- What a request makes of a document. -/
def answer
    (document : Document)
    (request : Request) :
    Document :=
  (Editor.apply request.settings ⟨document, request.caret⟩
    request.intent).1.document

/- What requests make of a document one after the other. -/
def answerAll
    (document : Document)
    (requests : List Request) :
    Document :=
  requests.foldl answer document

/- The last of several requests is answered last. -/
theorem answerAll_concat
    (document : Document)
    (done : List Request)
    (request : Request) :
    document.answerAll (done ++ [request]) =
      (document.answerAll done).answer request := by
  rw [answerAll, List.foldl_append]
  rfl

/-
  A document that has been read has joined rows for as long
  as it is edited if, and only if, nothing is ever typed on
  a continuation that stands right after a run.
-/
theorem joined_throughout_iff
    (next : Identity)
    (s : Text)
    (requests : List Request) :
    (∀ done, done <+: requests →
      ((ofTextFrom next s).answerAll
          done).root.Everywhere Row.IsJoined) ↔
    ∀ done request, done ++ [request] <+: requests →
      Editor.typesAfterRun
          ⟨(ofTextFrom next s).answerAll done,
            request.caret⟩
          request.intent =
        false := by
  constructor
  · intro hJoined done request hDone
    have hBefore := hJoined done
      ((List.prefix_append done [request]).trans hDone)
    have hAfter := hJoined (done ++ [request]) hDone
    rw [answerAll_concat] at hAfter
    exact (Editor.joined_apply_iff request.settings
      hBefore request.intent).mp hAfter
  · intro hNever done hDone
    -- The last request is the only one that may go wrong.
    induction done using List.reverseRecOn with
    | nil => exact joined_ofTextFrom next s
    | append_singleton done request ih =>
        have hBefore :=
          ih ((List.prefix_append done [request]).trans hDone)
        rw [answerAll_concat]
        exact (Editor.joined_apply_iff request.settings
          hBefore request.intent).mpr
          (hNever done request hDone)

/-
  When a fraction after a run has been left and deleted, the
  continuation behind it stands right after the run, and a
  character that is typed there is not joined with it.
-/
theorem not_joined_after_deletion :
    ¬ ((ofText "a\\frac\x7b\x7d\x7b\x7d".toList).answerAll
        [⟨.standard, .start, .leave 0⟩,
          ⟨.standard, ⟨.slot 0 .numerator, 0, 0, false⟩,
            .backspace⟩,
          ⟨.standard, ⟨.root, 1, 0, false⟩,
            .type 'b'⟩]).root.Everywhere
        Row.IsJoined := by
  intro hJoined
  have hRow :
      Row.ofText "a\\frac\x7b\x7d\x7b\x7d".toList =
        [.text ['a'], .construct .fraction () [] []] := by
    have hFirst :
        firstSpelled? "a\\frac\x7b\x7d\x7b\x7d".toList =
          some (['a'], ⟨.fraction, [], [], []⟩) :=
      rfl
    rw [Row.ofText_of_some hFirst]
    simp only
    rw [show Text.trim [] = [] from rfl, Row.ofText_nil]
    rfl
  have hHere := (Row.everywhere_iff.mp hJoined).1
  rw [ofText, ofTextFrom, hRow] at hHere
  exact absurd hHere (by decide)

end Document

end FormulaEditor
