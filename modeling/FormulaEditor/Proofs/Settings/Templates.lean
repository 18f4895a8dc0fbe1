import FormulaEditor.Proofs.Document.RoundTrip
import FormulaEditor.Proofs.Formula.Closing
import FormulaEditor.Settings.Validation

/-
  This file proves what it means that settings are accepted,
  and that the limit which accepted settings insert is read
  back from its own text.

  Key definitions include:
    * `LimitTemplate.spelling`

  Key theorems include:
    * `limitError?_eq_none_iff`
    * `Settings.error?_eq_none_iff`
    * `LimitTemplate.ofText_spelling`
    * `Settings.limit_rereads`
-/

namespace FormulaEditor

open Text

------------------------------------------------------------
-- Accepted Settings
------------------------------------------------------------

/-
  The text of a limit row is accepted if it is more than
  blanks, if its braces pair up, and if it is on one line in
  an expression.
-/
theorem limitError?_eq_none_iff
    {slot : Slot}
    {s : Text} :
    limitError? slot s = none ↔
      trim s ≠ [] ∧ isBalanced (trim s) = true ∧
        (slot = .expression →
          ∀ c ∈ trim s, isLineBreak c = false) := by
  unfold limitError?
  by_cases hEmpty : trim s = []
  · simp [hEmpty]
  · by_cases hBalanced : isBalanced (trim s) = true
    · by_cases hSlot : slot = .expression
      · simp [hEmpty, hBalanced, hSlot]
      · simp [hEmpty, hBalanced, hSlot]
    · simp [hEmpty, hBalanced]

namespace Settings

/- What settings have to be like to be accepted. -/
theorem error?_eq_none_iff
    {settings : Settings} :
    settings.error? = none ↔
      settings.debounce ≠ 0 ∧
        isPlaceholder settings.placeholder = true ∧
        isBlank settings.trigger = false ∧
        isControl settings.trigger = false ∧
        limitError? .subscript settings.limit.subscript =
          none ∧
        limitError? .expression settings.limit.expression =
          none := by
  unfold error?
  by_cases hDelay : settings.debounce = 0
  · simp [hDelay]
  · by_cases hPlaceholder :
        isPlaceholder settings.placeholder = true
    · by_cases hUnseen :
          isBlank settings.trigger = true ∨
            isControl settings.trigger = true
      · rcases hUnseen with hBlank | hControl
        · simp [hDelay, hPlaceholder, hBlank]
        · simp [hDelay, hPlaceholder, hControl]
      · rw [not_or, Bool.not_eq_true, Bool.not_eq_true]
          at hUnseen
        simp [hDelay, hPlaceholder, hUnseen]
    · simp [hDelay, hPlaceholder]

/- Settings are accepted as they are, or not at all. -/
theorem validate_eq_ok_iff
    {settings accepted : Settings} :
    settings.validate = .ok accepted ↔
      settings.error? = none ∧ accepted = settings := by
  unfold validate
  cases settings.error? with
  | none => simp [eq_comm]
  | some error => simp

end Settings

------------------------------------------------------------
-- Texts Without Placeholders
------------------------------------------------------------

/- A text has no placeholder if none of its characters is. -/
theorem placeholderCount_eq_zero_iff
    {s : Text} :
    placeholderCount s = 0 ↔
      ∀ c ∈ s, isPlaceholder c = false := by
  simp [placeholderCount, List.countP_eq_zero]

/- What is left of a text after trimming was in it. -/
theorem not_isPlaceholder_of_mem_trim
    {s : Text}
    (hNone : ∀ c ∈ s, isPlaceholder c = false) :
    ∀ c ∈ trim s, isPlaceholder c = false :=
  fun c hMem => hNone c (mem_of_mem_trim hMem)

/-
  A text that starts with something to be seen is read as
  something.
-/
theorem ofText_ne_nil
    {c : Char}
    {s : Text}
    (hBlank : isBlank c = false)
    (hPlaceholder : isPlaceholder c = false) :
    Row.ofText (c :: s) ≠ [] := by
  intro hNil
  have hVisible := (tidied_canonical (c :: s)).cleaned.visible_eq
  rw [canonical_eq_toText, hNil] at hVisible
  simp [visible, isVisible, Row.toText, hBlank, hPlaceholder]
    at hVisible

/- So is a text that is not blank and has no placeholder. -/
theorem ofText_trim_ne_nil
    {s : Text}
    (hNe : trim s ≠ [])
    (hNone : ∀ c ∈ s, isPlaceholder c = false) :
    Row.ofText (trim s) ≠ [] := by
  have hSolid := startsSolid_trim s
  have hKept := not_isPlaceholder_of_mem_trim hNone
  cases hTrim : trim s with
  | nil => exact absurd hTrim hNe
  | cons c rest =>
      rw [hTrim] at hSolid hKept
      exact ofText_ne_nil (hSolid c rfl)
        (hKept c (List.mem_cons_self ..))

/- Numbering the nodes of a row does not empty it. -/
theorem Row.number_ne_nil
    {Old : Type}
    {row : Row Old}
    (hNe : row ≠ [])
    (next : Identity) :
    Row.number next row ≠ [] := by
  cases row with
  | nil => exact absurd rfl hNe
  | cons node rest => simp [Row.number]

------------------------------------------------------------
-- The Limit of a Template
------------------------------------------------------------

namespace LimitTemplate

/- A limit that is spelled with the texts of a template. -/
def spelling
    (limit : LimitTemplate) :
    Text :=
  Kind.limit.command ++
    ('\x7b' :: trim limit.subscript ++
      '\x7d' :: ' ' :: trim limit.expression)

/-
  The spelling of a template is read as the limit that is
  inserted for it, if its subscript can stand in a group and
  its expression is on one line.
-/
theorem ofText_spelling
    {limit : LimitTemplate}
    (hBalanced : isBalanced (trim limit.subscript) = true)
    (hLine :
      ∀ c ∈ trim limit.expression, isLineBreak c = false) :
    Row.ofText limit.spelling = [limit.node] := by
  have hStart :
      ∀ c ∈ (trim limit.expression ++ []).head?,
        isGap c = false := by
    intro c hHead
    rw [List.append_nil] at hHead
    by_contra hGap
    rw [Bool.not_eq_false] at hGap
    have hSolid := startsSolid_trim limit.expression c hHead
    rw [isBlank_of_isGap hGap] at hSolid
    cases hSolid
  have hSpells :
      Spells limit.spelling
        ⟨.limit, trim limit.subscript,
          trim limit.expression, []⟩ := by
    have hLimit :=
      @Spells.limit (trim limit.subscript) [' ']
        (trim limit.expression) [] hBalanced
        (List.forall_mem_singleton.mpr rfl) hStart hLine
        (by simp [StartsLine])
    rw [List.append_nil] at hLimit
    exact hLimit
  rw [hSpells.ofText_eq, trim_trim, trim_trim, Row.ofText_nil]
  rfl

/- The spelling of a template has only its placeholders. -/
theorem placeholderCount_spelling
    {limit : LimitTemplate}
    (hSubscript :
      ∀ c ∈ limit.subscript, isPlaceholder c = false)
    (hExpression :
      ∀ c ∈ limit.expression, isPlaceholder c = false) :
    placeholderCount limit.spelling = 0 := by
  have hFirst := not_isPlaceholder_of_mem_trim hSubscript
  have hSecond := not_isPlaceholder_of_mem_trim hExpression
  have hNone : placeholderCount Kind.limit.command = 0 := by
    decide
  rw [placeholderCount_eq_zero_iff] at hNone ⊢
  intro c hMem
  simp only [spelling, List.mem_append, List.mem_cons] at hMem
  rcases hMem with hCommand | (rfl | hMem) | rfl | rfl | hMem
  · exact hNone c hCommand
  · decide
  · exact hFirst c hMem
  · decide
  · decide
  · exact hSecond c hMem

end LimitTemplate

/-
  The limit that is inserted under accepted settings, whose
  texts have no placeholders, has something in both of its
  rows, whatever identities it is given.  Its text is read
  as one node, which is the same limit again.
-/
theorem Settings.limit_rereads
    {settings : Settings}
    (hValid : settings.validate = .ok settings)
    (hSubscript :
      ∀ c ∈ settings.limit.subscript,
        isPlaceholder c = false)
    (hExpression :
      ∀ c ∈ settings.limit.expression,
        isPlaceholder c = false)
    (document : Document) :
    (∃ id subscript expression,
      (document.adopt settings.limit.node).1 =
          .construct .limit id subscript expression ∧
        subscript ≠ [] ∧ expression ≠ []) ∧
    ∃ node,
      (Document.ofText
            (document.adopt
              settings.limit.node).1.toText).root =
          [node] ∧
        node.agree (fun _ _ => true)
            (document.adopt settings.limit.node).1 =
          true := by
  rcases error?_eq_none_iff.mp
      (validate_eq_ok_iff.mp hValid).1 with
    ⟨_, _, _, _, hFirst, hSecond⟩
  rcases limitError?_eq_none_iff.mp hFirst with
    ⟨hFirstNe, hBalanced, _⟩
  rcases limitError?_eq_none_iff.mp hSecond with
    ⟨hSecondNe, _, hLine⟩
  constructor
  · refine ⟨document.next, _, _, rfl, ?_, ?_⟩
    · exact Row.number_ne_nil
        (ofText_trim_ne_nil hFirstNe hSubscript) _
    · exact Row.number_ne_nil
        (ofText_trim_ne_nil hSecondNe hExpression) _
  · -- The limit is what its spelling is read as, so it is
    -- written as the spelling is saved.
    have hSpelling :=
      LimitTemplate.ofText_spelling hBalanced (hLine rfl)
    have hWritten :
        (document.adopt settings.limit.node).1.toText =
          canonical settings.limit.spelling := by
      rw [canonical_eq_toText, hSpelling]
      simp [Document.adopt, toText_numberNode, Row.toText]
    have hReread :=
      ofText_canonical_of_placeholderCount_eq_zero
        (LimitTemplate.placeholderCount_spelling hSubscript
          hExpression)
    refine ⟨settings.limit.node.number 0, ?_, ?_⟩
    · rw [hWritten, Document.ofText, Document.ofTextFrom,
        hReread, hSpelling]
      rfl
    · rw [Node.agree_iff, Node.content_number]
      exact (Node.content_number _ _).symm

/-
  A condition that ends in an escaped brace, and fractions
  that are bare in other fractions, are read again as they
  were inserted.
-/
theorem Settings.limit_rereads_with_bare_fractions :
    let settings : Settings :=
      { Settings.standard with
        limit :=
          ⟨" x \\to \\\x7b ".toList,
            "\\frac\x7b\\frac x\x7d\x7b\\\x7d\x7d2".toList⟩ }
    settings.validate = .ok settings ∧
      ∃ node,
        (Document.ofText
              (Document.empty.adopt
                settings.limit.node).1.toText).root =
            [node] ∧
          node.agree (fun _ _ => true)
              (Document.empty.adopt
                settings.limit.node).1 =
            true := by
  intro settings
  have hValid : settings.validate = .ok settings := by
    decide
  have hSubscript :
      placeholderCount settings.limit.subscript = 0 := by
    decide
  have hExpression :
      placeholderCount settings.limit.expression = 0 := by
    decide
  rw [placeholderCount_eq_zero_iff] at hSubscript hExpression
  exact
    ⟨hValid,
      (limit_rereads hValid hSubscript hExpression
        .empty).2⟩

end FormulaEditor
