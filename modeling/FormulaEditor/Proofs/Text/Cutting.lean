import FormulaEditor.Proofs.Text.Tidying

/-
  This file proves what cutting takes from the ends of a
  text, where blanks are cut at chosen ends and at most one
  placeholder is dropped at each.

  Key definitions include:
    * `Text.cut`
    * `Text.isSettled`

  Key theorems include:
    * `Text.dropPlaceholders_eq_or_lt`
    * `Text.cut_eq_iff`
    * `Text.dropPlaceholders_cut_eq_iff`
-/

namespace FormulaEditor

namespace Text

------------------------------------------------------------
-- Dropping Placeholders
------------------------------------------------------------

/- At most one placeholder is dropped in front. -/
theorem exists_append_dropFirst
    (s : Text) :
    ∃ lead, IsHidden lead ∧ s = lead ++ dropFirst s := by
  cases s with
  | nil => exact ⟨[], by simp [IsHidden], rfl⟩
  | cons c rest =>
      rw [dropFirst]
      split
      · next hPlaceholder =>
          refine ⟨[c], ?_, rfl⟩
          intro d hMem
          rcases List.mem_singleton.mp hMem with rfl
          exact not_isVisible_of_isPlaceholder hPlaceholder
      · exact ⟨[], by simp [IsHidden], rfl⟩

/- At most one placeholder is dropped at the end. -/
theorem exists_dropLastOne_append
    (s : Text) :
    ∃ tail, IsHidden tail ∧ s = dropLastOne s ++ tail := by
  rcases exists_append_dropFirst s.reverse with
    ⟨lead, hHidden, hSplit⟩
  refine ⟨lead.reverse, ?_, ?_⟩
  · intro c hMem
    exact hHidden c (List.mem_reverse.mp hMem)
  · have hReverse := congrArg List.reverse hSplit
    simpa [dropLastOne] using hReverse

/- What is dropped from both ends cannot be seen. -/
theorem exists_append_dropPlaceholders_append
    (s : Text) :
    ∃ lead tail, IsHidden lead ∧ IsHidden tail ∧
      s = lead ++ (dropPlaceholders s ++ tail) := by
  rcases exists_append_dropFirst s with ⟨lead, hLead, hFirst⟩
  rcases exists_dropLastOne_append (dropFirst s) with
    ⟨tail, hTail, hLast⟩
  refine ⟨lead, tail, hLead, hTail, ?_⟩
  rw [dropPlaceholders, ← hLast]
  exact hFirst

/- Only the end matters to what is dropped there. -/
theorem dropLastOne_append
    (s : Text)
    {t : Text}
    (hNe : t ≠ []) :
    dropLastOne (s ++ t) = s ++ dropLastOne t := by
  have hReverse : t.reverse ≠ [] := by simpa using hNe
  simp only [dropLastOne, List.reverse_append]
  cases hParts : t.reverse with
  | nil => exact absurd hParts hReverse
  | cons c rest =>
      simp only [List.cons_append, dropFirst]
      split <;> simp

/- Nothing is dropped in front, or a placeholder is. -/
theorem dropFirst_eq_or_lt
    (s : Text) :
    dropFirst s = s ∨
      placeholderCount (dropFirst s) < placeholderCount s := by
  cases s with
  | nil => exact .inl rfl
  | cons c rest =>
      by_cases hPlaceholder : isPlaceholder c = true
      · right
        rw [dropFirst, if_pos hPlaceholder,
          placeholderCount_cons, if_pos hPlaceholder]
        exact Nat.lt_succ_self _
      · left
        rw [dropFirst, if_neg hPlaceholder]

/- The order of a text does not matter to what it counts. -/
theorem placeholderCount_reverse
    (s : Text) :
    placeholderCount s.reverse = placeholderCount s :=
  List.countP_reverse

/- Nothing is dropped at the end, or a placeholder is. -/
theorem dropLastOne_eq_or_lt
    (s : Text) :
    dropLastOne s = s ∨
      placeholderCount (dropLastOne s) <
        placeholderCount s := by
  rcases dropFirst_eq_or_lt s.reverse with hSame | hLess
  · left
    rw [dropLastOne, hSame, List.reverse_reverse]
  · right
    rw [dropLastOne, placeholderCount_reverse]
    rwa [placeholderCount_reverse s] at hLess

/- Nothing is dropped, or a placeholder is. -/
theorem dropPlaceholders_eq_or_lt
    (s : Text) :
    dropPlaceholders s = s ∨
      placeholderCount (dropPlaceholders s) <
        placeholderCount s := by
  rw [dropPlaceholders]
  rcases dropFirst_eq_or_lt s with hFirst | hFirst
  · rw [hFirst]
    exact dropLastOne_eq_or_lt s
  · right
    rcases dropLastOne_eq_or_lt (dropFirst s) with
      hLast | hLast
    · rwa [hLast]
    · exact Nat.lt_trans hLast hFirst

/- Without placeholders nothing is dropped. -/
theorem dropPlaceholders_of_placeholderCount_eq_zero
    {s : Text}
    (hNone : placeholderCount s = 0) :
    dropPlaceholders s = s := by
  rcases dropPlaceholders_eq_or_lt s with hSame | hLess
  · exact hSame
  · rw [hNone] at hLess
    exact absurd hLess (Nat.not_lt_zero _)

------------------------------------------------------------
-- Cutting Chosen Ends
------------------------------------------------------------

/- Cut the blanks in front, if this is asked for. -/
def cutStart
    (start : Bool)
    (s : Text) :
    Text :=
  if start then trimStart s else s

/- Cut the blanks at the end, if this is asked for. -/
def cutEnd
    (stop : Bool)
    (s : Text) :
    Text :=
  if stop then trimEnd s else s

/- Cut the blanks at the chosen ends of a text. -/
def cut
    (start stop : Bool)
    (s : Text) :
    Text :=
  cutEnd stop (cutStart start s)

section Cutting

variable (start stop : Bool)

@[simp] theorem cut_true_true
    (s : Text) :
    cut true true s = trim s :=
  rfl

@[simp] theorem cut_false_false
    (s : Text) :
    cut false false s = s :=
  rfl

/- What is cut at the chosen ends is blank. -/
theorem exists_append_cut_append
    (s : Text) :
    ∃ lead tail, IsAllBlank lead ∧ IsAllBlank tail ∧
      s = lead ++ (cut start stop s ++ tail) := by
  have hEnd : ∀ t, ∃ tail, IsAllBlank tail ∧
      t = cutEnd stop t ++ tail := by
    intro t
    cases stop with
    | false =>
      exact ⟨[], by simp [IsAllBlank], by simp [cutEnd]⟩
    | true => exact exists_trimEnd_append t
  rcases hEnd (cutStart start s) with ⟨tail, hTail, hSplit⟩
  cases start with
  | false =>
      exact ⟨[], tail, by simp [IsAllBlank], hTail, hSplit⟩
  | true =>
      rcases exists_append_trimStart s with
        ⟨lead, hLead, hStart⟩
      refine ⟨lead, tail, hLead, hTail, ?_⟩
      rw [cut, ← hSplit]
      exact hStart

/- Cutting the same ends twice is cutting them once. -/
@[simp] theorem cut_cut
    (s : Text) :
    cut start stop (cut start stop s) = cut start stop s := by
  cases start with
  | false =>
      cases stop with
      | false => rfl
      | true => exact trimEnd_trimEnd s
  | true =>
      cases stop with
      | false => exact trimStart_trimStart s
      | true => exact trim_trim s

/- A text in front is cut at the start up to a solid one. -/
theorem cut_append_of_startsSolid
    (s : Text)
    {t : Text}
    (hSolid : StartsSolid t)
    (hNe : trimEnd t ≠ []) :
    cut start stop (s ++ t) =
      cut start false s ++ cutEnd stop t := by
  have hStart :
      cutStart start (s ++ t) = cutStart start s ++ t := by
    cases start with
    | false => rfl
    | true => exact trimStart_append_of_startsSolid s hSolid
  rw [cut, hStart]
  cases stop with
  | false => rfl
  | true => exact trimEnd_append_of_ne_nil _ hNe

/- A solid character stays, and what is in front of it. -/
theorem cutEnd_append_cons_of_solid
    (s : Text)
    {c : Char}
    (hSolid : isBlank c = false)
    (t : Text) :
    cutEnd stop (s ++ c :: t) = s ++ c :: cutEnd stop t := by
  cases stop with
  | false => rfl
  | true =>
      have hEnd := trimEnd_cons_of_solid hSolid t
      have hNe : trimEnd (c :: t) ≠ [] := by simp [hEnd]
      rw [cutEnd, if_pos rfl,
        trimEnd_append_of_ne_nil _ hNe, hEnd]
      rfl

/- A text that ends solid stays, and what is before it. -/
theorem cutEnd_append
    {s : Text}
    (hSolid : trimEnd s = s)
    (t : Text) :
    cutEnd stop (s ++ t) = s ++ cutEnd stop t := by
  cases stop with
  | false => rfl
  | true =>
      simp only [cutEnd, if_true]
      by_cases hNil : trimEnd t = []
      · rw [trimEnd_append_of_eq_nil s hNil, hSolid, hNil,
          List.append_nil]
      · exact trimEnd_append_of_ne_nil s hNil

/- Cutting an end first does not matter to the whole. -/
theorem cutEnd_append_cutEnd
    (s t : Text) :
    cutEnd stop (s ++ cutEnd stop t) = cutEnd stop (s ++ t) := by
  cases stop with
  | false => rfl
  | true =>
      simp only [cutEnd, if_true]
      by_cases hNil : trimEnd t = []
      · rw [hNil, List.append_nil,
          trimEnd_append_of_eq_nil s hNil]
      · have hAgain : trimEnd (trimEnd t) ≠ [] := by
          rwa [trimEnd_trimEnd]
        rw [trimEnd_append_of_ne_nil s hNil,
          trimEnd_append_of_ne_nil s hAgain, trimEnd_trimEnd]

/- Cutting never adds a placeholder. -/
theorem placeholderCount_cut_le
    (s : Text) :
    placeholderCount (cut start stop s) ≤
      placeholderCount s := by
  rcases exists_append_cut_append start stop s with
    ⟨lead, tail, _, _, hSplit⟩
  have hCount := congrArg placeholderCount hSplit
  simp only [placeholderCount_append] at hCount
  omega

end Cutting

------------------------------------------------------------
-- Settled Runs
------------------------------------------------------------

/-
  Whether nothing is dropped or cut from a run: it neither
  starts nor ends with a placeholder, nor with a blank at
  the chosen ends.
-/
def isSettled
    (start stop : Bool)
    (run : Text) :
    Bool :=
  run.head?.all
      (fun c => !isPlaceholder c && !(start && isBlank c)) &&
    run.getLast?.all
      (fun c => !isPlaceholder c && !(stop && isBlank c))

/- What is reversed, shortened and reversed is shortened. -/
theorem sublist_of_reverse
    {f : Text → Text}
    (hSublist : ∀ s, (f s).Sublist s)
    (s : Text) :
    (f s.reverse).reverse.Sublist s := by
  have hReverse := (hSublist s.reverse).reverse
  rwa [List.reverse_reverse] at hReverse

theorem dropFirst_sublist
    (s : Text) :
    (dropFirst s).Sublist s := by
  rcases exists_append_dropFirst s with ⟨lead, _, hSplit⟩
  have hRight := List.sublist_append_right lead (dropFirst s)
  rwa [← hSplit] at hRight

theorem cutStart_sublist
    (start : Bool)
    (s : Text) :
    (cutStart start s).Sublist s := by
  cases start with
  | false => exact List.Sublist.refl s
  | true => exact List.dropWhile_sublist isBlank

theorem cutEnd_sublist
    (stop : Bool)
    (s : Text) :
    (cutEnd stop s).Sublist s := by
  cases stop with
  | false => exact List.Sublist.refl s
  | true =>
      exact sublist_of_reverse
        (fun _ => List.dropWhile_sublist isBlank) s

/-
  A text that two shortenings lead back to is left alone by
  both of them.
-/
theorem eq_iff_of_sublist
    {f g : Text → Text}
    (hFirst : ∀ s, (f s).Sublist s)
    (hSecond : ∀ s, (g s).Sublist s)
    {s : Text} :
    g (f s) = s ↔ f s = s ∧ g s = s := by
  constructor
  · intro hSame
    have hShorter := hSecond (f s)
    rw [hSame] at hShorter
    have hKept :=
      (hFirst s).eq_of_length_le hShorter.length_le
    rw [hKept] at hSame
    exact ⟨hKept, hSame⟩
  · rintro ⟨hKept, hSame⟩
    rw [hKept, hSame]

/- Nothing is dropped in front of other characters. -/
theorem dropFirst_eq_iff
    {s : Text} :
    dropFirst s = s ↔
      s.head?.all (fun c => !isPlaceholder c) = true := by
  cases s with
  | nil => simp [dropFirst]
  | cons c rest =>
      by_cases hPlaceholder : isPlaceholder c = true
      · simp [dropFirst, hPlaceholder]
      · simp [dropFirst, hPlaceholder]

/- Nothing is cut in front of solid characters. -/
theorem cutStart_eq_iff
    {start : Bool}
    {s : Text} :
    cutStart start s = s ↔
      s.head?.all (fun c => !(start && isBlank c)) = true := by
  cases start with
  | false => cases s <;> simp [cutStart]
  | true =>
      cases s with
      | nil => simp [cutStart, trimStart]
      | cons c rest =>
          by_cases hBlank : isBlank c = true
          · have hLength := length_trimStart_le rest
            simp only [cutStart, if_true,
              trimStart_cons_of_blank hBlank]
            constructor
            · intro hSame
              rw [hSame, List.length_cons] at hLength
              exact absurd hLength (Nat.not_succ_le_self _)
            · intro hSolid
              simp [hBlank] at hSolid
          · simp [cutStart, trimStart, hBlank]

/- Nothing is dropped after other characters. -/
theorem dropLastOne_eq_iff
    {s : Text} :
    dropLastOne s = s ↔
      s.getLast?.all (fun c => !isPlaceholder c) = true := by
  rw [dropLastOne, List.reverse_eq_iff, dropFirst_eq_iff,
    List.head?_reverse]

/- Nothing is cut after solid characters. -/
theorem cutEnd_eq_iff
    {stop : Bool}
    {s : Text} :
    cutEnd stop s = s ↔
      s.getLast?.all (fun c => !(stop && isBlank c)) =
        true := by
  have hReverse :
      cutEnd stop s = (cutStart stop s.reverse).reverse := by
    cases stop with
    | false => simp [cutEnd, cutStart]
    | true => rfl
  rw [hReverse, List.reverse_eq_iff, cutStart_eq_iff,
    List.head?_reverse]

/- Nothing is cut between solid characters. -/
theorem cut_eq_iff
    {start stop : Bool}
    {s : Text} :
    cut start stop s = s ↔
      s.head?.all (fun c => !(start && isBlank c)) = true ∧
        s.getLast?.all (fun c => !(stop && isBlank c)) =
          true := by
  rw [← cutStart_eq_iff, ← cutEnd_eq_iff]
  exact eq_iff_of_sublist (cutStart_sublist start)
    (cutEnd_sublist stop)

/- A run is settled exactly if all of it is kept. -/
theorem dropPlaceholders_cut_eq_iff
    {start stop : Bool}
    {run : Text} :
    dropPlaceholders (cut start stop run) = run ↔
      isSettled start stop run = true := by
  have hDrop :
      dropPlaceholders run = run ↔
        dropFirst run = run ∧ dropLastOne run = run :=
    eq_iff_of_sublist dropFirst_sublist
      (sublist_of_reverse dropFirst_sublist)
  have hBoth :
      dropPlaceholders (cut start stop run) = run ↔
        cut start stop run = run ∧
          dropPlaceholders run = run :=
    eq_iff_of_sublist
      (fun s => (cutEnd_sublist stop _).trans
        (cutStart_sublist start s))
      (fun s => (sublist_of_reverse dropFirst_sublist _).trans
        (dropFirst_sublist s))
  rw [hBoth, cut_eq_iff, hDrop, dropFirst_eq_iff,
    dropLastOne_eq_iff, isSettled]
  cases run.head? <;> cases run.getLast? <;>
    simp [and_comm, and_left_comm, and_assoc]

end Text

end FormulaEditor
