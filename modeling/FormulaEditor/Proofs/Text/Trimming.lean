import FormulaEditor.Text.Blank
import Mathlib.Data.List.TakeWhile

/-
  This file proves how the cutting of blanks acts on texts
  that are put together from parts.

  Key theorems include:
    * `Text.trimEnd_cons`
    * `Text.exists_append_trimStart`
    * `Text.exists_trimEnd_append`
    * `Text.trim_trim`
-/

namespace FormulaEditor

namespace Text

------------------------------------------------------------
-- Blank Texts
------------------------------------------------------------

/- Every character of a text is blank. -/
def IsAllBlank
    (s : Text) :
    Prop :=
  ∀ c ∈ s, isBlank c = true

/- The first character of a text, if any, is not blank. -/
def StartsSolid
    (s : Text) :
    Prop :=
  ∀ c ∈ s.head?, isBlank c = false

/- What follows a solid start does not matter. -/
theorem startsSolid_append
    {s : Text}
    (hSolid : StartsSolid s)
    (hNe : s ≠ [])
    (t : Text) :
    StartsSolid (s ++ t) := by
  cases s with
  | nil => exact absurd rfl hNe
  | cons c rest => exact hSolid

/- A text that is cut at the start starts solid. -/
theorem startsSolid_trimStart
    (s : Text) :
    StartsSolid (trimStart s) := by
  intro c hHead
  induction s with
  | nil => simp [trimStart] at hHead
  | cons d rest ih =>
      by_cases hBlank : isBlank d = true
      · exact ih (by simpa [trimStart, hBlank] using hHead)
      · have hEq : d = c := by
          simpa [trimStart, hBlank] using hHead
        simpa [hEq] using hBlank

/- Nothing is cut from the start of a solid start. -/
theorem trimStart_of_startsSolid
    {s : Text}
    (hSolid : StartsSolid s) :
    trimStart s = s := by
  cases s with
  | nil => rfl
  | cons c rest =>
      have hBlank : isBlank c = false := hSolid c rfl
      simp [trimStart, hBlank]

/- What is cut from the start is blank. -/
theorem exists_append_trimStart
    (s : Text) :
    ∃ blanks, IsAllBlank blanks ∧
      s = blanks ++ trimStart s := by
  refine ⟨s.takeWhile isBlank, ?_, ?_⟩
  · intro c hMem
    exact List.mem_takeWhile_imp hMem
  · exact List.takeWhile_append_dropWhile.symm

------------------------------------------------------------
-- Cutting the Start
------------------------------------------------------------

/- A blank in front is cut. -/
theorem trimStart_cons_of_blank
    {c : Char}
    (hBlank : isBlank c = true)
    (s : Text) :
    trimStart (c :: s) = trimStart s := by
  simp [trimStart, hBlank]

/- A solid character in front stops the cutting. -/
theorem trimStart_cons_of_solid
    {c : Char}
    (hSolid : isBlank c = false)
    (s : Text) :
    trimStart (c :: s) = c :: s := by
  simp [trimStart, hSolid]

/- Cutting stops where a solid start follows. -/
theorem trimStart_append_of_startsSolid
    (s : Text)
    {t : Text}
    (hSolid : StartsSolid t) :
    trimStart (s ++ t) = trimStart s ++ t := by
  induction s with
  | nil => exact trimStart_of_startsSolid hSolid
  | cons c rest ih =>
      cases hBlank : isBlank c with
      | true =>
          simp only [List.cons_append,
            trimStart_cons_of_blank hBlank, ih]
      | false =>
          simp only [List.cons_append,
            trimStart_cons_of_solid hBlank]

/- Cutting the start twice is cutting it once. -/
@[simp] theorem trimStart_trimStart
    (s : Text) :
    trimStart (trimStart s) = trimStart s :=
  trimStart_of_startsSolid (startsSolid_trimStart s)

------------------------------------------------------------
-- Cutting the End
------------------------------------------------------------

@[simp] theorem trimEnd_nil :
    trimEnd [] = [] :=
  rfl

/-
  The end of a text is cut before its first character is
  looked at, which goes only if nothing is left after it.
-/
theorem trimEnd_cons
    (c : Char)
    (s : Text) :
    trimEnd (c :: s) =
      if trimEnd s = [] ∧ isBlank c = true then []
      else c :: trimEnd s := by
  simp only [trimEnd, List.reverse_cons,
    List.dropWhile_append, List.reverse_eq_nil_iff,
    List.isEmpty_iff]
  by_cases hEmpty : s.reverse.dropWhile isBlank = []
  · by_cases hBlank : isBlank c = true
    · simp [hEmpty, hBlank]
    · simp [hEmpty, hBlank]
  · simp [hEmpty]

/- A solid character in front is never cut from the end. -/
theorem trimEnd_cons_of_solid
    {c : Char}
    (hSolid : isBlank c = false)
    (s : Text) :
    trimEnd (c :: s) = c :: trimEnd s := by
  simp [trimEnd_cons, hSolid]

/- A character in front stays while something follows it. -/
theorem trimEnd_cons_of_ne_nil
    (c : Char)
    {s : Text}
    (hNe : trimEnd s ≠ []) :
    trimEnd (c :: s) = c :: trimEnd s := by
  simp [trimEnd_cons, hNe]

/- A text in front stays while something follows it. -/
theorem trimEnd_append_of_ne_nil
    (s : Text)
    {t : Text}
    (hNe : trimEnd t ≠ []) :
    trimEnd (s ++ t) = s ++ trimEnd t := by
  induction s with
  | nil => rfl
  | cons c rest ih =>
      have hRest : trimEnd (rest ++ t) ≠ [] := by
        simp [ih, hNe]
      rw [List.cons_append, trimEnd_cons_of_ne_nil c hRest,
        ih, List.cons_append]

/- If nothing is left of the end, the front is cut too. -/
theorem trimEnd_append_of_eq_nil
    (s : Text)
    {t : Text}
    (hNil : trimEnd t = []) :
    trimEnd (s ++ t) = trimEnd s := by
  induction s with
  | nil => exact hNil
  | cons c rest ih =>
      rw [List.cons_append, trimEnd_cons, trimEnd_cons, ih]

/- What is cut from the end is blank. -/
theorem exists_trimEnd_append
    (s : Text) :
    ∃ blanks, IsAllBlank blanks ∧
      s = trimEnd s ++ blanks := by
  rcases exists_append_trimStart s.reverse with
    ⟨blanks, hBlanks, hSplit⟩
  refine ⟨blanks.reverse, ?_, ?_⟩
  · intro c hMem
    exact hBlanks c (List.mem_reverse.mp hMem)
  · have hReverse := congrArg List.reverse hSplit
    simpa [trimEnd, trimStart] using hReverse

/- Cutting the end twice is cutting it once. -/
@[simp] theorem trimEnd_trimEnd
    (s : Text) :
    trimEnd (trimEnd s) = trimEnd s := by
  induction s with
  | nil => rfl
  | cons c rest ih =>
      rw [trimEnd_cons]
      split
      · rfl
      · next hKept => rw [trimEnd_cons, ih, if_neg hKept]

/- Nothing is left exactly of the blank texts. -/
theorem trimEnd_eq_nil_iff
    {s : Text} :
    trimEnd s = [] ↔ IsAllBlank s := by
  simp [trimEnd, IsAllBlank, List.dropWhile_eq_nil_iff]

/- Cutting the end keeps a solid start solid. -/
theorem startsSolid_trimEnd
    {s : Text}
    (hSolid : StartsSolid s) :
    StartsSolid (trimEnd s) := by
  cases s with
  | nil => exact hSolid
  | cons c rest =>
      rw [trimEnd_cons_of_solid (hSolid c rfl)]
      exact hSolid

------------------------------------------------------------
-- Cutting Both Ends
------------------------------------------------------------

/- A trimmed text starts solid. -/
theorem startsSolid_trim
    (s : Text) :
    StartsSolid (trim s) :=
  startsSolid_trimEnd (startsSolid_trimStart s)

@[simp] theorem trimStart_trim
    (s : Text) :
    trimStart (trim s) = trim s :=
  trimStart_of_startsSolid (startsSolid_trim s)

@[simp] theorem trimEnd_trim
    (s : Text) :
    trimEnd (trim s) = trim s :=
  trimEnd_trimEnd _

/- Trimming twice is trimming once. -/
@[simp] theorem trim_trim
    (s : Text) :
    trim (trim s) = trim s := by
  rw [trim, trimStart_trim, trimEnd_trim]

/- What trimming takes off both ends is blank. -/
theorem exists_append_trim_append
    (s : Text) :
    ∃ lead tail, IsAllBlank lead ∧ IsAllBlank tail ∧
      s = lead ++ trim s ++ tail := by
  rcases exists_append_trimStart s with ⟨lead, hLead, hStart⟩
  rcases exists_trimEnd_append (trimStart s) with
    ⟨tail, hTail, hEnd⟩
  refine ⟨lead, tail, hLead, hTail, ?_⟩
  rw [List.append_assoc, trim, ← hEnd]
  exact hStart

end Text

end FormulaEditor
