import FormulaEditor.Json.Bracket
import FormulaEditor.Json.Number
import FormulaEditor.Json.Quoted

/-
  This file skips JSON values of any shape and depth.  The
  brackets that are still open are kept innermost first.

  Key definitions include:
    * `Json.skipScalar`
    * `Json.skipKey`
    * `Json.skipValue`

  Key theorems include:
    * `Json.skipValue_consumes`
-/

namespace FormulaEditor

namespace Json

------------------------------------------------------------
-- Scalars and Keys
------------------------------------------------------------

/- Forget what a reader has read. -/
def Reader.skip
    {α : Type}
    (read : Reader α) :
    Reader Unit :=
  fun s => (read s).map fun (_, rest) => ((), rest)

/- Forgetting what has been read consumes as much. -/
theorem Reader.skip_consumes
    {α : Type}
    {read : Reader α}
    (hRead : read.Consumes) :
    read.skip.Consumes := by
  intro s rest u hSkip
  unfold Reader.skip at hSkip
  cases hFound : read s with
  | error fault => simp [hFound, Except.map] at hSkip
  | ok found =>
      obtain ⟨a, after⟩ := found
      simp only [hFound, Except.map, Except.ok.injEq,
        Prod.mk.injEq, true_and] at hSkip
      subst hSkip
      exact hRead hFound

/- Skip a word, a number or a string. -/
def skipScalar : Reader Unit
  | '"' :: rest => Reader.skip skipString rest
  | c :: rest =>
      if c == '-' || isDigit c then
        Reader.skip skipNumeral (c :: rest)
      else
        readWord (c :: rest)
  | [] => .error .cutShort

/- Skipping a word, a number or a string consumes. -/
theorem skipScalar_consumes :
    Reader.Consumes skipScalar := by
  intro s rest u hSkip
  unfold skipScalar at hSkip
  have hString :=
    @Reader.skip_consumes _ skipString skipString_consumes
  have hNumeral :=
    @Reader.skip_consumes _ skipNumeral skipNumeral_consumes
  have hWord := @readWord_consumes
  grind [Reader.Consumes]

/- Skip a key with its colon. -/
def skipKey
    (s : Text) :
    Except Fault (Unit × Text) :=
  match skipBlank s with
  | [] => .error .cutShort
  | '"' :: rest =>
      match skipString rest with
      | .error fault => .error fault
      | .ok (_, rest) => readColon rest
  | _ => .error .malformed

/- Skipping a key consumes. -/
theorem skipKey_consumes : Reader.Consumes skipKey := by
  intro s rest u hSkip
  unfold skipKey at hSkip
  have hString := @skipString_consumes
  have hColon := @readColon_consumes
  have hBlank := length_skipBlank_le
  grind [Reader.Consumes]

------------------------------------------------------------
-- Labels
------------------------------------------------------------

namespace Bracket

/- Skip what stands before a value inside a bracket. -/
def skipLabel : Bracket → Reader Unit
  | .list, s => .ok ((), s)
  | .object, s => skipKey s

/-
  Where there is another value inside a bracket, skip what
  stands before it.
-/
def skipLabelIf
    (bracket : Bracket) :
    Bool → Text → Except Fault (Bool × Text)
  | false, s => .ok (false, s)
  | true, s =>
      match bracket.skipLabel s with
      | .error fault => .error fault
      | .ok (_, rest) => .ok (true, rest)

/- Skip up to the first value inside a bracket, if any. -/
def skipFirst
    (bracket : Bracket)
    (s : Text) :
    Except Fault (Bool × Text) :=
  match bracket.readFirst s with
  | .error fault => .error fault
  | .ok (more, rest) => bracket.skipLabelIf more rest

/- Skip up to the next value inside a bracket, if any. -/
def skipNext
    (bracket : Bracket)
    (s : Text) :
    Except Fault (Bool × Text) :=
  match bracket.readNext s with
  | .error fault => .error fault
  | .ok (more, rest) => bracket.skipLabelIf more rest

/- Skipping a label never lengthens a text. -/
theorem length_skipLabelIf_le
    {bracket : Bracket}
    {more more' : Bool}
    {s rest : Text}
    (hSkip : bracket.skipLabelIf more s = .ok (more', rest)) :
    rest.length ≤ s.length := by
  have hKey := @skipKey_consumes
  cases bracket <;> cases more <;>
    grind [skipLabelIf, skipLabel, Reader.Consumes]

/- Skipping to the first value never lengthens a text. -/
theorem length_skipFirst_le
    {bracket : Bracket}
    {s rest : Text}
    {more : Bool}
    (hSkip : bracket.skipFirst s = .ok (more, rest)) :
    rest.length ≤ s.length := by
  have hFirst := @length_readFirst_le bracket
  have hLabel := @length_skipLabelIf_le bracket
  unfold skipFirst at hSkip
  grind

/- Skipping to the next value consumes. -/
theorem skipNext_consumes
    (bracket : Bracket) :
    Reader.Consumes bracket.skipNext := by
  intro s rest more hSkip
  have hNext := @readNext_consumes bracket
  have hLabel := @length_skipLabelIf_le bracket
  unfold skipNext at hSkip
  grind [Reader.Consumes]

end Bracket

------------------------------------------------------------
-- Values
------------------------------------------------------------

mutual

/- Skip a value inside some open brackets, and all of them. -/
def skipInto
    (stack : List Bracket)
    (s : Text) :
    Except Fault (Unit × Text) :=
  match _hOpen : Bracket.ofOpening? (skipBlank s) with
  | some (bracket, inner) =>
      match _hFirst : bracket.skipFirst inner with
      | .error fault => .error fault
      | .ok (true, rest) => skipInto (bracket :: stack) rest
      | .ok (false, rest) => skipOut stack rest
  | none =>
      match _hScalar : skipScalar (skipBlank s) with
      | .error fault => .error fault
      | .ok (_, rest) => skipOut stack rest
termination_by s.length
decreasing_by
  all_goals
    have hBlank := length_skipBlank_le s
    have hOpen := @Bracket.length_ofOpening?
    have hFirst := @Bracket.length_skipFirst_le
    have hScalar := @skipScalar_consumes
    grind [Reader.Consumes]

/- Skip what is left of some open brackets. -/
def skipOut
    (stack : List Bracket)
    (s : Text) :
    Except Fault (Unit × Text) :=
  match stack with
  | [] => .ok ((), s)
  | bracket :: outer =>
      match _hNext : bracket.skipNext s with
      | .error fault => .error fault
      | .ok (true, rest) => skipInto (bracket :: outer) rest
      | .ok (false, rest) => skipOut outer rest
termination_by s.length
decreasing_by
  all_goals
    have hNext := Bracket.skipNext_consumes bracket _hNext
    omega

end

/- Skip a value. -/
def skipValue : Reader Unit :=
  skipInto []

/- Skipping open brackets never lengthens a text. -/
theorem length_skipInto_and_skipOut :
    (∀ (stack : List Bracket) (s rest : Text) (u : Unit),
      skipInto stack s = .ok (u, rest) →
        rest.length < s.length) ∧
    (∀ (stack : List Bracket) (s rest : Text) (u : Unit),
      skipOut stack s = .ok (u, rest) →
        rest.length ≤ s.length) := by
  have hBlank := length_skipBlank_le
  have hOpen := @Bracket.length_ofOpening?
  have hFirst := @Bracket.length_skipFirst_le
  have hScalar := @skipScalar_consumes
  have hNext := @Bracket.skipNext_consumes
  apply skipInto.mutual_induct <;>
    grind [skipInto, skipOut, Reader.Consumes]

/- Skipping a value consumes. -/
theorem skipValue_consumes : Reader.Consumes skipValue :=
  fun hSkip =>
    length_skipInto_and_skipOut.1 [] _ _ _ hSkip

end Json

end FormulaEditor
