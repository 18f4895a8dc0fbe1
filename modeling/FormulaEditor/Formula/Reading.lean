import FormulaEditor.Formula.Node
import FormulaEditor.Text.Placeholder
import FormulaEditor.Text.Braces

/-
  This file reads formula trees from text.  Two constructs
  are recognised: a fraction with two brace groups, and a
  limit with one brace group whose expression runs to the
  end of the line.  Reading never fails, since whatever does
  not complete as a construct is plain text.

  Key definitions include:
    * `Spelled`
    * `spelled?`
    * `firstSpelled?`
    * `Row.ofText`

  Key theorems include:
    * `length_spelled?`
    * `length_firstSpelled?`
-/

namespace FormulaEditor

------------------------------------------------------------
-- One Construct
------------------------------------------------------------

/-
  A construct as a text spells it: the texts of its two
  rows, and the text that follows it.
-/
structure Spelled where
  kind : Kind
  first : Text
  second : Text
  rest : Text

/- What follows a text that another text starts with. -/
def after? : Text → Text → Option Text
  | [], s => some s
  | _ :: _, [] => none
  | c :: lead, d :: rest =>
      if c = d then after? lead rest else none

/- The blanks between a limit and its expression. -/
def isGap
    (c : Char) :
    Bool :=
  c == ' ' || c == '\t'

/- The content and the rest of a brace group. -/
def openGroup? : Text → Option (Text × Text)
  | '\x7b' :: rest => Text.readGroup rest
  | _ => none

/- A fraction spelled at the start of a text. -/
def spelledFraction?
    (s : Text) :
    Option Spelled := do
  let rest ← after? Kind.fraction.command s
  let (first, rest) ← openGroup? rest
  let (second, rest) ← openGroup? rest
  return ⟨.fraction, first, second, rest⟩

/- A limit spelled at the start of a text. -/
def spelledLimit?
    (s : Text) :
    Option Spelled := do
  let rest ← after? Kind.limit.command s
  let (subscript, rest) ← openGroup? rest
  let line := rest.dropWhile isGap
  return ⟨.limit, subscript,
    line.takeWhile (!isLineBreak ·),
    line.dropWhile (!isLineBreak ·)⟩

/- A construct spelled at the start of a text. -/
def spelled?
    (s : Text) :
    Option Spelled :=
  spelledFraction? s <|> spelledLimit? s

/-
  The leftmost construct of a text, after the text before
  it.
-/
def firstSpelled? : Text → Option (Text × Spelled)
  | [] => none
  | c :: rest =>
      match spelled? (c :: rest) with
      | some spelled => some ([], spelled)
      | none =>
          (firstSpelled? rest).map
            fun (before, spelled) => (c :: before, spelled)

------------------------------------------------------------
-- Lengths
------------------------------------------------------------

/- What follows a leading text is shorter by that text. -/
theorem length_after?
    {lead s rest : Text}
    (hAfter : after? lead s = some rest) :
    lead.length + rest.length = s.length := by
  fun_induction after? lead s with
  | case1 s =>
      simp only [Option.some.injEq] at hAfter
      simp [hAfter]
  | case2 => simp at hAfter
  | case3 lead c rest' ih =>
      have hLength := ih hAfter
      simp only [List.length_cons]
      omega
  | case4 => simp at hAfter

/- A group leaves out its two braces and nothing else. -/
theorem length_openGroup?
    {s content rest : Text}
    (hOpen : openGroup? s = some (content, rest)) :
    content.length + rest.length + 2 = s.length := by
  unfold openGroup? at hOpen
  split at hOpen
  · have hLength := Text.length_readGroup hOpen
    simp only [List.length_cons]
    omega
  · simp at hOpen

/- The parts of a fraction are shorter than its text. -/
theorem length_spelledFraction?
    {s : Text}
    {spelled : Spelled}
    (hSpelled : spelledFraction? s = some spelled) :
    spelled.first.length + spelled.second.length +
      spelled.rest.length < s.length := by
  simp only [spelledFraction?, Option.bind_eq_bind,
    Option.bind_eq_some_iff, Option.pure_def,
    Option.some.injEq] at hSpelled
  obtain ⟨afterCommand, hCommand, ⟨first, afterFirst⟩, hFirst,
    ⟨second, afterSecond⟩, hSecond, rfl⟩ := hSpelled
  have hCommandLength := length_after? hCommand
  have hFirstLength := length_openGroup? hFirst
  have hSecondLength := length_openGroup? hSecond
  simp only at hSecondLength ⊢
  omega

/- The parts of a limit are shorter than its text. -/
theorem length_spelledLimit?
    {s : Text}
    {spelled : Spelled}
    (hSpelled : spelledLimit? s = some spelled) :
    spelled.first.length + spelled.second.length +
      spelled.rest.length < s.length := by
  simp only [spelledLimit?, Option.bind_eq_bind,
    Option.bind_eq_some_iff, Option.pure_def,
    Option.some.injEq] at hSpelled
  obtain ⟨afterCommand, hCommand, ⟨subscript, afterGroup⟩,
    hGroup, rfl⟩ := hSpelled
  have hCommandLength := length_after? hCommand
  have hGroupLength := length_openGroup? hGroup
  have hGapLength :=
    (List.dropWhile_suffix (l := afterGroup) isGap).length_le
  have hLineLength :=
    congrArg List.length
      (List.takeWhile_append_dropWhile
        (l := afterGroup.dropWhile isGap)
        (p := (!isLineBreak ·)))
  simp only [List.length_append] at hLineLength
  simp only
  omega

/- The parts of a construct are shorter than its text. -/
theorem length_spelled?
    {s : Text}
    {spelled : Spelled}
    (hSpelled : spelled? s = some spelled) :
    spelled.first.length + spelled.second.length +
      spelled.rest.length < s.length := by
  simp only [spelled?, Option.orElse_eq_orElse,
    Option.orElse_eq_or, Option.or_eq_some_iff] at hSpelled
  rcases hSpelled with hFraction | ⟨_, hLimit⟩
  · exact length_spelledFraction? hFraction
  · exact length_spelledLimit? hLimit

/- The parts of the leftmost construct are shorter too. -/
theorem length_firstSpelled?
    {s before : Text}
    {spelled : Spelled}
    (hFirst : firstSpelled? s = some (before, spelled)) :
    spelled.first.length + spelled.second.length +
      spelled.rest.length < s.length := by
  fun_induction firstSpelled? s generalizing before with
  | case1 => simp at hFirst
  | case2 c rest found hFound =>
      simp only [Option.some.injEq, Prod.mk.injEq] at hFirst
      obtain ⟨_, rfl⟩ := hFirst
      exact length_spelled? hFound
  | case3 c rest _ ih =>
      obtain ⟨⟨inner, found⟩, hInner, hEq⟩ :=
        Option.map_eq_some_iff.1 hFirst
      simp only [Prod.mk.injEq] at hEq
      obtain ⟨_, rfl⟩ := hEq
      have hLength := ih hInner
      simp only [List.length_cons]
      omega

------------------------------------------------------------
-- Rows
------------------------------------------------------------

namespace Row

/-
  The row of one run of plain text, which is empty when
  nothing but a placeholder at either end is there.
-/
def ofPlain
    (s : Text) :
    Row Unit :=
  match Text.dropPlaceholders s with
  | [] => []
  | c :: run => [.text (c :: run)]

/-
  Read a row: the text before the leftmost construct, the
  construct with both of its rows read from their trimmed
  texts, and whatever follows.
-/
def ofText
    (s : Text) :
    Row Unit :=
  match _hFirst : firstSpelled? s with
  | none => ofPlain s
  | some (before, spelled) =>
      ofPlain before ++
        .construct spelled.kind ()
          (ofText (Text.trim spelled.first))
          (ofText (Text.trim spelled.second)) ::
        ofText spelled.rest
termination_by s.length
decreasing_by
  all_goals
    have hLength := length_firstSpelled? _hFirst
    have hTrimFirst := Text.length_trim_le spelled.first
    have hTrimSecond := Text.length_trim_le spelled.second
    omega

end Row

end FormulaEditor
