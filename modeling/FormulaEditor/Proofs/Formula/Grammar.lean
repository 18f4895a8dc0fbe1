import FormulaEditor.Document.Basic
import FormulaEditor.Proofs.Formula.Agreement
import FormulaEditor.Proofs.Formula.Spelling

/-
  This file states the grammar of formulas and proves that
  reading a text finds the leftmost construct that starts
  anywhere in it, with the parts that the grammar gives it.

  Key definitions include:
    * `StartsFraction`
    * `StartsLimit`
    * `StartsConstruct`
    * `IsLeftmost`
    * `Text.reading`

  Key theorems include:
    * `startsConstruct_iff`
    * `IsLeftmost.firstSpelled?`
    * `exists_isLeftmost`
    * `reading_leftmost`
-/

namespace FormulaEditor

open Text

------------------------------------------------------------
-- The Grammar
------------------------------------------------------------

/-
  A text starts with a fraction: its command, two groups
  whose texts are balanced, and whatever follows.
-/
structure StartsFraction
    (s first second rest : Text) :
    Prop where
  split :
    s =
      Kind.fraction.command ++
        ('\x7b' :: first ++ '\x7d' ::
          ('\x7b' :: second ++ '\x7d' :: rest))
  first : isBalanced first = true
  second : isBalanced second = true

/-
  A text starts with a limit: its command, one group whose
  text is balanced, and whatever follows.
-/
structure StartsLimit
    (s subscript rest : Text) :
    Prop where
  split :
    s =
      Kind.limit.command ++
        ('\x7b' :: subscript ++ '\x7d' :: rest)
  balanced : isBalanced subscript = true

/- A text starts with a construct of either kind. -/
def StartsConstruct
    (s : Text) :
    Prop :=
  (∃ first second rest, StartsFraction s first second rest) ∨
    ∃ subscript rest, StartsLimit s subscript rest

/-
  A construct starts after the text in front of it, and none
  starts any earlier.
-/
def IsLeftmost
    (before s : Text) :
    Prop :=
  StartsConstruct s ∧
    ∀ u v, before ++ s = u ++ v → StartsConstruct v →
      before.length ≤ u.length

/- The expression that follows the group of a limit. -/
def Text.expression
    (s : Text) :
    Text :=
  (s.dropWhile isGap).takeWhile (!isLineBreak ·)

/- What follows the expression of a limit. -/
def Text.afterExpression
    (s : Text) :
    Text :=
  (s.dropWhile isGap).dropWhile (!isLineBreak ·)

/- What a text is read as, whatever the identities are. -/
def Text.reading
    (s : Text) :
    Row Unit :=
  (Document.ofText s).root.content

------------------------------------------------------------
-- Texts That Start With a Construct
------------------------------------------------------------

section Starts

variable {s first second subscript rest : Text}

/- A fraction is spelled where the grammar has one. -/
theorem StartsFraction.spells
    (hStarts : StartsFraction s first second rest) :
    Spells s ⟨.fraction, first, second, rest⟩ := by
  rw [hStarts.split]
  exact .fraction hStarts.first hStarts.second

/- A limit is spelled where the grammar has one. -/
theorem StartsLimit.spells
    (hStarts : StartsLimit s subscript rest) :
    Spells s
      ⟨.limit, subscript, rest.expression,
        rest.afterExpression⟩ := by
  rw [hStarts.split]
  exact spells_limit_of_group hStarts.balanced rest

/- At most one construct is spelled at a place. -/
theorem Spells.unique
    {spelled spelled' : Spelled}
    (hSpells : Spells s spelled)
    (hSpells' : Spells s spelled') :
    spelled = spelled' := by
  have hFound := spelled?_eq_some_iff.mpr hSpells
  rw [spelled?_eq_some_iff.mpr hSpells'] at hFound
  exact (Option.some.inj hFound).symm

/- The parts of a fraction are unique. -/
theorem StartsFraction.unique
    {first' second' rest' : Text}
    (hStarts : StartsFraction s first second rest)
    (hStarts' : StartsFraction s first' second' rest') :
    first = first' ∧ second = second' ∧ rest = rest' := by
  have hSame := hStarts.spells.unique hStarts'.spells
  exact (Spelled.mk.inj hSame).2

/- The parts of a limit are unique. -/
theorem StartsLimit.unique
    {subscript' rest' : Text}
    (hStarts : StartsLimit s subscript rest)
    (hStarts' : StartsLimit s subscript' rest') :
    subscript = subscript' ∧ rest = rest' := by
  have hSame := hStarts.spells.unique hStarts'.spells
  have hSubscript := (Spelled.mk.inj hSame).2.1
  have hSplit := hStarts'.split
  rw [hStarts.split, hSubscript] at hSplit
  have hTail := List.append_cancel_left hSplit
  have hRest := List.append_cancel_left hTail
  exact ⟨hSubscript, (List.cons.inj hRest).2⟩

/- No text starts with both kinds of construct. -/
theorem StartsFraction.not_startsLimit
    (hStarts : StartsFraction s first second rest)
    (rest' : Text) :
    ¬ StartsLimit s subscript rest' := by
  intro hStarts'
  have hSame := hStarts.spells.unique hStarts'.spells
  cases (Spelled.mk.inj hSame).1

end Starts

/- The grammar has a construct where one is spelled. -/
theorem startsConstruct_iff
    {s : Text} :
    StartsConstruct s ↔ ∃ spelled, Spells s spelled := by
  constructor
  · rintro (⟨first, second, rest, hStarts⟩ |
      ⟨subscript, rest, hStarts⟩)
    · exact ⟨_, hStarts.spells⟩
    · exact ⟨_, hStarts.spells⟩
  · rintro ⟨spelled, hSpells⟩
    cases hSpells with
    | fraction hFirst hSecond =>
        exact .inl ⟨_, _, _, rfl, hFirst, hSecond⟩
    | limit hSubscript =>
        exact .inr ⟨_, _, rfl, hSubscript⟩

/- No construct is found where the grammar has none. -/
theorem spelled?_eq_none_of_not_startsConstruct
    {s : Text}
    (hNone : ¬ StartsConstruct s) :
    spelled? s = none := by
  cases hFound : spelled? s with
  | none => rfl
  | some spelled =>
      exact absurd
        (startsConstruct_iff.mpr
          ⟨spelled, spelled?_eq_some_iff.mp hFound⟩)
        hNone

/- A search finds the leftmost construct of a text. -/
theorem IsLeftmost.firstSpelled?
    {before s : Text}
    (hLeftmost : IsLeftmost before s)
    {spelled : Spelled}
    (hSpells : Spells s spelled) :
    firstSpelled? (before ++ s) = some (before, spelled) := by
  refine firstSpelled?_eq_some_iff.mpr ⟨s, rfl, hSpells, ?_⟩
  rintro u v rfl hNe
  apply spelled?_eq_none_of_not_startsConstruct
  intro hStarts
  have hLength :=
    hLeftmost.2 u (v ++ s) (List.append_assoc ..) hStarts
  have hPositive := List.length_pos_iff.mpr hNe
  rw [List.length_append] at hLength
  omega

/- What a search finds is the leftmost construct. -/
theorem isLeftmost_of_firstSpelled?
    {before s : Text}
    {spelled : Spelled}
    (hFirst :
      firstSpelled? (before ++ s) = some (before, spelled)) :
    IsLeftmost before s := by
  rcases firstSpelled?_eq_some_iff.mp hFirst with
    ⟨t, hSplit, hSpells, hNone⟩
  rcases List.append_cancel_left hSplit with rfl
  refine ⟨startsConstruct_iff.mpr ⟨spelled, hSpells⟩, ?_⟩
  intro u v hParts hStarts
  rcases startsConstruct_iff.mp hStarts with
    ⟨earlier, hEarlier⟩
  by_contra hLess
  have hPrefix : u <+: before :=
    List.prefix_of_prefix_length_le ⟨v, rfl⟩
      ⟨s, hParts⟩ (by omega)
  rcases hPrefix with ⟨w, rfl⟩
  have hNe : w ≠ [] := by
    rintro rfl
    simp at hLess
  rw [List.append_assoc] at hParts
  have hHere := hNone u w rfl hNe
  rw [List.append_cancel_left hParts,
    spelled?_eq_some_iff.mpr hEarlier] at hHere
  cases hHere

/- A text has no construct, or it has a leftmost one. -/
theorem exists_isLeftmost
    (s : Text) :
    (∀ u v, s = u ++ v → ¬ StartsConstruct v) ∨
      ∃ before t, s = before ++ t ∧ IsLeftmost before t := by
  cases hFirst : firstSpelled? s with
  | some found =>
      rcases found with ⟨before, spelled⟩
      rcases firstSpelled?_eq_some_iff.mp hFirst with
        ⟨t, rfl, _⟩
      exact .inr
        ⟨before, t, rfl, isLeftmost_of_firstSpelled? hFirst⟩
  | none =>
      rw [firstSpelled?_eq_none_iff] at hFirst
      refine .inl fun u v hSplit hStarts => ?_
      rcases startsConstruct_iff.mp hStarts with
        ⟨spelled, hSpells⟩
      have hNe : v ≠ [] := by
        rintro rfl
        cases hSpells
      have hNone := hFirst u v hSplit hNe
      rw [spelled?_eq_some_iff.mpr hSpells] at hNone
      cases hNone

------------------------------------------------------------
-- Reading by the Grammar
------------------------------------------------------------

/- The identities of a document are not read. -/
theorem reading_eq_ofText
    (s : Text) :
    reading s = Row.ofText s :=
  Row.content_number 0 (Row.ofText s)

/-
  Reading follows the grammar, leftmost construct first.
  Where no construct starts, a text is one run without its
  placeholders.  Otherwise there is a leftmost one, and the
  text is read as the run before it, the construct with its
  rows read from their trimmed texts, and whatever follows.
  The parts of a construct are unique.
-/
theorem reading_leftmost
    (s : Text) :
    ((∀ u v, s = u ++ v → ¬ StartsConstruct v) →
      reading s = Row.ofPlain s) ∧
    ((∀ u v, s = u ++ v → ¬ StartsConstruct v) ∨
      ∃ before t, s = before ++ t ∧ IsLeftmost before t) ∧
    (∀ before t, s = before ++ t → IsLeftmost before t →
      (∀ first second rest,
        StartsFraction t first second rest →
          reading s =
            Row.ofPlain before ++
              .construct .fraction ()
                (reading (trim first))
                (reading (trim second)) ::
              reading rest) ∧
      ∀ subscript rest, StartsLimit t subscript rest →
        reading s =
          Row.ofPlain before ++
            .construct .limit ()
              (reading (trim subscript))
              (reading (trim rest.expression)) ::
            reading rest.afterExpression) ∧
    (∀ first second rest first' second' rest',
      StartsFraction s first second rest →
        StartsFraction s first' second' rest' →
          first = first' ∧ second = second' ∧
            rest = rest') ∧
    (∀ subscript rest subscript' rest',
      StartsLimit s subscript rest →
        StartsLimit s subscript' rest' →
          subscript = subscript' ∧ rest = rest') ∧
    ∀ first second rest subscript rest',
      StartsFraction s first second rest →
        ¬ StartsLimit s subscript rest' := by
  refine ⟨?_, exists_isLeftmost s, ?_, ?_, ?_, ?_⟩
  · intro hNone
    rw [reading_eq_ofText, Row.ofText_of_none]
    rw [firstSpelled?_eq_none_iff]
    intro u v hSplit _
    exact spelled?_eq_none_of_not_startsConstruct
      (hNone u v hSplit)
  · rintro before t rfl hLeftmost
    simp only [reading_eq_ofText]
    constructor
    · intro first second rest hStarts
      exact Row.ofText_of_some
        (hLeftmost.firstSpelled? hStarts.spells)
    · intro subscript rest hStarts
      exact Row.ofText_of_some
        (hLeftmost.firstSpelled? hStarts.spells)
  · intro first second rest first' second' rest'
    exact StartsFraction.unique
  · intro subscript rest subscript' rest'
    exact StartsLimit.unique
  · intro first second rest subscript rest' hStarts
    exact hStarts.not_startsLimit rest'

/-
  A fraction that never closes is a run in front of the
  fraction inside it.
-/
theorem reading_leftmost_of_unclosed :
    ∃ before t,
      "\\frac\x7b\\frac\x7b1\x7d\x7b2\x7d".toList =
          before ++ t ∧
        IsLeftmost before t ∧
        StartsFraction t ['1'] ['2'] [] ∧
        reading
            "\\frac\x7b\\frac\x7b1\x7d\x7b2\x7d".toList =
          Row.ofPlain before ++
            .construct .fraction () (reading (trim ['1']))
              (reading (trim ['2'])) ::
            reading [] := by
  have hSplit :
      "\\frac\x7b\\frac\x7b1\x7d\x7b2\x7d".toList =
        "\\frac\x7b".toList ++
          "\\frac\x7b1\x7d\x7b2\x7d".toList := by
    decide
  have hLeftmost :
      IsLeftmost "\\frac\x7b".toList
        "\\frac\x7b1\x7d\x7b2\x7d".toList :=
    @isLeftmost_of_firstSpelled? _ _
      ⟨.fraction, ['1'], ['2'], []⟩ rfl
  have hStarts :
      StartsFraction "\\frac\x7b1\x7d\x7b2\x7d".toList
        ['1'] ['2'] [] :=
    ⟨by decide, by decide, by decide⟩
  exact ⟨_, _, hSplit, hLeftmost, hStarts,
    ((reading_leftmost _).2.2.1 _ _ hSplit hLeftmost).1
      _ _ _ hStarts⟩

end FormulaEditor
