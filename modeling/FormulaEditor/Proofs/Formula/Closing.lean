import FormulaEditor.Proofs.Formula.Canonical
import FormulaEditor.Proofs.Formula.Grammar

/-
  This file proves that a construct that has been written
  ends where it was written to end, whatever its rows hold
  and whatever text comes after it.

  Key theorems include:
    * `Spells.ofText_eq`
    * `startsFraction_write_append`
    * `startsLimit_write_append`
    * `reading_toText_append`
-/

namespace FormulaEditor

open Text

------------------------------------------------------------
-- Texts That a Construct Stands First In
------------------------------------------------------------

/- A construct that stands first in a text is read first. -/
theorem Spells.ofText_eq
    {s : Text}
    {spelled : Spelled}
    (hSpells : Spells s spelled) :
    Row.ofText s =
      .construct spelled.kind ()
        (Row.ofText (trim spelled.first))
        (Row.ofText (trim spelled.second)) ::
      Row.ofText spelled.rest := by
  have hFirst : firstSpelled? s = some ([], spelled) := by
    refine firstSpelled?_eq_some_iff.mpr
      ⟨s, rfl, hSpells, ?_⟩
    intro u v hSplit hNe
    exact absurd (List.append_eq_nil_iff.mp hSplit.symm).2 hNe
  exact Row.ofText_of_some hFirst

------------------------------------------------------------
-- Constructs That Have Been Written
------------------------------------------------------------

section Written

variable (first second rest : Text)

/- A fraction starts where one has been written. -/
theorem startsFraction_write_append :
    StartsFraction (Kind.fraction.write first second ++ rest)
      (escapeLone (trim first)) (escapeLone (trim second))
      rest where
  split := by simp [Kind.write, group]
  first := isBalanced_escapeLone (trim first)
  second := isBalanced_escapeLone (trim second)

/- A limit starts where one has been written. -/
theorem startsLimit_write_append :
    StartsLimit (Kind.limit.write first second ++ rest)
      (escapeLone (trim first))
      (' ' :: trim second ++ rest) where
  split := by simp [Kind.write, group]
  balanced := isBalanced_escapeLone (trim first)

end Written

/-
  A construct is read back where it has been written.  A
  fraction ends with its second group, and what follows is
  read as if it stood alone.  A limit has the subscript that
  was written, and goes on to the end of the line that its
  expression was written on.
-/
theorem reading_toText_append
    {ι : Type}
    (id : ι)
    (first second : Row ι)
    (rest : Text) :
    (∃ numerator denominator,
      group first.toText =
          '\x7b' :: numerator ++ ['\x7d'] ∧
        group second.toText =
          '\x7b' :: denominator ++ ['\x7d'] ∧
        reading
            ((Node.construct .fraction id first second).toText
              ++ rest) =
          .construct .fraction ()
              (reading (trim numerator))
              (reading (trim denominator)) ::
            reading rest) ∧
    ∃ subscript,
      group first.toText =
          '\x7b' :: subscript ++ ['\x7d'] ∧
        reading
            ((Node.construct .limit id first second).toText
              ++ rest) =
          .construct .limit ()
              (reading (trim subscript))
              (reading
                (trim
                  (Text.expression
                    (' ' :: trim second.toText ++ rest)))) ::
            reading
              (Text.afterExpression
                (' ' :: trim second.toText ++ rest)) := by
  simp only [toText_construct, reading_eq_ofText]
  have hFraction :=
    startsFraction_write_append first.toText second.toText
      rest
  have hLimit :=
    startsLimit_write_append first.toText second.toText rest
  exact ⟨⟨_, _, rfl, rfl, hFraction.spells.ofText_eq⟩,
    _, rfl, hLimit.spells.ofText_eq⟩

/- Neither a lone brace nor a bare escape moves an end. -/
example :
    (reading
        ((Node.construct .fraction ()
            [.text "\x7d\\".toList]
            [.text "\x7b".toList]).toText ++
          "\x7d".toList)).sameContent
      [Node.construct .fraction ()
          [.text "\\\x7d\\".toList]
          [.text "\\\x7b".toList],
        .text "\x7d".toList] = true := by
  decide +kernel

end FormulaEditor
