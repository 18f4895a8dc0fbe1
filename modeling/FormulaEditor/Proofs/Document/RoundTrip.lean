import FormulaEditor.Proofs.Formula.Settling
import Mathlib.Logic.Function.Iterate
import Mathlib.Order.Basic

/-
  This file proves what becomes of a text that is opened as
  a document and saved again.

  Key theorems include:
    * `visible_toText_ofText`
    * `sameContent_ofText_canonical_iff`
    * `canonical_settles`
-/

namespace FormulaEditor

open Text

------------------------------------------------------------
-- Visible Content
------------------------------------------------------------

/- A space may follow what is written into a group. -/
theorem group_of_tidied
    {u v : Text}
    (hBalanced : isBalanced u = true)
    (hTidied : Tidied u v) :
    group v = '\x7b' :: trim v ++ ['\x7d'] ∨
      group v = '\x7b' :: trim v ++ [' ', '\x7d'] := by
  rw [group, escapeLone_trim_of_tidied hBalanced hTidied,
    finished]
  by_cases hBare : endsBare (trim v) = true
  · right
    simp [hBare]
  · left
    simp [hBare]

/-
  Opening a text and saving it changes nothing that can be
  seen.  Every group, at any depth, is written as its row
  is, up to blanks at its ends, so that no brace in it is
  escaped.
-/
theorem visible_toText_ofText
    (s : Text) :
    visible (Document.ofText s).toText = visible s ∧
      ∀ steps last row,
        (Document.ofText s).rowAt? (steps ++ [last]) =
            some row →
          last.slot ≠ .expression →
          group row.toText =
              '\x7b' :: trim row.toText ++ ['\x7d'] ∨
            group row.toText =
              '\x7b' :: trim row.toText ++ [' ', '\x7d'] := by
  constructor
  · exact (tidied_canonical s).cleaned.visible_eq.symm
  · intro steps last row hRow hGroup
    rcases Row.exists_of_at?_number hRow with
      ⟨first, below, hBelow, rfl⟩
    rcases Row.exists_of_at?_ofText hBelow with
      ⟨u, rfl, hBalanced⟩
    have hTidied : Tidied u (canonical (trim u)) :=
      .of_trim (tidied_canonical (trim u))
    rw [toText_number, ← canonical_eq_toText]
    exact group_of_tidied (hBalanced hGroup) hTidied

/- A bare escape is written into a group with a space. -/
theorem group_of_bare_escape :
    ∃ row,
      (Document.ofText
              "\\frac\x7ba\\ \x7d\x7bb\x7d".toList).rowAt?
            [⟨0, .numerator⟩] =
          some row ∧
        Slot.numerator ≠ .expression ∧
        group row.toText =
          '\x7b' :: trim row.toText ++ [' ', '\x7d'] := by
  have hText :
      ((Document.ofText
              "\\frac\x7ba\\ \x7d\x7bb\x7d".toList).rowAt?
            [⟨0, .numerator⟩]).map Row.toText =
        some "a\\".toList := by
    decide +kernel
  have hGroup : Slot.numerator ≠ .expression := by decide
  rcases Option.map_eq_some_iff.mp hText with
    ⟨row, hRow, hEscape⟩
  refine ⟨row, hRow, hGroup, ?_⟩
  rcases (visible_toText_ofText _).2 [] ⟨0, .numerator⟩ row
      hRow hGroup with
    hPlain | hSpaced
  · rw [hEscape] at hPlain
    exact absurd hPlain (by decide)
  · exact hSpaced

------------------------------------------------------------
-- Reading What Has Been Saved
------------------------------------------------------------

/- Documents have the same content if their rows are one. -/
theorem sameContent_ofText_iff
    (s t : Text) :
    (Document.ofText s).sameContent (Document.ofText t) =
        true ↔
      Row.ofText s = Row.ofText t := by
  have hIff :=
    Row.sameContent_iff (Row.number 0 (Row.ofText s))
      (Row.number 0 (Row.ofText t))
  rw [Row.content_number, Row.content_number] at hIff
  exact hIff

/- A text without placeholders is read as it is saved. -/
theorem ofText_canonical_of_placeholderCount_eq_zero
    {s : Text}
    (hNone : placeholderCount s = 0) :
    Row.ofText (canonical s) = Row.ofText s := by
  have hIff := ofText_cut_canonical_eq_iff s false false
  rw [cut_false_false] at hIff
  exact hIff.mpr
    (settled_of_placeholderCount_eq_zero hNone
      (cut_false_false s))

/-
  A document that is saved and opened again is the same one
  exactly if it is settled, which it is when the text that
  it was read from had no placeholders.
-/
theorem sameContent_ofText_canonical_iff
    (s : Text) :
    ((Document.ofText (canonical s)).sameContent
          (Document.ofText s) =
        true ↔
      (Document.ofText s).root.settled false false = true) ∧
    (placeholderCount s = 0 →
      (Document.ofText (canonical s)).sameContent
          (Document.ofText s) =
        true) := by
  constructor
  · have hIff := ofText_cut_canonical_eq_iff s false false
    rw [cut_false_false] at hIff
    rw [sameContent_ofText_iff, hIff,
      ← Row.settled_number false false 0]
    rfl
  · intro hNone
    rw [sameContent_ofText_iff]
    exact ofText_canonical_of_placeholderCount_eq_zero hNone

/- A fraction without placeholders is read as it is saved. -/
theorem sameContent_of_no_placeholder :
    placeholderCount "\\frac\x7b a\x7d\x7bb\x7d".toList = 0 ∧
      (Document.ofText
            (canonical
              "\\frac\x7b a\x7d\x7bb\x7d".toList)).sameContent
          (Document.ofText
            "\\frac\x7b a\x7d\x7bb\x7d".toList) =
        true := by
  have hNone :
      placeholderCount "\\frac\x7b a\x7d\x7bb\x7d".toList =
        0 := by
    decide
  exact ⟨hNone, (sameContent_ofText_canonical_iff _).2 hNone⟩

/-
  Of two placeholders in front only one is dropped at a
  time, so that the other goes when the text is read again.
-/
theorem not_sameContent_of_two_placeholders :
    ¬ (Document.ofText
          (Document.ofText "\u00A0\u00A0a".toList).toText
        ).sameContent
          (Document.ofText "\u00A0\u00A0a".toList) =
        true := by
  decide +kernel

------------------------------------------------------------
-- Saving Again and Again
------------------------------------------------------------

/-
  Saving again changes nothing any more once it has been
  done as often as there are placeholders to lose.
-/
theorem canonical_iterate_succ
    (count : Nat)
    {s : Text}
    (hCount : placeholderCount (canonical s) ≤ count) :
    canonical (canonical^[count + 1] s) =
      canonical^[count + 1] s := by
  induction count generalizing s with
  | zero =>
      rcases cut_canonical_eq_or_lt s false false with
        hSame | hLess
      · exact hSame
      · rw [cut_false_false] at hLess
        exact absurd (Nat.lt_of_lt_of_le hLess hCount)
          (Nat.not_lt_zero _)
  | succ count ih =>
      rw [Function.iterate_succ_apply]
      rcases cut_canonical_eq_or_lt s false false with
        hSame | hLess
      · rw [cut_false_false, cut_false_false] at hSame
        rw [Function.iterate_fixed hSame, hSame]
      · rw [cut_false_false] at hLess
        apply ih
        exact Nat.le_of_lt_succ
          (Nat.lt_of_lt_of_le hLess hCount)

/-
  Saving and opening a text over and over settles.  Every
  time that it changes anything, a placeholder goes for
  good; and a text without any is read the same at once,
  down to the identities.
-/
theorem canonical_settles
    (s : Text) :
    placeholderCount (canonical s) ≤ placeholderCount s ∧
      (canonical (canonical s) ≠ canonical s →
        placeholderCount (canonical (canonical s)) <
          placeholderCount (canonical s)) ∧
      (∀ n, placeholderCount s + 1 ≤ n →
        canonical^[n] s =
          canonical^[placeholderCount s + 1] s) ∧
      (placeholderCount s = 0 →
        (Document.ofText (canonical s)).root =
          (Document.ofText s).root) := by
  have hCount := placeholderCount_canonical_le s
  refine ⟨hCount, ?_, ?_, ?_⟩
  · intro hChanged
    rcases cut_canonical_eq_or_lt s false false with
      hSame | hLess
    · exact absurd hSame hChanged
    · exact hLess
  · intro n hEnough
    have hFixed := canonical_iterate_succ _ hCount
    induction n, hEnough using Nat.le_induction with
    | base => rfl
    | succ n _ ih =>
        rw [Function.iterate_succ_apply', ih, hFixed]
  · intro hNone
    have hSame :=
      ofText_canonical_of_placeholderCount_eq_zero hNone
    exact congrArg (Row.number 0) hSame

/- Two placeholders in front go one after the other. -/
theorem canonical_settles_two_placeholders :
    canonical (canonical "\u00A0\u00A0a".toList) ≠
        canonical "\u00A0\u00A0a".toList ∧
      placeholderCount
          (canonical (canonical "\u00A0\u00A0a".toList)) <
        placeholderCount
          (canonical "\u00A0\u00A0a".toList) := by
  have hChanged :
      canonical (canonical "\u00A0\u00A0a".toList) ≠
        canonical "\u00A0\u00A0a".toList := by
    decide +kernel
  exact ⟨hChanged, (canonical_settles _).2.1 hChanged⟩

end FormulaEditor
