import FormulaEditor.Proofs.Formula.Address
import FormulaEditor.Proofs.Formula.Canonical

/-
  This file proves what it does to a tree to replace a row
  in it once more, or by itself, or by a row that counts the
  same for some purpose, such as for how it is written.

  Key theorems include:
    * `Row.replaceAt?_self`
    * `Row.replaceAt?_replaceAt?`
    * `Row.replaceAt?_append`
    * `Row.eq_of_replaceAt?`
    * `Row.toText_replaceAt?`
-/

namespace FormulaEditor

namespace Row

variable {ι : Type}

------------------------------------------------------------
-- Replacing Twice
------------------------------------------------------------

/- To replace a row by itself changes nothing. -/
theorem replaceAt?_self
    {row inner : Row ι}
    {steps : List Step}
    (hAt : row.at? steps = some inner) :
    row.replaceAt? inner steps = some row := by
  induction steps generalizing row with
  | nil => exact hAt.symm
  | cons step steps ih =>
      rcases at?_cons_eq_some_iff.mp hAt with
        ⟨node, below, hNode, hRegion, hRest⟩
      rcases exists_append_of_getElem? hNode with
        ⟨left, right, hRow, hLength, _⟩
      rcases Node.region?_eq_some_iff.mp hRegion with
        ⟨id, other, rfl⟩
      exact replaceAt?_cons_eq_some_iff.mpr
        ⟨left, right, id, below, other, below, hRow, hLength,
          ih hRest, hRow⟩

/- The row that is put somewhere last is the one that counts. -/
theorem replaceAt?_replaceAt?
    {row new changed : Row ι}
    {steps : List Step}
    (hReplace : row.replaceAt? new steps = some changed)
    (other : Row ι) :
    changed.replaceAt? other steps =
      row.replaceAt? other steps := by
  induction steps generalizing row changed with
  | nil => rfl
  | cons step steps ih =>
      rcases replaceAt?_cons_eq_some_iff.mp hReplace with
        ⟨left, right, id, below, beside, inner, rfl, hLength,
          hInner, rfl⟩
      have hBelow := ih hInner
      simp [replaceAt?, ← hLength, hBelow]

/-
  To replace a row further down is to replace the row above
  it by one in which it is replaced.
-/
theorem replaceAt?_append
    {row inner : Row ι}
    {steps : List Step}
    (hAt : row.at? steps = some inner)
    (new : Row ι)
    (more : List Step) :
    row.replaceAt? new (steps ++ more) =
      (inner.replaceAt? new more).bind
        (row.replaceAt? · steps) := by
  induction steps generalizing row with
  | nil =>
      rcases Option.some.inj hAt with rfl
      exact (Option.bind_fun_some _).symm
  | cons step steps ih =>
      rcases at?_cons_eq_some_iff.mp hAt with
        ⟨node, below, hNode, hRegion, hRest⟩
      simp only [List.cons_append, replaceAt?, hNode, hRegion,
        ih hRest]
      cases inner.replaceAt? new more <;> rfl

------------------------------------------------------------
-- Replacing by What Counts the Same
------------------------------------------------------------

/-
  A tree counts the same after one of its rows is replaced
  by a row that does, if a row never shows more of its slots
  than what they count for.
-/
theorem eq_of_replaceAt?
    {α : Type}
    {count : Row ι → α}
    (hShape :
      ∀ left right slot id below below' other,
        count below = count below' →
          count
              (left ++
                Slot.node slot id below other :: right) =
            count
              (left ++
                Slot.node slot id below' other :: right))
    {row inner new changed : Row ι}
    {steps : List Step}
    (hAt : row.at? steps = some inner)
    (hReplace : row.replaceAt? new steps = some changed)
    (hSame : count new = count inner) :
    count changed = count row := by
  induction steps generalizing row changed with
  | nil =>
      rcases Option.some.inj hAt with rfl
      rcases Option.some.inj hReplace with rfl
      exact hSame
  | cons step steps ih =>
      rcases exists_below_of_replaceAt? hAt hReplace with
        ⟨left, right, id, below, other, below', rfl, _,
          hRest, hBelow, rfl⟩
      exact hShape left right step.slot id _ _ other
        (ih hRest hBelow)

/- How a tree is written depends on how its rows are. -/
theorem toText_replaceAt?
    {row inner new changed : Row ι}
    {steps : List Step}
    (hAt : row.at? steps = some inner)
    (hReplace : row.replaceAt? new steps = some changed)
    (hSame : new.toText = inner.toText) :
    changed.toText = row.toText := by
  refine eq_of_replaceAt? ?_ hAt hReplace hSame
  intro left right slot id below below' other hBelow
  rw [toText_append, toText_append, Row.toText, Row.toText]
  rcases slot with ⟨kind, _ | _⟩ <;>
    simp only [Slot.node, toText_construct, hBelow]

end Row

end FormulaEditor
