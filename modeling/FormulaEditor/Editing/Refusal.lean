/-
  This file defines why an edit leaves everything as it is.

  Key definitions include:
    * `Refusal`
-/

namespace FormulaEditor

/-
  Reasons to refuse an edit: the region of the caret is
  gone; the construct to leave is gone; there is nowhere
  further to go; there is nothing before the caret; or the
  caret lies beyond the end of its row or its run.
-/
inductive Refusal where
  | regionGone
  | constructGone
  | nowhereToGo
  | nothingBefore
  | outOfRange
  deriving DecidableEq

end FormulaEditor
