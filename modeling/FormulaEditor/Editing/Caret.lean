import FormulaEditor.Document.Basic

/-
  This file defines carets, how a caret that points nowhere
  is pulled back into its region, and what a caret is in.

  Key definitions include:
    * `Caret`
    * `Caret.atEndOf`
    * `Document.lastCaret`
    * `Document.clamp?`
    * `Document.pathUnder?`
    * `Focus`
    * `Document.focus`
-/

namespace FormulaEditor

------------------------------------------------------------
-- Carets
------------------------------------------------------------

/-
  A caret stands before the node at an index of a region,
  and inside that node if it is a run, after `offset` of its
  characters.  When `selected` is set, the whole content of
  the region is about to be overwritten.
-/
structure Caret where
  region : Region
  index : Nat
  offset : Nat
  selected : Bool
  deriving DecidableEq

namespace Caret

/- The caret at the very start of a document. -/
def start : Caret :=
  ⟨.root, 0, 0, false⟩

/- The same caret, with its region selected. -/
def select
    (caret : Caret) :
    Caret :=
  { caret with selected := true }

/-
  The caret at the end of a row, which is the end of its
  last run if it ends in one.
-/
def atEndOf
    (region : Region)
    (row : Row Identity) :
    Caret :=
  match row.getLast? with
  | some (.text run) =>
      ⟨region, row.length - 1, run.length, false⟩
  | _ => ⟨region, row.length, 0, false⟩

/-
  The greatest offset not above `offset` that the node at
  an index has; only runs have any but zero.
-/
def clampOffset
    (row : Row Identity)
    (index offset : Nat) :
    Nat :=
  match row[index]? with
  | some (.text run) => min offset run.length
  | _ => 0

/- Pull a caret back into the row of its region. -/
def clampTo
    (caret : Caret)
    (row : Row Identity) :
    Caret :=
  let placed :=
    if row.length < caret.index then
      atEndOf caret.region row
    else
      caret
  { placed with
    offset := clampOffset row placed.index placed.offset }

end Caret

namespace Document

/- The caret at the end of a document. -/
def lastCaret
    (document : Document) :
    Caret :=
  .atEndOf .root document.root

/- Pull a caret back into its region, if it still exists. -/
def clamp?
    (document : Document)
    (caret : Caret) :
    Option Caret :=
  (document.region? caret.region).map caret.clampTo

/- The path of the node under a caret. -/
def pathUnder?
    (document : Document)
    (caret : Caret) :
    Option Path :=
  (document.stepsTo? caret.region).map (⟨·, caret.index⟩)

end Document

------------------------------------------------------------
-- Focus
------------------------------------------------------------

/- What a caret is in. -/
inductive Focus where
  | root
  | slot (slot : Slot)
  | continuation
  deriving DecidableEq

/- The focus of a region when no continuation is there. -/
def Region.focus : Region → Focus
  | .root => .root
  | .slot _ name => .slot name

/-
  The focus of a caret: the continuation under it, or else
  its region.  A caret whose region is gone counts as being
  in the outermost row.
-/
def Document.focus
    (document : Document)
    (caret : Caret) :
    Focus :=
  match document.region? caret.region with
  | none => .root
  | some row =>
      match row[caret.index]? with
      | some (.continuation _ _) => .continuation
      | _ => caret.region.focus

end FormulaEditor
