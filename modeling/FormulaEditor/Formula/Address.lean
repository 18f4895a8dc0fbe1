import FormulaEditor.Formula.Node

/-
  This file defines how places in a formula tree are
  addressed from its outermost row.  A step goes into a slot
  of one node of a row; a path takes steps and ends at an
  index into the row that they reach.

  Key definitions include:
    * `Step`
    * `Path`
    * `Row.at?`
    * `Row.nodeAt?`
    * `Row.replaceAt?`
    * `Row.addresses`
-/

namespace FormulaEditor

------------------------------------------------------------
-- Paths
------------------------------------------------------------

/- One movement down: into a slot of the node at an index. -/
structure Step where
  index : Nat
  slot : Slot
  deriving DecidableEq

/- The steps to a row, and an index into that row. -/
structure Path where
  steps : List Step
  index : Nat
  deriving DecidableEq

namespace Path

/- The steps into a slot of the node that a path ends at. -/
def stepsInto
    (path : Path)
    (slot : Slot) :
    List Step :=
  path.steps ++ [⟨path.index, slot⟩]

/- A path that is reached through one more outer step. -/
def below
    (step : Step)
    (path : Path) :
    Path :=
  ⟨step :: path.steps, path.index⟩

end Path

------------------------------------------------------------
-- Rows and Nodes at an Address
------------------------------------------------------------

variable {ι : Type}

namespace Row

/- The row that steps reach. -/
def at?
    (row : Row ι) :
    List Step → Option (Row ι)
  | [] => some row
  | step :: steps =>
      match row[step.index]? with
      | none => none
      | some node =>
          match node.region? step.slot with
          | none => none
          | some inner => inner.at? steps

/- The node that a path ends at. -/
def nodeAt?
    (row : Row ι)
    (path : Path) :
    Option (Node ι) :=
  match row.at? path.steps with
  | none => none
  | some inner => inner[path.index]?

/- Replace the row that steps reach. -/
def replaceAt?
    (row new : Row ι) :
    List Step → Option (Row ι)
  | [] => some new
  | step :: steps =>
      match row[step.index]? with
      | none => none
      | some node =>
          match node.region? step.slot with
          | none => none
          | some inner =>
              match inner.replaceAt? new steps with
              | none => none
              | some changed =>
                  (node.setRegion? changed step.slot).map
                    (row.set step.index)

end Row

------------------------------------------------------------
-- Addresses of Identities
------------------------------------------------------------

/- An identity whose path is reached through one more step. -/
def addressBelow
    (step : Step)
    (entry : ι × Path) :
    ι × Path :=
  (entry.1, entry.2.below step)

mutual

/-
  The identities under the node at an index of a row, each
  with its path from that row, in document order.
-/
def Node.addresses
    (index : Nat) :
    Node ι → List (ι × Path)
  | .text _ => []
  | .construct kind id first second =>
      (id, ⟨[], index⟩) ::
        (Row.addressesFrom 0 first).map
            (addressBelow ⟨index, ⟨kind, .first⟩⟩) ++
          (Row.addressesFrom 0 second).map
            (addressBelow ⟨index, ⟨kind, .second⟩⟩)
  | .continuation id _ => [(id, ⟨[], index⟩)]

/-
  The identities in a row whose first node stands at an
  index, each with its path.
-/
def Row.addressesFrom
    (index : Nat) :
    Row ι → List (ι × Path)
  | [] => []
  | node :: rest =>
      node.addresses index ++ Row.addressesFrom (index + 1) rest

end

/- The identities in a row, each with its path. -/
def Row.addresses
    (row : Row ι) :
    List (ι × Path) :=
  Row.addressesFrom 0 row

end FormulaEditor
