import FormulaEditor.Text.Blank

/-
  This file defines formula trees: rows of text runs,
  fractions, limits and continuations.  A tree is generic in
  the identities that its constructs and continuations
  carry, so that content without identities is the tree over
  the one-element type.

  Key definitions include:
    * `Kind`
    * `Slot`
    * `Node`
    * `Row`
    * `Node.region?`
    * `Node.setRegion?`
    * `Row.ids`
    * `Row.mapIds`
-/

namespace FormulaEditor

------------------------------------------------------------
-- Slots
------------------------------------------------------------

/- The two kinds of construct. -/
inductive Kind where
  | fraction
  | limit
  deriving DecidableEq

/- The command that a construct is written with. -/
def Kind.command : Kind → Text
  | .fraction => "\\frac".toList
  | .limit => "\\lim_".toList

/- Every construct holds two rows, in a fixed order. -/
inductive Side where
  | first
  | second
  deriving DecidableEq

/- A slot names one of the two rows of a kind of construct. -/
structure Slot where
  kind : Kind
  side : Side
  deriving DecidableEq

namespace Slot

/- The row above the bar of a fraction. -/
def numerator : Slot :=
  ⟨.fraction, .first⟩

/- The row below the bar of a fraction. -/
def denominator : Slot :=
  ⟨.fraction, .second⟩

/- The condition that a limit is taken under. -/
def subscript : Slot :=
  ⟨.limit, .first⟩

/- The expression that a limit is taken of. -/
def expression : Slot :=
  ⟨.limit, .second⟩

/- The name of a slot. -/
def name : Slot → Text
  | ⟨.fraction, .first⟩ => "numerator".toList
  | ⟨.fraction, .second⟩ => "denominator".toList
  | ⟨.limit, .first⟩ => "subscript".toList
  | ⟨.limit, .second⟩ => "expression".toList

/- The next slot of the same construct, if there is one. -/
def sibling? : Slot → Option Slot
  | ⟨kind, .first⟩ => some ⟨kind, .second⟩
  | ⟨_, .second⟩ => none

end Slot

------------------------------------------------------------
-- Nodes
------------------------------------------------------------

/-
  A node is a run of characters, a construct with its two
  rows, or a continuation: a landing place for the caret
  whose content is only a placeholder.
-/
inductive Node (ι : Type) where
  | text (run : Text)
  | construct
      (kind : Kind)
      (id : ι)
      (first second : List (Node ι))
  | continuation (id : ι) (content : Text)

/- A row is a sequence of nodes. -/
abbrev Row (ι : Type) :=
  List (Node ι)

namespace Node

variable {ι κ : Type}

/- A fraction with two empty rows. -/
def emptyFraction
    (id : ι) :
    Node ι :=
  .construct .fraction id [] []

/- The identity of a node; text runs have none. -/
def id? : Node ι → Option ι
  | .text _ => none
  | .construct _ id _ _ => some id
  | .continuation id _ => some id

/- Whether a node owns rows. -/
def isConstruct : Node ι → Bool
  | .construct _ _ _ _ => true
  | _ => false

/- The slots of a node, in order. -/
def slots : Node ι → List Slot
  | .construct kind _ _ _ =>
      [⟨kind, .first⟩, ⟨kind, .second⟩]
  | _ => []

/- The row of a node in a slot, if the node has that slot. -/
def region? : Node ι → Slot → Option (Row ι)
  | .construct kind _ first second, slot =>
      if slot.kind = kind then
        match slot.side with
        | .first => some first
        | .second => some second
      else
        none
  | _, _ => none

/- Replace the row in a slot, if the node has that slot. -/
def setRegion?
    (row : Row ι) :
    Node ι → Slot → Option (Node ι)
  | .construct kind id first second, slot =>
      if slot.kind = kind then
        match slot.side with
        | .first => some (.construct kind id row second)
        | .second => some (.construct kind id first row)
      else
        none
  | _, _ => none

end Node

------------------------------------------------------------
-- Identities
------------------------------------------------------------

variable {ι κ : Type}

mutual

/- The identities under a node, itself before its rows. -/
def Node.ids : Node ι → List ι
  | .text _ => []
  | .construct _ id first second =>
      id :: (Row.ids first ++ Row.ids second)
  | .continuation id _ => [id]

/- The identities in a row, in document order. -/
def Row.ids : Row ι → List ι
  | [] => []
  | node :: rest => node.ids ++ Row.ids rest

end

mutual

/- Change every identity under a node. -/
def Node.mapIds
    (f : ι → κ) :
    Node ι → Node κ
  | .text run => .text run
  | .construct kind id first second =>
      .construct kind (f id)
        (Row.mapIds f first) (Row.mapIds f second)
  | .continuation id content =>
      .continuation (f id) content

/- Change every identity in a row. -/
def Row.mapIds
    (f : ι → κ) :
    Row ι → Row κ
  | [] => []
  | node :: rest => node.mapIds f :: Row.mapIds f rest

end

/- A row without its identities. -/
def Row.content
    (row : Row ι) :
    Row Unit :=
  Row.mapIds (fun _ => ()) row

end FormulaEditor
