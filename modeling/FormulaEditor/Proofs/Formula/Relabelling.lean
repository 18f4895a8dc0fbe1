import FormulaEditor.Formula.Address
import FormulaEditor.Formula.Numbering
import FormulaEditor.Proofs.Formula.Canonical

/-
  This file proves that identities are labels only: that to
  change the identities of a tree changes nothing about
  where its rows and nodes stand, how a row is replaced and
  what is written.

  Key theorems include:
    * `Row.at?_mapIds`
    * `Row.replaceAt?_mapIds`
    * `Row.toText_mapIds`
    * `Row.number_add`
-/

namespace FormulaEditor

variable {ι κ : Type} (f : ι → κ)

------------------------------------------------------------
-- Nodes
------------------------------------------------------------

section Nodes

variable (node : Node ι)

@[simp] theorem isConstruct_mapIds :
    (node.mapIds f).isConstruct = node.isConstruct := by
  cases node <;> rfl

/- A slot holds the row that it held, relabelled. -/
theorem region?_mapIds
    (slot : Slot) :
    (node.mapIds f).region? slot =
      (node.region? slot).map (Row.mapIds f) := by
  cases node with
  | text run => rfl
  | continuation id content => rfl
  | construct kind id first second =>
      rw [Node.mapIds, Node.region?, Node.region?]
      split
      · cases slot.side <;> rfl
      · rfl

/- A row is put into a slot as it is without relabelling. -/
theorem setRegion?_mapIds
    (row : Row ι)
    (slot : Slot) :
    (node.mapIds f).setRegion? (Row.mapIds f row) slot =
      (node.setRegion? row slot).map (Node.mapIds f) := by
  cases node with
  | text run => rfl
  | continuation id content => rfl
  | construct kind id first second =>
      rw [Node.mapIds, Node.setRegion?, Node.setRegion?]
      split
      · cases slot.side <;> rfl
      · rfl

end Nodes

------------------------------------------------------------
-- Rows
------------------------------------------------------------

namespace Row

/- A row is relabelled node by node. -/
theorem mapIds_eq_map
    (row : Row ι) :
    Row.mapIds f row = row.map (Node.mapIds f) := by
  induction row with
  | nil => rfl
  | cons node row ih => rw [Row.mapIds, ih, List.map_cons]

/- A node of a relabelled row. -/
theorem getElem?_mapIds
    (row : Row ι)
    (index : Nat) :
    (Row.mapIds f row)[index]? =
      row[index]?.map (Node.mapIds f) := by
  rw [mapIds_eq_map, List.getElem?_map]

/- Steps reach the row that they reached, relabelled. -/
theorem at?_mapIds
    (row : Row ι)
    (steps : List Step) :
    (Row.mapIds f row).at? steps =
      (row.at? steps).map (Row.mapIds f) := by
  induction steps generalizing row with
  | nil => rfl
  | cons step steps ih =>
      rw [at?, at?, getElem?_mapIds]
      cases row[step.index]? with
      | none => rfl
      | some node =>
          simp only [Option.map_some, region?_mapIds]
          cases node.region? step.slot with
          | none => rfl
          | some inner => exact ih inner

/- A path ends at the node that it ended at, relabelled. -/
theorem nodeAt?_mapIds
    (row : Row ι)
    (path : Path) :
    (Row.mapIds f row).nodeAt? path =
      (row.nodeAt? path).map (Node.mapIds f) := by
  rw [nodeAt?, nodeAt?, at?_mapIds]
  cases row.at? path.steps with
  | none => rfl
  | some inner => exact getElem?_mapIds f inner path.index

/- A row is replaced as it is without relabelling. -/
theorem replaceAt?_mapIds
    (row new : Row ι)
    (steps : List Step) :
    (Row.mapIds f row).replaceAt? (Row.mapIds f new) steps =
      (row.replaceAt? new steps).map (Row.mapIds f) := by
  induction steps generalizing row with
  | nil => rfl
  | cons step steps ih =>
      rw [replaceAt?, replaceAt?, getElem?_mapIds]
      cases row[step.index]? with
      | none => rfl
      | some node =>
          simp only [Option.map_some, region?_mapIds]
          cases node.region? step.slot with
          | none => rfl
          | some inner =>
              simp only [Option.map_some, ih]
              cases inner.replaceAt? new steps with
              | none => rfl
              | some changed =>
                  simp only [Option.map_some,
                    setRegion?_mapIds, Option.map_map]
                  congr 1
                  funext inserted
                  simp only [Function.comp_apply,
                    mapIds_eq_map, List.map_set]

end Row

------------------------------------------------------------
-- Writing
------------------------------------------------------------

mutual

/- A relabelled node is written as it was. -/
theorem Node.toText_mapIds :
    ∀ node : Node ι, (node.mapIds f).toText = node.toText
  | .text _ => rfl
  | .construct kind id first second => by
      rw [Node.mapIds, toText_construct, toText_construct,
        Row.toText_mapIds first, Row.toText_mapIds second]
  | .continuation _ _ => rfl

/- A relabelled row is written as it was. -/
theorem Row.toText_mapIds :
    ∀ row : Row ι, (Row.mapIds f row).toText = row.toText
  | [] => rfl
  | node :: rest => by
      rw [Row.mapIds, Row.toText, Row.toText,
        Node.toText_mapIds node, Row.toText_mapIds rest]

end

/- Rows with the same content are written the same. -/
theorem toText_of_content
    {row : Row ι}
    {other : Row κ}
    (hContent : row.content = other.content) :
    row.toText = other.toText := by
  rw [← Row.toText_mapIds (fun _ => ()) row,
    ← Row.toText_mapIds (fun _ => ()) other]
  exact congrArg Row.toText hContent

------------------------------------------------------------
-- Numbering From Elsewhere
------------------------------------------------------------

mutual

/- Numbering a node from further on shifts its identities. -/
theorem Node.number_add
    (first next : Identity) :
    ∀ node : Node ι,
      node.number (first + next) =
        (node.number next).mapIds (first + ·)
  | .text _ => rfl
  | .construct _ _ above below => by
      have hBelow :
          first + next + 1 + (Row.ids above).length =
            first + (next + 1 + (Row.ids above).length) := by
        simp only [Nat.add_assoc]
      rw [Node.number, Node.number, Node.mapIds, hBelow,
        Nat.add_assoc first next 1,
        Row.number_add first (next + 1) above,
        Row.number_add first _ below]
  | .continuation _ _ => rfl

/- Numbering a row from further on shifts its identities. -/
theorem Row.number_add
    (first next : Identity) :
    ∀ row : Row ι,
      Row.number (first + next) row =
        Row.mapIds (first + ·) (Row.number next row)
  | [] => rfl
  | node :: rest => by
      rw [Row.number, Row.number, Row.mapIds,
        Nat.add_assoc first next node.ids.length,
        Node.number_add first next node,
        Row.number_add first _ rest]

end

end FormulaEditor
