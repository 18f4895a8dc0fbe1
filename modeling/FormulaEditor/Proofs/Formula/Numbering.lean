import FormulaEditor.Formula.Numbering
import FormulaEditor.Proofs.Formula.Address

/-
  This file proves that numbering a row leaves its nodes
  where they are, and hands out one identity after another.

  Key theorems include:
    * `Row.exists_of_at?_number`
    * `Row.ids_number`
-/

namespace FormulaEditor

variable {ι : Type}

------------------------------------------------------------
-- Numbered Rows
------------------------------------------------------------

/- A slot of a numbered node holds a numbered row. -/
theorem exists_of_region?_number
    {next : Identity}
    {node : Node ι}
    {slot : Slot}
    {row : Row Identity}
    (hRegion :
      (node.number next).region? slot = some row) :
    ∃ start inner, node.region? slot = some inner ∧
      row = Row.number start inner := by
  cases node with
  | text run => simp [Node.number, Node.region?] at hRegion
  | continuation id content =>
      simp [Node.number, Node.region?] at hRegion
  | construct kind id first second =>
      rcases slot with ⟨slotKind, side⟩
      simp only [Node.number, Node.region?] at hRegion ⊢
      split at hRegion
      · next hKind =>
          rw [if_pos hKind]
          cases side with
          | first =>
              rcases Option.some.inj hRegion with rfl
              exact ⟨_, first, rfl, rfl⟩
          | second =>
              rcases Option.some.inj hRegion with rfl
              exact ⟨_, second, rfl, rfl⟩
      · cases hRegion

namespace Row

/- A node of a numbered row is a numbered node. -/
theorem exists_of_getElem?_number
    {next : Identity}
    {row : Row ι}
    {index : Nat}
    {node : Node Identity}
    (hNode : (Row.number next row)[index]? = some node) :
    ∃ start inner, row[index]? = some inner ∧
      node = inner.number start := by
  induction row generalizing next index with
  | nil => simp [Row.number] at hNode
  | cons head rest ih =>
      cases index with
      | zero =>
          refine ⟨next, head, rfl, ?_⟩
          simpa [Row.number, eq_comm] using hNode
      | succ index =>
          simp only [Row.number, List.getElem?_cons_succ]
            at hNode ⊢
          exact ih hNode

/- A row that a numbered row holds is a numbered row. -/
theorem exists_of_at?_number
    {next : Identity}
    {row : Row ι}
    {steps : List Step}
    {inner : Row Identity}
    (hAt : (Row.number next row).at? steps = some inner) :
    ∃ start below, row.at? steps = some below ∧
      inner = Row.number start below := by
  induction steps generalizing next row with
  | nil =>
      rcases Option.some.inj hAt with rfl
      exact ⟨next, row, rfl, rfl⟩
  | cons step steps ih =>
      rcases at?_cons_eq_some_iff.mp hAt with
        ⟨node, below, hNode, hBelow, hRest⟩
      rcases exists_of_getElem?_number hNode with
        ⟨_, source, hSource, rfl⟩
      rcases exists_of_region?_number hBelow with
        ⟨_, content, hContent, rfl⟩
      rcases ih hRest with ⟨start, reached, hReached, rfl⟩
      refine ⟨start, reached, ?_, rfl⟩
      exact at?_cons_eq_some_iff.mpr
        ⟨source, content, hSource, hContent, hReached⟩

end Row

------------------------------------------------------------
-- Identities of Numbered Rows
------------------------------------------------------------

mutual

/- A node is numbered without gaps. -/
theorem Node.ids_number
    (next : Identity) :
    ∀ node : Node ι,
      (node.number next).ids =
        List.range' next node.ids.length
  | .text _ => rfl
  | .construct _ _ first second => by
      rw [Node.number, Node.ids, Row.ids_number (next + 1) first,
        Row.ids_number _ second, List.range'_append_1,
        Node.ids, List.length_cons, List.length_append,
        List.range'_succ]
  | .continuation _ _ => rfl

/- A row is numbered without gaps. -/
theorem Row.ids_number
    (next : Identity) :
    ∀ row : Row ι,
      Row.ids (Row.number next row) =
        List.range' next (Row.ids row).length
  | [] => rfl
  | node :: rest => by
      rw [Row.number, Row.ids, Node.ids_number next node,
        Row.ids_number _ rest, List.range'_append_1,
        Row.ids, List.length_append]

end

end FormulaEditor
