import FormulaEditor.Formula.Agreement
import FormulaEditor.Formula.Numbering

/-
  This file proves that rows agree, whatever their
  identities, exactly when they have the same content, and
  that numbering a row does not change its content.

  Key theorems include:
    * `Row.sameContent_iff`
    * `Row.content_number`
-/

namespace FormulaEditor

variable {ι κ : Type}

------------------------------------------------------------
-- Agreement Without Identities
------------------------------------------------------------

mutual

/- Nodes agree without identities if they are the same. -/
theorem Node.agree_iff :
    ∀ (node : Node ι) (other : Node κ),
      node.agree (fun _ _ => true) other = true ↔
        node.mapIds (fun _ => ()) =
          other.mapIds (fun _ => ())
  | .text run, .text run' => by
      simp [Node.agree, Node.mapIds]
  | .construct kind id first second,
      .construct kind' id' first' second' => by
      have hFirst := Row.agree_iff first first'
      have hSecond := Row.agree_iff second second'
      simp only [Node.agree, Node.mapIds, Bool.and_true,
        Bool.and_eq_true, decide_eq_true_eq, hFirst, hSecond,
        Node.construct.injEq, true_and, and_assoc]
  | .continuation id content, .continuation id' content' => by
      simp [Node.agree, Node.mapIds]
  | .text _, .construct _ _ _ _ => by
      simp [Node.agree, Node.mapIds]
  | .text _, .continuation _ _ => by
      simp [Node.agree, Node.mapIds]
  | .construct _ _ _ _, .text _ => by
      simp [Node.agree, Node.mapIds]
  | .construct _ _ _ _, .continuation _ _ => by
      simp [Node.agree, Node.mapIds]
  | .continuation _ _, .text _ => by
      simp [Node.agree, Node.mapIds]
  | .continuation _ _, .construct _ _ _ _ => by
      simp [Node.agree, Node.mapIds]

/- Rows agree without identities if they are the same. -/
theorem Row.agree_iff :
    ∀ (row : Row ι) (other : Row κ),
      Row.agree (fun _ _ => true) row other = true ↔
        Row.mapIds (fun _ => ()) row =
          Row.mapIds (fun _ => ()) other
  | [], [] => by simp [Row.agree, Row.mapIds]
  | [], _ :: _ => by simp [Row.agree, Row.mapIds]
  | _ :: _, [] => by simp [Row.agree, Row.mapIds]
  | node :: rest, node' :: rest' => by
      have hNode := Node.agree_iff node node'
      have hRest := Row.agree_iff rest rest'
      simp only [Row.agree, Row.mapIds, Bool.and_eq_true,
        List.cons.injEq, hNode, hRest]

end

/- Rows have the same content when it is equal. -/
theorem Row.sameContent_iff
    (row : Row ι)
    (other : Row κ) :
    row.sameContent other = true ↔
      row.content = other.content :=
  Row.agree_iff row other

------------------------------------------------------------
-- Numbered Rows
------------------------------------------------------------

mutual

/- Numbering a node does not change its content. -/
theorem Node.content_number
    (next : Identity) :
    ∀ node : Node Unit,
      (node.number next).mapIds (fun _ => ()) = node
  | .text _ => rfl
  | .construct _ _ first second => by
      have hFirst := Row.content_number (next + 1) first
      have hSecond :=
        Row.content_number
          (next + 1 + (Row.ids first).length) second
      simp only [Row.content] at hFirst hSecond
      simp only [Node.number, Node.mapIds, hFirst, hSecond]
  | .continuation _ _ => rfl

/- Numbering a row does not change its content. -/
theorem Row.content_number
    (next : Identity) :
    ∀ row : Row Unit, (Row.number next row).content = row
  | [] => rfl
  | node :: rest => by
      have hNode := Node.content_number next node
      have hRest :=
        Row.content_number (next + node.ids.length) rest
      simp only [Row.content] at hRest
      simp only [Row.content, Row.number, Row.mapIds, hNode,
        hRest]

end

end FormulaEditor
