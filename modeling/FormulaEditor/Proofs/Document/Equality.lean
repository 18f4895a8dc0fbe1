import FormulaEditor.Proofs.Editing.Mirroring
import FormulaEditor.Proofs.Formula.Relabelling

/-
  This file proves that documents are equal when they are
  the same but for their identities, and that equal ones are
  written the same and end at the same place.

  Key definitions include:
    * `Row.erased`

  Key theorems include:
    * `Row.mapIds_mapIds`
    * `Row.erased_eq_iff`
    * `Document.sameContent_iff_erased`
-/

namespace FormulaEditor

------------------------------------------------------------
-- Rows Without Identities
------------------------------------------------------------

section MapIds

variable {ι κ μ : Type} (f : ι → κ) (g : κ → μ)

mutual

/- A node that is relabelled twice is relabelled by both. -/
theorem Node.mapIds_mapIds :
    ∀ node : Node ι,
      (node.mapIds f).mapIds g = node.mapIds (g ∘ f)
  | .text _ => rfl
  | .construct kind id first second => by
      rw [Node.mapIds, Node.mapIds, Node.mapIds,
        Row.mapIds_mapIds first, Row.mapIds_mapIds second]
      rfl
  | .continuation _ _ => rfl

/- A row that is relabelled twice is relabelled by both. -/
theorem Row.mapIds_mapIds :
    ∀ row : Row ι,
      Row.mapIds g (Row.mapIds f row) = Row.mapIds (g ∘ f) row
  | [] => rfl
  | node :: rest => by
      rw [Row.mapIds, Row.mapIds, Row.mapIds,
        Node.mapIds_mapIds node, Row.mapIds_mapIds rest]

end

end MapIds

/- A row with zero in place of all of its identities. -/
def Row.erased
    (row : Row Identity) :
    Row Identity :=
  Row.mapIds (fun _ => 0) row

/- Erased identities tell rows apart by their content. -/
theorem Row.erased_eq_iff
    {row other : Row Identity} :
    row.erased = other.erased ↔
      row.content = other.content := by
  have hContent (row : Row Identity) :
      row.erased.content = row.content :=
    Row.mapIds_mapIds (fun _ => 0) (fun _ => ()) row
  have hErased (row : Row Identity) :
      Row.mapIds (fun _ => 0) row.content = row.erased :=
    Row.mapIds_mapIds (fun _ => ()) (fun _ => 0) row
  constructor
  · intro hSame
    rw [← hContent row, ← hContent other, hSame]
  · intro hSame
    rw [← hErased row, ← hErased other, hSame]

------------------------------------------------------------
-- Equal Documents
------------------------------------------------------------

namespace Document

/- Documents are equal when their content is. -/
theorem sameContent_iff_content
    {document other : Document} :
    document.sameContent other = true ↔
      document.root.content = other.root.content :=
  Row.sameContent_iff document.root other.root

/- So this is an equivalence of documents. -/
theorem equivalence_sameContent :
    Equivalence fun document other : Document =>
      document.sameContent other = true where
  refl _ := sameContent_iff_content.mpr rfl
  symm hSame :=
    sameContent_iff_content.mpr
      (sameContent_iff_content.mp hSame).symm
  trans hSame hSame' :=
    sameContent_iff_content.mpr
      ((sameContent_iff_content.mp hSame).trans
        (sameContent_iff_content.mp hSame'))

/-
  Rows have the same content exactly when they are equal
  with zero in place of every identity.  So the equality of
  documents is an equivalence, and equal documents are
  written the same and have the same caret at their ends.
-/
theorem sameContent_iff_erased :
    (∀ row other : Row Identity,
      row.sameContent other = true ↔
        row.erased = other.erased) ∧
      (Equivalence fun document other : Document =>
        document.sameContent other = true) ∧
      ∀ document other : Document,
        document.sameContent other = true →
          document.toText = other.toText ∧
            document.lastCaret = other.lastCaret := by
  refine ⟨?_, equivalence_sameContent, ?_⟩
  · intro row other
    rw [Row.sameContent_iff, Row.erased_eq_iff]
  · intro document other hSame
    have hContent := sameContent_iff_content.mp hSame
    have hEnd :=
      Caret.atEndOf_of_content hContent .root .root
    have hRegion :=
      Caret.region_atEndOf .root document.root
    refine ⟨toText_of_content hContent, ?_⟩
    rw [lastCaret, lastCaret, hEnd]
    cases hCaret : Caret.atEndOf .root document.root with
    | mk region index offset selected =>
        rw [hCaret] at hRegion
        rcases hRegion with rfl
        rfl

/- Two documents that differ in their identities only. -/
theorem sameContent_iff_erased_renumbered :
    let row (id : Identity) : Row Identity :=
      [.construct .fraction id
          [.text ['a']]
          [.continuation (id + 1) ['\u00A0']],
        .text ['b', 'c']]
    let document := ofRow 2 (row 0)
    let other := ofRow 9 (row 4)
    document.sameContent other = true ∧
      (row 0).erased = (row 4).erased ∧
      document.toText = other.toText ∧
      document.lastCaret = other.lastCaret := by
  intro row document other
  have hSame : document.sameContent other = true := by decide
  exact ⟨hSame,
    (sameContent_iff_erased.1 (row 0) (row 4)).mp hSame,
    sameContent_iff_erased.2.2 document other hSame⟩

end Document

end FormulaEditor
