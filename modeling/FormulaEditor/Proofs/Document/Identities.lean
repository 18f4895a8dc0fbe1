import FormulaEditor.Proofs.Editing.Reachability

/-
  This file proves that the index of every document that is
  reached by editing tells exactly where each identity is.

  Key theorems include:
    * `Row.mem_ids_iff`
    * `Document.exists_path?_iff`
    * `Document.identities_of_reachable`
-/

namespace FormulaEditor

------------------------------------------------------------
-- Identities and Nodes
------------------------------------------------------------

/- The identities of a row are those of its nodes. -/
theorem Row.mem_ids_iff
    {ι : Type}
    {row : Row ι}
    {id : ι} :
    id ∈ Row.ids row ↔
      ∃ path node, row.nodeAt? path = some node ∧
        node.id? = some id := by
  rw [← Row.map_fst_addresses, List.mem_map]
  constructor
  · rintro ⟨⟨_, path⟩, hMem, rfl⟩
    exact ⟨path, Row.mem_addresses_iff.mp hMem⟩
  · rintro ⟨path, hNode⟩
    exact ⟨(id, path), Row.mem_addresses_iff.mpr hNode, rfl⟩

namespace Document

/- Distinct identities are found exactly if they are used. -/
theorem exists_path?_iff
    {document : Document}
    (hNodup : (Row.ids document.root).Nodup)
    {id : Identity} :
    (∃ path, document.path? id = some path) ↔
      id ∈ Row.ids document.root := by
  rw [Row.mem_ids_iff]
  exact exists_congr fun path => path?_eq_some_iff hNodup

------------------------------------------------------------
-- Identities of Reachable Documents
------------------------------------------------------------

/-
  The identities of a document that is reached by editing
  are distinct and were all handed out before.  The index
  finds the ones that are there, at the paths of the nodes
  that carry them, and finds no others.
-/
theorem identities_of_reachable
    {document : Document}
    (hReachable : document.Reachable) :
    (Row.ids document.root).Nodup ∧
      (∀ id ∈ Row.ids document.root, id < document.next) ∧
      (∀ id path,
        document.path? id = some path ↔
          ∃ node, document.nodeAt? path = some node ∧
            node.id? = some id) ∧
      ∀ id,
        (∃ path, document.path? id = some path) ↔
          id ∈ Row.ids document.root := by
  have hSound := hReachable.sound
  refine ⟨hSound.nodup, hSound.fresh, ?_, ?_⟩
  · intro id path
    exact path?_eq_some_iff hSound.nodup
  · intro id
    exact exists_path?_iff hSound.nodup

/-
  A run that is typed in front of a fraction moves it on to
  where the index finds it.
-/
theorem identities_of_typed_before_fraction :
    ∃ document : Document,
      document.Reachable ∧
        (∃ node,
          document.nodeAt? ⟨[], 1⟩ = some node ∧
            node.id? = some 0) ∧
        document.path? 0 = some ⟨[], 1⟩ := by
  have hReachable :=
    (Reachable.empty.apply .standard .start .fraction).apply
      .standard .start (.type 'x')
  refine ⟨_, hReachable, ?_, ?_⟩
  · exact ⟨.emptyFraction 0, rfl, rfl⟩
  · exact ((identities_of_reachable hReachable).2.2.1 0
      ⟨[], 1⟩).mpr ⟨.emptyFraction 0, rfl, rfl⟩

end Document

end FormulaEditor
