import FormulaEditor.Document.Basic
import FormulaEditor.Proofs.Formula.Everywhere
import Mathlib.Data.List.Nodup

/-
  This file defines sound documents, in which identities are
  distinct and the next one is unused, and proves that their
  index finds every identity and that their regions can be
  read and replaced.

  Key definitions include:
    * `Document.Sound`

  Key theorems include:
    * `Document.path?_eq_some_iff`
    * `Document.region?_eq_some_iff`
    * `Document.stepsTo?_of_replaceAt?`
    * `Document.exists_regionOf?`
    * `Document.Sound.replaceAt?`
-/

namespace FormulaEditor

namespace Document

------------------------------------------------------------
-- Sound Documents
------------------------------------------------------------

/-
  A document is sound when its identities are distinct, the
  ones that are handed out next are new, and none of its
  runs is empty.
-/
structure Sound
    (document : Document) :
    Prop where
  nodup : (Row.ids document.root).Nodup
  fresh : ∀ id ∈ Row.ids document.root, id < document.next
  solid : document.root.Everywhere Row.IsSolid

/- A document that has just been read is sound. -/
theorem sound_ofTextFrom
    (next : Identity)
    (s : Text) :
    (ofTextFrom next s).Sound where
  nodup := by
    change (Row.ids (Row.number next (Row.ofText s))).Nodup
    rw [Row.ids_number]
    exact List.nodup_range'
  fresh := by
    intro id hMem
    change
      id ∈ Row.ids (Row.number next (Row.ofText s)) at hMem
    rw [Row.ids_number, List.mem_range'_1] at hMem
    exact hMem.2
  solid :=
    Row.everywhere_isSolid_number
      (Row.everywhere_isSolid_ofText s) next

/- A sound document stays so when identities are used up. -/
theorem Sound.later
    {document : Document}
    (hSound : document.Sound)
    {next : Identity}
    (hNext : document.next ≤ next) :
    Sound { document with next } where
  nodup := hSound.nodup
  fresh := fun id hMem =>
    Nat.lt_of_lt_of_le (hSound.fresh id hMem) hNext
  solid := hSound.solid

/-
  Identities stay distinct when some of them are replaced by
  ones that were among those or are new.
-/
theorem nodup_of_replaced
    {lead old new tail : List Identity}
    {next : Identity}
    (hOld : (lead ++ (old ++ tail)).Nodup)
    (hFresh : ∀ id ∈ lead ++ (old ++ tail), id < next)
    (hNew : new.Nodup)
    (hIds : ∀ id ∈ new, id ∈ old ∨ next ≤ id) :
    (lead ++ (new ++ tail)).Nodup := by
  rw [List.nodup_append, List.nodup_append] at hOld ⊢
  rcases hOld with ⟨hLead, ⟨_, hTail, hOldTail⟩, hLeadRest⟩
  refine ⟨hLead, ⟨hNew, hTail, ?_⟩, ?_⟩
  · intro id hMem other hOther
    rcases hIds id hMem with hBefore | hLater
    · exact hOldTail id hBefore other hOther
    · have hLess := hFresh other
        (List.mem_append_right _
          (List.mem_append_right _ hOther))
      exact Nat.ne_of_gt (Nat.lt_of_lt_of_le hLess hLater)
  · intro id hMem other hOther
    rcases List.mem_append.mp hOther with hOther | hOther
    · rcases hIds other hOther with hBefore | hLater
      · exact hLeadRest id hMem other
          (List.mem_append_left _ hBefore)
      · have hLess := hFresh id
          (List.mem_append_left _ hMem)
        exact Nat.ne_of_lt (Nat.lt_of_lt_of_le hLess hLater)
    · exact hLeadRest id hMem other
        (List.mem_append_right _ hOther)

/-
  A sound document stays so when a row is replaced by one
  whose identities were in that row before or are new.
-/
theorem Sound.replaceAt?
    {document : Document}
    (hSound : document.Sound)
    {steps : List Step}
    {old new root : Row Identity}
    {next : Identity}
    (hAt : document.root.at? steps = some old)
    (hReplace : document.root.replaceAt? new steps = some root)
    (hNext : document.next ≤ next)
    (hNodup : (Row.ids new).Nodup)
    (hIds :
      ∀ id ∈ Row.ids new,
        id ∈ Row.ids old ∨ document.next ≤ id ∧ id < next)
    (hSolid : new.Everywhere Row.IsSolid) :
    (ofRow next root).Sound := by
  rcases Row.ids_replaceAt? hAt hReplace with
    ⟨lead, tail, hOld, hNew⟩
  have hOldNodup := hSound.nodup
  have hOldFresh := hSound.fresh
  rw [hOld] at hOldNodup hOldFresh
  have hNewer :
      ∀ id ∈ Row.ids new,
        id ∈ Row.ids old ∨ document.next ≤ id := by
    intro id hMem
    exact (hIds id hMem).imp_right And.left
  refine ⟨?_, ?_, ?_⟩
  · change (Row.ids root).Nodup
    rw [hNew]
    exact nodup_of_replaced hOldNodup hOldFresh hNodup hNewer
  · intro id hMem
    change id ∈ Row.ids root at hMem
    change id < next
    rw [hNew, List.mem_append, List.mem_append] at hMem
    have hKept :
        id ∈ lead ++ (Row.ids old ++ tail) → id < next :=
      fun hMem =>
        Nat.lt_of_lt_of_le (hOldFresh id hMem) hNext
    rcases hMem with hLead | hNewMem | hTail
    · exact hKept (List.mem_append_left _ hLead)
    · rcases hIds id hNewMem with hBefore | ⟨_, hLess⟩
      · exact hKept
          (List.mem_append_right _
            (List.mem_append_left _ hBefore))
      · exact hLess
    · exact hKept
        (List.mem_append_right _
          (List.mem_append_right _ hTail))
  · exact hSound.solid.replaceAt?
      (fun _ _ _ _ _ _ _ h => Row.isSolid_of_node h)
      hSolid hReplace

------------------------------------------------------------
-- Identities and Their Paths
------------------------------------------------------------

/- Where the index points, the identity is found. -/
theorem exists_nodeAt?_of_path?
    {document : Document}
    {id : Identity}
    {path : Path}
    (hPath : document.path? id = some path) :
    ∃ node, document.root.nodeAt? path = some node ∧
      node.id? = some id := by
  rw [path?, Index.path?, document.indexed,
    Option.map_eq_some_iff] at hPath
  rcases hPath with ⟨⟨found, foundPath⟩, hFind, rfl⟩
  have hMem := List.mem_of_find?_eq_some hFind
  have hId := List.find?_some hFind
  simp only [beq_iff_eq] at hId
  rcases hId with rfl
  rw [Index.ofRow, List.mem_reverse] at hMem
  exact Row.mem_addresses_iff.mp hMem

/- Distinct identities are found exactly where they are. -/
theorem path?_eq_some_iff
    {document : Document}
    (hNodup : (Row.ids document.root).Nodup)
    {id : Identity}
    {path : Path} :
    document.path? id = some path ↔
      ∃ node, document.root.nodeAt? path = some node ∧
        node.id? = some id := by
  constructor
  · exact exists_nodeAt?_of_path?
  · intro hNode
    have hMem := Row.mem_addresses_iff.mpr hNode
    cases hPath : document.path? id with
    | none =>
        rw [path?, Index.path?, document.indexed,
          Option.map_eq_none_iff, List.find?_eq_none] at hPath
        have hNone := hPath (id, path)
          (List.mem_reverse.mpr hMem)
        simp at hNone
    | some found =>
        -- Two addresses of one identity are the same entry.
        have hFound := Row.mem_addresses_iff.mpr
          (exists_nodeAt?_of_path? hPath)
        rw [← Row.map_fst_addresses] at hNodup
        have hSame :=
          List.inj_on_of_nodup_map hNodup hFound hMem rfl
        rw [(Prod.mk.inj hSame).2]

------------------------------------------------------------
-- Regions
------------------------------------------------------------

/- The row of a region is the one that its steps reach. -/
theorem region?_eq_some_iff
    {document : Document}
    {region : Region}
    {row : Row Identity} :
    document.region? region = some row ↔
      ∃ steps, document.stepsTo? region = some steps ∧
        document.root.at? steps = some row := by
  rw [region?]
  cases document.stepsTo? region with
  | none => simp
  | some steps => simp [rowAt?]

/- A region is replaced by replacing the row of its steps. -/
theorem setRegion?_eq_some_iff
    {document changed : Document}
    {region : Region}
    {row : Row Identity} :
    document.setRegion? region row = some changed ↔
      ∃ steps root, document.stepsTo? region = some steps ∧
        document.root.replaceAt? row steps = some root ∧
        changed = ofRow document.next root := by
  rw [setRegion?]
  cases document.stepsTo? region with
  | none => simp
  | some steps =>
      simp only [setRowAt?, Option.map_eq_some_iff,
        Option.some.injEq]
      constructor
      · rintro ⟨root, hReplace, rfl⟩
        exact ⟨steps, root, rfl, hReplace, rfl⟩
      · rintro ⟨_, root, rfl, hReplace, rfl⟩
        exact ⟨root, hReplace, rfl⟩

/-
  A region is still reached by the same steps when its row
  has been replaced.
-/
theorem stepsTo?_of_replaceAt?
    {document changed : Document}
    {region : Region}
    {steps : List Step}
    {new : Row Identity}
    (hNodup : (Row.ids changed.root).Nodup)
    (hSteps : document.stepsTo? region = some steps)
    (hReplace :
      document.root.replaceAt? new steps =
        some changed.root) :
    changed.stepsTo? region = some steps := by
  cases region with
  | root => exact hSteps
  | slot owner slot =>
      rcases Option.map_eq_some_iff.mp hSteps with
        ⟨path, hPath, rfl⟩
      rcases exists_nodeAt?_of_path? hPath with
        ⟨node, hNode, hId⟩
      rcases Row.exists_nodeAt?_of_replaceAt? hReplace
          hNode with
        ⟨node', hNode', hSame⟩
      rw [hId] at hSame
      exact Option.map_eq_some_iff.mpr
        ⟨path,
          (path?_eq_some_iff hNodup).mpr
            ⟨node', hNode', hSame⟩,
          rfl⟩

/-
  The region that a node is in is reached by the steps to
  the node.
-/
theorem exists_regionOf?
    {document : Document}
    (hNodup : (Row.ids document.root).Nodup)
    {path : Path}
    {row : Row Identity}
    (hRow : document.root.at? path.steps = some row) :
    ∃ region, document.regionOf? path = some region ∧
      document.stepsTo? region = some path.steps := by
  rcases path with ⟨steps, index⟩
  rcases List.eq_nil_or_concat steps with rfl |
    ⟨outer, last, rfl⟩
  · exact ⟨.root, rfl, rfl⟩
  · rw [List.concat_eq_append] at hRow ⊢
    rw [Row.at?_append, Option.bind_eq_some_iff] at hRow
    rcases hRow with ⟨above, hAbove, hLast⟩
    rcases Row.at?_cons_eq_some_iff.mp hLast with
      ⟨node, below, hNode, hRegion, _⟩
    rcases Node.region?_eq_some_iff.mp hRegion with
      ⟨id, other, rfl⟩
    have hOwner :
        document.root.nodeAt? ⟨outer, last.index⟩ =
          some (last.slot.node id below other) :=
      Row.nodeAt?_eq_some_iff.mpr ⟨above, hAbove, hNode⟩
    refine ⟨.slot id last.slot, ?_, ?_⟩
    · simp [regionOf?, nodeAt?, hOwner]
    · refine Option.map_eq_some_iff.mpr
        ⟨⟨outer, last.index⟩, ?_, rfl⟩
      exact (path?_eq_some_iff hNodup).mpr
        ⟨_, hOwner, id?_node⟩

end Document

end FormulaEditor
