import FormulaEditor.Proofs.Document.Soundness

/-
  This file proves what the index says after a row has been
  replaced, where identities may be repeated.  Of an
  identity the last address counts, and no address below a
  row is shorter than the steps to that row, so the region
  of a row that has been replaced is still reached.

  Key definitions include:
    * `addressUnder`

  Key theorems include:
    * `Row.addresses_replaceAt?`
    * `Index.ofRow_replaceAt?`
    * `Document.stepsTo?_of_kept`
-/

namespace FormulaEditor

variable {ι : Type}

------------------------------------------------------------
-- Addresses Around a Replaced Row
------------------------------------------------------------

/- An identity whose path is reached through more steps. -/
def addressUnder
    (steps : List Step)
    (entry : ι × Path) :
    ι × Path :=
  (entry.1, ⟨steps ++ entry.2.steps, entry.2.index⟩)

/- The addresses of two parts of a row. -/
theorem addressesFrom_append
    (index : Nat)
    (row row' : Row ι) :
    Row.addressesFrom index (row ++ row') =
      Row.addressesFrom index row ++
        Row.addressesFrom (index + row.length) row' := by
  induction row generalizing index with
  | nil => rfl
  | cons node row ih =>
      rw [List.cons_append, Row.addressesFrom, ih,
        Row.addressesFrom, List.append_assoc,
        List.length_cons, Nat.add_assoc,
        Nat.add_comm 1 row.length]

/- The addresses in a slot are some of its node's. -/
theorem exists_addresses_node
    (slot : Slot)
    (index : Nat)
    (id : ι)
    (other : Row ι) :
    ∃ lead tail, ∀ row,
      (slot.node id row other).addresses index =
        lead ++
          (row.addresses.map (addressBelow ⟨index, slot⟩) ++
            tail) := by
  rcases slot with ⟨kind, _ | _⟩
  · exact ⟨[(id, ⟨[], index⟩)], _, fun _ => rfl⟩
  · refine
      ⟨(id, ⟨[], index⟩) ::
        other.addresses.map
          (addressBelow ⟨index, ⟨kind, .first⟩⟩),
        [], fun row => ?_⟩
    simp [Slot.node, Node.addresses, Row.addresses]

/- Only the addresses in a replaced row are replaced. -/
theorem Row.addresses_replaceAt?
    {row old new row' : Row ι}
    {steps : List Step}
    (hAt : row.at? steps = some old)
    (hReplace : row.replaceAt? new steps = some row') :
    ∃ lead tail,
      row.addresses =
          lead ++
            (old.addresses.map (addressUnder steps) ++
              tail) ∧
        row'.addresses =
          lead ++
            (new.addresses.map (addressUnder steps) ++
              tail) := by
  induction steps generalizing row row' with
  | nil =>
      rcases Option.some.inj hAt with rfl
      rcases Option.some.inj hReplace with rfl
      have hUnder (entries : List (ι × Path)) :
          entries.map (addressUnder []) = entries :=
        List.map_id' entries
      exact ⟨[], [], by simp [hUnder], by simp [hUnder]⟩
  | cons step steps ih =>
      rcases exists_below_of_replaceAt? hAt hReplace with
        ⟨left, right, id, below, other, changed, rfl, hLength,
          hRest, hChanged, rfl⟩
      rcases ih hRest hChanged with
        ⟨lead, tail, hBelow, hNew⟩
      rcases exists_addresses_node step.slot step.index id
          other with
        ⟨first, last, hAddresses⟩
      have hUnder (entries : List (ι × Path)) :
          (entries.map (addressUnder steps)).map
              (addressBelow step) =
            entries.map (addressUnder (step :: steps)) :=
        List.map_map ..
      refine
        ⟨addresses left ++
            (first ++ lead.map (addressBelow step)),
          tail.map (addressBelow step) ++
            (last ++
              addressesFrom (left.length + 1) right), ?_, ?_⟩
      · simp only [addresses] at hBelow hAddresses ⊢
        simp [addressesFrom_append, addressesFrom, hLength,
          hAddresses, hBelow, hUnder]
      · simp only [addresses] at hNew hAddresses ⊢
        simp [addressesFrom_append, addressesFrom, hLength,
          hAddresses, hNew, hUnder]

------------------------------------------------------------
-- The Index Around a Replaced Row
------------------------------------------------------------

/- A row with the same addresses leaves the index alone. -/
theorem Index.ofRow_replaceAt?
    {row old new row' : Row Identity}
    {steps : List Step}
    (hAt : row.at? steps = some old)
    (hReplace : row.replaceAt? new steps = some row')
    (hSame : new.addresses = old.addresses) :
    Index.ofRow row' = Index.ofRow row := by
  rcases Row.addresses_replaceAt? hAt hReplace with
    ⟨lead, tail, hRow, hRow'⟩
  rw [ofRow, ofRow, hRow, hRow', hSame]

/- An identity that a row does not have is not found in it. -/
theorem Index.find?_addressUnder_eq_none_iff
    {row : Row Identity}
    {steps : List Step}
    {id : Identity} :
    ((row.addresses.map (addressUnder steps)).reverse.find?
        fun entry => entry.1 == id) =
      none ↔ id ∉ Row.ids row := by
  rw [List.find?_eq_none, ← Row.map_fst_addresses]
  constructor
  · intro hNone hMem
    rcases List.mem_map.mp hMem with ⟨entry, hEntry, rfl⟩
    exact hNone (addressUnder steps entry)
      (List.mem_reverse.mpr (List.mem_map_of_mem hEntry))
      (beq_self_eq_true _)
  · intro hAway found hFound hEq
    rcases List.mem_map.mp (List.mem_reverse.mp hFound) with
      ⟨entry, hEntry, rfl⟩
    exact hAway
      (List.mem_map.mpr ⟨entry, hEntry, beq_iff_eq.mp hEq⟩)

/-
  An identity that is not below a row has the same path
  when the row is replaced by one that does not have the
  identity either.
-/
theorem Index.path?_ofRow_replaceAt?
    {row old new row' : Row Identity}
    {steps : List Step}
    (hAt : row.at? steps = some old)
    (hReplace : row.replaceAt? new steps = some row')
    {id : Identity}
    (hKept : id ∈ Row.ids new → id ∈ Row.ids old)
    {path : Path}
    (hPath : (ofRow row).path? id = some path)
    (hShort : path.steps.length < steps.length) :
    (ofRow row').path? id = some path := by
  rcases Row.addresses_replaceAt? hAt hReplace with
    ⟨lead, tail, hRow, hRow'⟩
  rw [path?, ofRow, hRow] at hPath
  rw [path?, ofRow, hRow']
  simp only [List.reverse_append, List.find?_append] at *
  cases hTail : tail.reverse.find? fun entry => entry.1 == id with
  | some entry =>
      rw [hTail] at hPath
      exact hPath
  | none =>
      rw [hTail] at hPath
      cases hOld :
        (old.addresses.map (addressUnder steps)).reverse.find?
          fun entry => entry.1 == id with
      | some entry =>
          -- The paths below a row start with the steps to it.
          rw [hOld] at hPath
          rcases List.mem_map.mp
              (List.mem_reverse.mp
                (List.mem_of_find?_eq_some hOld)) with
            ⟨inner, _, rfl⟩
          rcases Option.some.inj hPath with rfl
          simp only [addressUnder, List.length_append] at hShort
          omega
      | none =>
          have hAway : id ∉ Row.ids new := fun hMem =>
            find?_addressUnder_eq_none_iff.mp hOld
              (hKept hMem)
          rw [hOld] at hPath
          rw [find?_addressUnder_eq_none_iff.mpr hAway]
          exact hPath

namespace Document

/-
  A region is still reached by the same steps when its row
  has been replaced by one without other identities.  The
  address of its owner is not below the row, as it is
  shorter than the steps to it.
-/
theorem stepsTo?_of_kept
    {document : Document}
    {region : Region}
    {steps : List Step}
    {old new root : Row Identity}
    (hSteps : document.stepsTo? region = some steps)
    (hAt : document.root.at? steps = some old)
    (hReplace :
      document.root.replaceAt? new steps = some root)
    (hKept : ∀ id ∈ Row.ids new, id ∈ Row.ids old)
    (next : Identity) :
    (ofRow next root).stepsTo? region = some steps := by
  cases region with
  | root => exact hSteps
  | slot owner slot =>
      rcases Option.map_eq_some_iff.mp hSteps with
        ⟨path, hPath, rfl⟩
      refine Option.map_eq_some_iff.mpr ⟨path, ?_, rfl⟩
      rw [path?, document.indexed] at hPath
      refine Index.path?_ofRow_replaceAt? hAt hReplace
        (hKept owner) hPath ?_
      simp [Path.stepsInto]

end Document

end FormulaEditor
