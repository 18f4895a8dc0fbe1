import FormulaEditor.Formula.Address

/-
  This file proves how rows are reached and replaced step by
  step, and that the addresses of a row list its identities
  with their paths.

  Key definitions include:
    * `Slot.node`

  Key theorems include:
    * `Row.at?_cons_eq_some_iff`
    * `Row.at?_replaceAt?`
    * `Row.ids_replaceAt?`
    * `Row.mem_addresses_iff`
-/

namespace FormulaEditor

variable {ι : Type}

------------------------------------------------------------
-- Slots of a Node
------------------------------------------------------------

/- The construct with a row in a slot and another beside it. -/
def Slot.node
    (slot : Slot)
    (id : ι)
    (row other : Row ι) :
    Node ι :=
  match slot.side with
  | .first => .construct slot.kind id row other
  | .second => .construct slot.kind id other row

section Slots

variable {slot : Slot} {id : ι} {row other : Row ι}

@[simp] theorem id?_node :
    (slot.node id row other).id? = some id := by
  rcases slot with ⟨kind, _ | _⟩ <;> rfl

@[simp] theorem region?_node :
    (slot.node id row other).region? slot = some row := by
  rcases slot with ⟨kind, _ | _⟩ <;>
    simp [Slot.node, Node.region?]

@[simp] theorem setRegion?_node
    (new : Row ι) :
    (slot.node id row other).setRegion? new slot =
      some (slot.node id new other) := by
  rcases slot with ⟨kind, _ | _⟩ <;>
    simp [Slot.node, Node.setRegion?]

/- The other slots of a node do not depend on the row. -/
theorem region?_node_of_ne
    {slot' : Slot}
    (hNe : slot' ≠ slot)
    (id : ι)
    (row row' other : Row ι) :
    (slot.node id row other).region? slot' =
      (slot.node id row' other).region? slot' := by
  rcases slot with ⟨kind, _ | _⟩ <;>
    rcases slot' with ⟨kind', _ | _⟩ <;>
      · by_cases hKind : kind' = kind
        · simp_all [Slot.node, Node.region?]
        · simp [Slot.node, Node.region?, hKind]

/- A node has a row in a slot if it is built around it. -/
theorem Node.region?_eq_some_iff
    {node : Node ι} :
    node.region? slot = some row ↔
      ∃ id other, node = slot.node id row other := by
  constructor
  · intro hRegion
    cases node with
    | text run => cases hRegion
    | continuation id content => cases hRegion
    | construct kind id first second =>
        rcases slot with ⟨slotKind, side⟩
        simp only [Node.region?] at hRegion
        split at hRegion
        · next hKind =>
            rcases hKind with rfl
            cases side with
            | first =>
                rcases Option.some.inj hRegion with rfl
                exact ⟨id, second, rfl⟩
            | second =>
                rcases Option.some.inj hRegion with rfl
                exact ⟨id, first, rfl⟩
        · cases hRegion
  · rintro ⟨id, other, rfl⟩
    exact region?_node

end Slots

------------------------------------------------------------
-- Rows at an Address
------------------------------------------------------------

/- The place of a node in a row, and what can stand there. -/
theorem exists_append_of_getElem?
    {α : Type}
    {row : List α}
    {index : Nat}
    {node : α}
    (hNode : row[index]? = some node) :
    ∃ left right, row = left ++ node :: right ∧
      left.length = index ∧
      ∀ new, row.set index new = left ++ new :: right := by
  rcases List.getElem?_eq_some_iff.mp hNode with
    ⟨hLength, rfl⟩
  refine ⟨row.take index, row.drop (index + 1), ?_, ?_, ?_⟩
  · rw [List.getElem_cons_drop, List.take_append_drop]
  · rw [List.length_take]
    omega
  · intro new
    rw [List.set_eq_take_append_cons_drop, if_pos hLength]

namespace Row

/- The outermost row is reached without any step. -/
@[simp] theorem at?_nil
    (row : Row ι) :
    row.at? [] = some row :=
  rfl

/- A row is reached through a node of the row above it. -/
theorem at?_cons_eq_some_iff
    {row inner : Row ι}
    {step : Step}
    {steps : List Step} :
    row.at? (step :: steps) = some inner ↔
      ∃ node below,
        row[step.index]? = some node ∧
          node.region? step.slot = some below ∧
          below.at? steps = some inner := by
  rw [at?]
  constructor
  · intro hAt
    split at hAt
    · cases hAt
    · next node hNode =>
        split at hAt
        · cases hAt
        · next below hBelow =>
            exact ⟨node, below, hNode, hBelow, hAt⟩
  · rintro ⟨node, below, hNode, hBelow, hAt⟩
    simp only [hNode, hBelow, hAt]

/- Steps are taken one after the other. -/
theorem at?_append
    (row : Row ι)
    (steps more : List Step) :
    row.at? (steps ++ more) =
      (row.at? steps).bind (·.at? more) := by
  induction steps generalizing row with
  | nil => rfl
  | cons step steps ih =>
      rw [List.cons_append, at?, at?]
      split
      · rfl
      · split
        · rfl
        · exact ih _

/- A node is the one at an index of the row it is in. -/
theorem nodeAt?_eq_some_iff
    {row : Row ι}
    {path : Path}
    {node : Node ι} :
    row.nodeAt? path = some node ↔
      ∃ inner, row.at? path.steps = some inner ∧
        inner[path.index]? = some node := by
  rw [nodeAt?]
  cases row.at? path.steps <;> simp

/- The row in a slot is the one of the node at the path. -/
theorem at?_stepsInto
    {row : Row ι}
    {path : Path}
    {node : Node ι}
    (hNode : row.nodeAt? path = some node)
    (slot : Slot) :
    row.at? (path.stepsInto slot) = node.region? slot := by
  rcases nodeAt?_eq_some_iff.mp hNode with
    ⟨inner, hAt, hInner⟩
  rw [Path.stepsInto, at?_append, hAt, Option.bind_some]
  simp only [at?, hInner]
  cases node.region? slot <;> rfl

/- A node is reached through a row, or is in this one. -/
theorem nodeAt?_below
    {row below : Row ι}
    {step : Step}
    {node : Node ι}
    (hNode : row[step.index]? = some node)
    (hBelow : node.region? step.slot = some below)
    (path : Path) :
    row.nodeAt? (path.below step) = below.nodeAt? path := by
  simp only [nodeAt?, Path.below, at?, hNode, hBelow]

------------------------------------------------------------
-- Replacing a Row
------------------------------------------------------------

/- A row is replaced inside a node of the row above it. -/
theorem replaceAt?_cons_eq_some_iff
    {row new row' : Row ι}
    {step : Step}
    {steps : List Step} :
    row.replaceAt? new (step :: steps) = some row' ↔
      ∃ left right id below other changed,
        row =
            left ++ step.slot.node id below other :: right ∧
          left.length = step.index ∧
          below.replaceAt? new steps = some changed ∧
          row' =
            left ++ step.slot.node id changed other ::
              right := by
  rw [replaceAt?]
  constructor
  · intro hReplace
    split at hReplace
    · cases hReplace
    · next node hNode =>
        split at hReplace
        · cases hReplace
        · next below hBelow =>
            split at hReplace
            · cases hReplace
            · next changed hChanged =>
                rcases exists_append_of_getElem? hNode with
                  ⟨left, right, hRow, hLength, hSet⟩
                rcases Node.region?_eq_some_iff.mp hBelow with
                  ⟨id, other, rfl⟩
                rw [setRegion?_node, Option.map_some,
                  hSet] at hReplace
                exact ⟨left, right, id, below, other, changed,
                  hRow, hLength, hChanged,
                  (Option.some.inj hReplace).symm⟩
  · rintro ⟨left, right, id, below, other, changed, rfl,
      hLength, hChanged, rfl⟩
    simp [← hLength, hChanged]

/-
  A row that is reached is replaced below the same node that
  it is reached through.
-/
theorem exists_below_of_replaceAt?
    {row old new row' : Row ι}
    {step : Step}
    {steps : List Step}
    (hAt : row.at? (step :: steps) = some old)
    (hReplace :
      row.replaceAt? new (step :: steps) = some row') :
    ∃ left right id below other changed,
      row = left ++ step.slot.node id below other :: right ∧
        left.length = step.index ∧
        below.at? steps = some old ∧
        below.replaceAt? new steps = some changed ∧
        row' =
          left ++ step.slot.node id changed other :: right := by
  rcases replaceAt?_cons_eq_some_iff.mp hReplace with
    ⟨left, right, id, below, other, changed, rfl, hLength,
      hChanged, rfl⟩
  rcases at?_cons_eq_some_iff.mp hAt with
    ⟨node, inner, hNode, hInner, hRest⟩
  rw [← hLength, List.getElem?_append_right (Nat.le_refl _),
    Nat.sub_self, List.getElem?_cons_zero] at hNode
  rcases Option.some.inj hNode with rfl
  rw [region?_node] at hInner
  rcases Option.some.inj hInner with rfl
  exact ⟨left, right, id, below, other, changed, rfl,
    hLength, hRest, hChanged, rfl⟩

/- Every row that is reached can be replaced. -/
theorem exists_replaceAt?
    {row old : Row ι}
    {steps : List Step}
    (hAt : row.at? steps = some old)
    (new : Row ι) :
    ∃ row', row.replaceAt? new steps = some row' := by
  induction steps generalizing row with
  | nil => exact ⟨new, rfl⟩
  | cons step steps ih =>
      rcases at?_cons_eq_some_iff.mp hAt with
        ⟨node, below, hNode, hBelow, hRest⟩
      rcases exists_append_of_getElem? hNode with
        ⟨left, right, hRow, hLength, _⟩
      rcases Node.region?_eq_some_iff.mp hBelow with
        ⟨id, other, rfl⟩
      rcases ih hRest with ⟨changed, hChanged⟩
      exact ⟨_, replaceAt?_cons_eq_some_iff.mpr
        ⟨left, right, id, below, other, changed, hRow,
          hLength, hChanged, rfl⟩⟩

/- What has been put somewhere is found there. -/
theorem at?_replaceAt?
    {row new row' : Row ι}
    {steps : List Step}
    (hReplace : row.replaceAt? new steps = some row') :
    row'.at? steps = some new := by
  induction steps generalizing row row' with
  | nil =>
      rcases Option.some.inj hReplace with rfl
      rfl
  | cons step steps ih =>
      rcases replaceAt?_cons_eq_some_iff.mp hReplace with
        ⟨left, right, id, below, other, changed, _, hLength,
          hChanged, rfl⟩
      refine at?_cons_eq_some_iff.mpr
        ⟨step.slot.node id changed other, changed, ?_,
          region?_node, ih hChanged⟩
      simp [← hLength]

/-
  The node above a replaced row keeps its place and its
  identity.
-/
theorem exists_nodeAt?_of_replaceAt?
    {row new row' : Row ι}
    {path : Path}
    {slot : Slot}
    {node : Node ι}
    (hReplace :
      row.replaceAt? new (path.stepsInto slot) = some row')
    (hNode : row.nodeAt? path = some node) :
    ∃ node', row'.nodeAt? path = some node' ∧
      node'.id? = node.id? := by
  rcases path with ⟨steps, index⟩
  simp only [Path.stepsInto] at hReplace
  induction steps generalizing row row' with
  | nil =>
      rcases replaceAt?_cons_eq_some_iff.mp hReplace with
        ⟨left, right, id, below, other, changed, rfl, hLength,
          _, rfl⟩
      simp only at hLength
      rw [nodeAt?, at?, ← hLength] at hNode
      simp only [List.getElem?_append_right (Nat.le_refl _),
        Nat.sub_self, List.getElem?_cons_zero] at hNode
      rcases Option.some.inj hNode with rfl
      refine ⟨slot.node id changed other, ?_, ?_⟩
      · simp [nodeAt?, ← hLength]
      · rw [id?_node, id?_node]
  | cons step steps ih =>
      rcases replaceAt?_cons_eq_some_iff.mp hReplace with
        ⟨left, right, id, below, other, changed, rfl, hLength,
          hChanged, rfl⟩
      have hAbove :
          ∀ inner,
            (left ++ step.slot.node id inner other ::
                right).nodeAt? ⟨step :: steps, index⟩ =
              inner.nodeAt? ⟨steps, index⟩ := by
        intro inner
        have hHere :
            (left ++ step.slot.node id inner other ::
                right)[step.index]? =
              some (step.slot.node id inner other) := by
          simp [← hLength]
        exact nodeAt?_below hHere region?_node ⟨steps, index⟩
      rw [hAbove] at hNode ⊢
      exact ih hChanged hNode

end Row

------------------------------------------------------------
-- Identities of Replaced Rows
------------------------------------------------------------

@[simp] theorem ids_append
    (row other : Row ι) :
    Row.ids (row ++ other) = Row.ids row ++ Row.ids other := by
  induction row with
  | nil => rfl
  | cons node rest ih =>
      rw [List.cons_append, Row.ids, Row.ids, ih,
        List.append_assoc]

/- The identities of a slot are some of its node's. -/
theorem exists_ids_node
    (slot : Slot)
    (id : ι)
    (other : Row ι) :
    ∃ lead tail, ∀ row,
      (slot.node id row other).ids =
        lead ++ (Row.ids row ++ tail) := by
  rcases slot with ⟨kind, _ | _⟩
  · exact ⟨[id], Row.ids other, fun _ => rfl⟩
  · refine ⟨id :: Row.ids other, [], fun row => ?_⟩
    simp [Slot.node, Node.ids]

/- Only the identities of a replaced row are replaced. -/
theorem Row.ids_replaceAt?
    {row old new row' : Row ι}
    {steps : List Step}
    (hAt : row.at? steps = some old)
    (hReplace : row.replaceAt? new steps = some row') :
    ∃ lead tail,
      Row.ids row = lead ++ (Row.ids old ++ tail) ∧
        Row.ids row' = lead ++ (Row.ids new ++ tail) := by
  induction steps generalizing row row' with
  | nil =>
      rcases Option.some.inj hAt with rfl
      rcases Option.some.inj hReplace with rfl
      exact ⟨[], [], by simp, by simp⟩
  | cons step steps ih =>
      rcases exists_below_of_replaceAt? hAt hReplace with
        ⟨left, right, id, below, other, changed, rfl, _,
          hRest, hChanged, rfl⟩
      rcases ih hRest hChanged with
        ⟨lead, tail, hBelow, hNew⟩
      rcases exists_ids_node step.slot id other with
        ⟨first, last, hIds⟩
      refine ⟨Row.ids left ++ (first ++ lead),
        tail ++ (last ++ Row.ids right), ?_, ?_⟩
      · rw [ids_append, Row.ids, hIds, hBelow]
        simp
      · rw [ids_append, Row.ids, hIds, hNew]
        simp

/- The identities of a row are some of those around it. -/
theorem Row.ids_at?_sublist
    {row inner : Row ι}
    {steps : List Step}
    (hAt : row.at? steps = some inner) :
    (Row.ids inner).Sublist (Row.ids row) := by
  rcases exists_replaceAt? hAt [] with ⟨row', hReplace⟩
  rcases Row.ids_replaceAt? hAt hReplace with
    ⟨lead, tail, hIds, _⟩
  rw [hIds]
  exact (List.sublist_append_left _ tail).trans
    (List.sublist_append_right lead _)

------------------------------------------------------------
-- Addresses
------------------------------------------------------------

mutual

/- The addresses under a node list its identities. -/
theorem map_fst_addresses_node
    (index : Nat) :
    ∀ node : Node ι,
      (node.addresses index).map Prod.fst = node.ids
  | .text _ => rfl
  | .construct kind id first second => by
      have hFirst := map_fst_addressesFrom 0 first
      have hSecond := map_fst_addressesFrom 0 second
      simp only [Node.addresses, Node.ids, List.map_cons,
        List.map_append, List.map_map, ← hFirst, ← hSecond]
      rfl
  | .continuation _ _ => rfl

/- The addresses of a row list its identities. -/
theorem map_fst_addressesFrom
    (index : Nat) :
    ∀ row : Row ι,
      (Row.addressesFrom index row).map Prod.fst = Row.ids row
  | [] => rfl
  | node :: rest => by
      rw [Row.addressesFrom, Row.ids, List.map_append,
        map_fst_addresses_node index node,
        map_fst_addressesFrom (index + 1) rest]

end

/- The addresses of a row list its identities. -/
theorem Row.map_fst_addresses
    (row : Row ι) :
    row.addresses.map Prod.fst = Row.ids row :=
  map_fst_addressesFrom 0 row

/-
  An address under a node is that of the node itself, or is
  below a slot of it.
-/
theorem mem_addresses_node_iff
    {index : Nat}
    {node : Node ι}
    {id : ι}
    {path : Path} :
    (id, path) ∈ node.addresses index ↔
      (path = ⟨[], index⟩ ∧ node.id? = some id) ∨
        ∃ slot below inner,
          path = inner.below ⟨index, slot⟩ ∧
            node.region? slot = some below ∧
            (id, inner) ∈ below.addresses := by
  cases node with
  | text run =>
      simp [Node.addresses, Node.id?, Node.region?]
  | continuation other content =>
      simp [Node.addresses, Node.id?, Node.region?, and_comm,
        eq_comm]
  | construct kind other first second =>
      simp only [Node.addresses, List.mem_cons,
        List.mem_append, List.mem_map]
      constructor
      · rintro ((hHere | ⟨⟨found, inner⟩, hMem, hEq⟩) |
          ⟨⟨found, inner⟩, hMem, hEq⟩)
        · rcases Prod.mk.inj hHere with ⟨rfl, rfl⟩
          exact .inl ⟨rfl, rfl⟩
        · rcases Prod.mk.inj hEq with ⟨rfl, rfl⟩
          refine .inr
            ⟨⟨kind, .first⟩, first, inner, rfl, ?_, hMem⟩
          simp [Node.region?]
        · rcases Prod.mk.inj hEq with ⟨rfl, rfl⟩
          refine .inr
            ⟨⟨kind, .second⟩, second, inner, rfl, ?_, hMem⟩
          simp [Node.region?]
      · rintro (⟨rfl, hId⟩ |
          ⟨slot, below, inner, rfl, hRegion, hMem⟩)
        · rcases Option.some.inj hId with rfl
          exact .inl (.inl rfl)
        · rcases Node.region?_eq_some_iff.mp hRegion with
            ⟨owner, beside, hNode⟩
          rcases slot with ⟨slotKind, _ | _⟩
          · rcases Node.construct.inj hNode with
              ⟨rfl, rfl, rfl, rfl⟩
            exact .inl (.inr ⟨(id, inner), hMem, rfl⟩)
          · rcases Node.construct.inj hNode with
              ⟨rfl, rfl, rfl, rfl⟩
            exact .inr ⟨(id, inner), hMem, rfl⟩

/- An address in a row is under one of its nodes. -/
theorem mem_addressesFrom_iff
    {start : Nat}
    {row : Row ι}
    {entry : ι × Path} :
    entry ∈ Row.addressesFrom start row ↔
      ∃ (index : Nat) (node : Node ι),
        row[index]? = some node ∧
          entry ∈ node.addresses (start + index) := by
  induction row generalizing start with
  | nil => simp [Row.addressesFrom]
  | cons head rest ih =>
      rw [Row.addressesFrom, List.mem_append, ih]
      constructor
      · rintro (hHead | ⟨index, node, hNode, hMem⟩)
        · exact ⟨0, head, rfl, hHead⟩
        · refine ⟨index + 1, node, hNode, ?_⟩
          rwa [Nat.add_assoc, Nat.add_comm 1] at hMem
      · rintro ⟨index, node, hNode, hMem⟩
        cases index with
        | zero =>
            rcases Option.some.inj hNode with rfl
            exact .inl hMem
        | succ index =>
            refine .inr ⟨index, node, hNode, ?_⟩
            rwa [Nat.add_assoc, Nat.add_comm 1]

/- The addresses of a row are where its nodes are. -/
theorem Row.mem_addresses_iff
    {row : Row ι}
    {id : ι}
    {path : Path} :
    (id, path) ∈ row.addresses ↔
      ∃ node, row.nodeAt? path = some node ∧
        node.id? = some id := by
  rcases path with ⟨steps, last⟩
  induction steps generalizing row with
  | nil =>
      rw [addresses, mem_addressesFrom_iff]
      constructor
      · rintro ⟨index, node, hNode, hMem⟩
        rcases mem_addresses_node_iff.mp hMem with
          ⟨hPath, hId⟩ | ⟨_, _, inner, hPath, _⟩
        · rcases Path.mk.inj hPath with ⟨_, rfl⟩
          rw [Nat.zero_add] at *
          exact ⟨node, hNode, hId⟩
        · cases (Path.mk.inj hPath).1
      · rintro ⟨node, hNode, hId⟩
        refine ⟨last, node, hNode,
          mem_addresses_node_iff.mpr (.inl ⟨?_, hId⟩)⟩
        rw [Nat.zero_add]
  | cons step steps ih =>
      rw [addresses, mem_addressesFrom_iff]
      constructor
      · rintro ⟨index, node, hNode, hMem⟩
        rcases mem_addresses_node_iff.mp hMem with
          ⟨hPath, _⟩ |
            ⟨slot, below, inner, hPath, hRegion, hInner⟩
        · cases (Path.mk.inj hPath).1
        · rcases inner with ⟨innerSteps, innerLast⟩
          rcases Path.mk.inj hPath with ⟨hSteps, rfl⟩
          rcases List.cons.inj hSteps with ⟨rfl, rfl⟩
          rcases ih.mp hInner with ⟨found, hFound, hId⟩
          rw [Nat.zero_add] at *
          refine ⟨found, ?_, hId⟩
          rw [← hFound]
          exact nodeAt?_below hNode hRegion ⟨steps, last⟩
      · rintro ⟨found, hFound, hId⟩
        rcases nodeAt?_eq_some_iff.mp hFound with
          ⟨inner, hAt, hInner⟩
        rcases at?_cons_eq_some_iff.mp hAt with
          ⟨node, below, hNode, hRegion, hBelow⟩
        refine ⟨step.index, node, hNode,
          mem_addresses_node_iff.mpr (.inr
            ⟨step.slot, below, ⟨steps, last⟩, ?_, hRegion,
              ih.mpr ⟨found, ?_, hId⟩⟩)⟩
        · rw [Nat.zero_add]
          rfl
        · exact nodeAt?_eq_some_iff.mpr
            ⟨inner, hBelow, hInner⟩

end FormulaEditor
