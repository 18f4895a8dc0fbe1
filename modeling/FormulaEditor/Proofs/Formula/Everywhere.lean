import FormulaEditor.Proofs.Formula.Numbering
import FormulaEditor.Proofs.Formula.Spelling

/-
  This file defines what it means that something holds of
  every row of a tree, or of every node, at any depth, and
  proves that no run of a text that has been read is empty.

  Key definitions include:
    * `Row.Everywhere`
    * `Row.Throughout`
    * `Row.IsSolid`

  Key theorems include:
    * `Row.everywhere_iff`
    * `Row.Everywhere.replaceAt?`
    * `Row.everywhere_ofText`
    * `Row.tree_induction`
    * `Row.throughout_iff`
    * `Row.everywhere_isSolid_ofText`
-/

namespace FormulaEditor

variable {ι : Type}

namespace Row

------------------------------------------------------------
-- Every Row of a Tree
------------------------------------------------------------

/- Something holds of a row and of every row in it. -/
def Everywhere
    (holds : Row ι → Prop)
    (row : Row ι) :
    Prop :=
  ∀ steps inner, row.at? steps = some inner → holds inner

section Everywhere

variable {holds : Row ι → Prop}

/- The rows of a tree are its own and those of its nodes. -/
theorem everywhere_iff
    {row : Row ι} :
    row.Everywhere holds ↔
      holds row ∧
        ∀ node ∈ row, ∀ slot below,
          node.region? slot = some below →
            Everywhere holds below := by
  constructor
  · intro hAll
    refine ⟨hAll [] row rfl, ?_⟩
    intro node hMem slot below hRegion steps inner hAt
    rcases List.getElem?_of_mem hMem with ⟨index, hNode⟩
    exact hAll (⟨index, slot⟩ :: steps) inner
      (at?_cons_eq_some_iff.mpr
        ⟨node, below, hNode, hRegion, hAt⟩)
  · rintro ⟨hRow, hBelow⟩ steps inner hAt
    cases steps with
    | nil =>
        rcases Option.some.inj hAt with rfl
        exact hRow
    | cons step steps =>
        rcases at?_cons_eq_some_iff.mp hAt with
          ⟨node, below, hNode, hRegion, hRest⟩
        exact hBelow node (List.mem_of_getElem? hNode)
          step.slot below hRegion steps inner hRest

/- What holds of every row of a tree holds below a node. -/
theorem Everywhere.below
    {row below : Row ι}
    (hAll : row.Everywhere holds)
    {node : Node ι}
    (hMem : node ∈ row)
    {slot : Slot}
    (hRegion : node.region? slot = some below) :
    below.Everywhere holds :=
  (everywhere_iff.mp hAll).2 node hMem slot below hRegion

/- What holds of every row of a tree holds further down. -/
theorem Everywhere.at?
    {row inner : Row ι}
    (hAll : row.Everywhere holds)
    {steps : List Step}
    (hAt : row.at? steps = some inner) :
    inner.Everywhere holds := by
  intro more last hLast
  refine hAll (steps ++ more) last ?_
  rw [at?_append, hAt]
  exact hLast

/-
  What holds of every row of a tree, and does not depend on
  what the slots of a row hold, still does when a row is
  replaced by another tree that it holds of.
-/
theorem Everywhere.replaceAt?
    (hShape :
      ∀ left right slot id below below' other,
        holds
            (left ++
              Slot.node slot id below other :: right) →
          holds
            (left ++
              Slot.node slot id below' other :: right))
    {row new row' : Row ι}
    {steps : List Step}
    (hRow : row.Everywhere holds)
    (hNew : new.Everywhere holds)
    (hReplace : row.replaceAt? new steps = some row') :
    row'.Everywhere holds := by
  induction steps generalizing row row' with
  | nil =>
      rcases Option.some.inj hReplace with rfl
      exact hNew
  | cons step steps ih =>
      rcases replaceAt?_cons_eq_some_iff.mp hReplace with
        ⟨left, right, id, below, other, changed, rfl, _,
          hChanged, rfl⟩
      have hMem :
          step.slot.node id below other ∈
            left ++ step.slot.node id below other :: right :=
        List.mem_append_right _ (List.mem_cons_self ..)
      have hBelow : changed.Everywhere holds :=
        ih (hRow.below hMem region?_node) hChanged
      refine everywhere_iff.mpr ⟨?_, ?_⟩
      · exact hShape left right step.slot id below changed
          other (everywhere_iff.mp hRow).1
      · intro node hNode slot inner hRegion
        rcases List.mem_append.mp hNode with hLeft | hNode
        · exact hRow.below (List.mem_append_left _ hLeft)
            hRegion
        · rcases List.mem_cons.mp hNode with rfl | hRight
          · -- The other row of the construct is as it was.
            by_cases hSlot : slot = step.slot
            · rw [hSlot, region?_node] at hRegion
              rcases Option.some.inj hRegion with rfl
              exact hBelow
            · rw [region?_node_of_ne hSlot id changed below]
                at hRegion
              exact hRow.below hMem hRegion
          · exact hRow.below
              (List.mem_append_right _
                (List.mem_cons_of_mem _ hRight))
              hRegion

end Everywhere

/-
  What holds of plain text, and of a text that has a
  construct if it holds of what follows the construct, holds
  of every row of a text that has been read.
-/
theorem everywhere_ofText
    {holds : Row Unit → Prop}
    (hPlain : ∀ s, holds (ofPlain s))
    (hConstruct :
      ∀ s before spelled,
        firstSpelled? s = some (before, spelled) →
        holds (ofText spelled.rest) → holds (ofText s))
    (s : Text) :
    (ofText s).Everywhere holds := by
  induction s using reading_induction with
  | plain s hNone =>
      rw [ofText_of_none hNone]
      refine everywhere_iff.mpr ⟨hPlain s, ?_⟩
      intro node hMem slot below hRegion
      rw [region?_of_mem_ofPlain hMem] at hRegion
      cases hRegion
  | construct s before spelled hFirst
      ihFirst ihSecond ihRest =>
      rcases everywhere_iff.mp ihRest with ⟨hRest, hBelow⟩
      refine everywhere_iff.mpr
        ⟨hConstruct s before spelled hFirst hRest, ?_⟩
      rw [ofText_of_some hFirst]
      intro node hMem slot below hRegion
      rcases List.mem_append.mp hMem with hMem | hMem
      · rw [region?_of_mem_ofPlain hMem] at hRegion
        cases hRegion
      · rcases List.mem_cons.mp hMem with rfl | hMem
        · rcases Node.region?_eq_some_iff.mp hRegion with
            ⟨id, other, hNode⟩
          rcases slot with ⟨kind, _ | _⟩
          · rcases Node.construct.inj hNode with
              ⟨_, _, rfl, _⟩
            exact ihFirst
          · rcases Node.construct.inj hNode with
              ⟨_, _, _, rfl⟩
            exact ihSecond
        · exact hBelow node hMem slot below hRegion

/- What numbering does not change holds of a numbered tree. -/
theorem everywhere_number
    {holds : Row ι → Prop}
    {holds' : Row Identity → Prop}
    (hNumber :
      ∀ {row : Row ι}, holds row →
        ∀ next, holds' (Row.number next row))
    {row : Row ι}
    (hAll : row.Everywhere holds)
    (next : Identity) :
    (Row.number next row).Everywhere holds' := by
  intro steps inner hAt
  rcases exists_of_at?_number hAt with
    ⟨first, below, hBelow, rfl⟩
  exact hNumber (hAll steps below hBelow) first

------------------------------------------------------------
-- Every Node of a Tree
------------------------------------------------------------

/-
  Induction along a row and the rows of its constructs, one
  case for every kind of node that it may start with.
-/
@[elab_as_elim]
theorem tree_induction
    {motive : Row ι → Prop}
    (nil : motive [])
    (text :
      ∀ run rest, motive rest → motive (.text run :: rest))
    (construct :
      ∀ kind id first second rest,
        motive first → motive second → motive rest →
          motive (.construct kind id first second :: rest))
    (continuation :
      ∀ id content rest, motive rest →
        motive (.continuation id content :: rest)) :
    ∀ row, motive row
  | [] => nil
  | .text run :: rest =>
      text run rest
        (tree_induction nil text construct continuation rest)
  | .construct kind id first second :: rest =>
      construct kind id first second rest
        (tree_induction nil text construct continuation first)
        (tree_induction nil text construct continuation second)
        (tree_induction nil text construct continuation rest)
  | .continuation id content :: rest =>
      continuation id content rest
        (tree_induction nil text construct continuation rest)

/- Something holds of every node of a tree, at any depth. -/
def Throughout
    (holds : Node ι → Prop)
    (row : Row ι) :
    Prop :=
  row.Everywhere fun inner => ∀ node ∈ inner, holds node

section Throughout

variable {holds : Node ι → Prop} {node : Node ι}
variable {row rest : Row ι}

/- The nodes of a tree are its own and those in them. -/
theorem throughout_iff :
    Throughout holds row ↔
      ∀ node ∈ row, holds node ∧
        ∀ slot below, node.region? slot = some below →
          Throughout holds below := by
  rw [Throughout, everywhere_iff]
  constructor
  · rintro ⟨hRow, hBelow⟩ node hMem
    exact ⟨hRow node hMem, hBelow node hMem⟩
  · intro hAll
    exact ⟨fun node hMem => (hAll node hMem).1,
      fun node hMem => (hAll node hMem).2⟩

/- The nodes of a tree, around those of its first node. -/
theorem throughout_cons :
    Throughout holds (node :: rest) ↔
      (holds node ∧
        ∀ slot below, node.region? slot = some below →
          Throughout holds below) ∧
        Throughout holds rest := by
  rw [throughout_iff, List.forall_mem_cons, ← throughout_iff]

/- The nodes of two trees. -/
theorem throughout_append :
    Throughout holds (row ++ rest) ↔
      Throughout holds row ∧ Throughout holds rest := by
  rw [throughout_iff, List.forall_mem_append,
    ← throughout_iff, ← throughout_iff]

/- What holds of all nodes of a tree holds of some of them. -/
theorem Throughout.of_subset
    (hAll : Throughout holds rest)
    (hSubset : row ⊆ rest) :
    Throughout holds row :=
  throughout_iff.mpr fun node hMem =>
    throughout_iff.mp hAll node (hSubset hMem)

section Nodes

variable (row)

theorem throughout_nil :
    Throughout holds ([] : Row ι) :=
  throughout_iff.mpr fun _ hMem => by cases hMem

theorem throughout_text_cons
    (run : Text) :
    Throughout holds (.text run :: row) ↔
      holds (.text run) ∧ Throughout holds row := by
  simp [throughout_cons, Node.region?]

theorem throughout_continuation_cons
    (id : ι)
    (content : Text) :
    Throughout holds (.continuation id content :: row) ↔
      holds (.continuation id content) ∧
        Throughout holds row := by
  simp [throughout_cons, Node.region?]

theorem throughout_construct_cons
    (kind : Kind)
    (id : ι)
    (first second : Row ι) :
    Throughout holds
        (.construct kind id first second :: row) ↔
      holds (.construct kind id first second) ∧
        Throughout holds first ∧ Throughout holds second ∧
          Throughout holds row := by
  have hBelow :
      (∀ slot below,
          (Node.construct kind id first second).region? slot =
              some below →
            Throughout holds below) ↔
        Throughout holds first ∧ Throughout holds second := by
    constructor
    · intro hBelow
      exact ⟨hBelow ⟨kind, .first⟩ first
          (by simp [Node.region?]),
        hBelow ⟨kind, .second⟩ second
          (by simp [Node.region?])⟩
    · rintro ⟨hFirst, hSecond⟩ ⟨_, side⟩ below hRegion
      simp only [Node.region?] at hRegion
      split at hRegion
      · cases side with
        | first =>
            rcases Option.some.inj hRegion with rfl
            exact hFirst
        | second =>
            rcases Option.some.inj hRegion with rfl
            exact hSecond
      · cases hRegion
  rw [throughout_cons, hBelow]
  simp only [and_assoc]

end Nodes

end Throughout

/- What numbering does not change in a node, in any of them. -/
theorem throughout_number
    {holds : Node ι → Prop}
    {holds' : Node Identity → Prop}
    (hNumber :
      ∀ {node : Node ι}, holds node →
        ∀ next, holds' (node.number next))
    {row : Row ι}
    (hAll : row.Throughout holds)
    (next : Identity) :
    (Row.number next row).Throughout holds' := by
  refine everywhere_number ?_ hAll next
  intro inner hInner start node hMem
  rcases List.getElem?_of_mem hMem with ⟨index, hNode⟩
  rcases exists_of_getElem?_number hNode with
    ⟨first, source, hSource, rfl⟩
  exact hNumber (hInner source (List.mem_of_getElem? hSource))
    first

------------------------------------------------------------
-- Solid Rows
------------------------------------------------------------

/- No run of a row is empty. -/
def IsSolid
    (row : Row ι) :
    Prop :=
  ∀ node ∈ row, node ≠ .text []

section Solid

variable {node : Node ι} {row other : Row ι}

@[simp] theorem isSolid_nil :
    IsSolid ([] : Row ι) := by
  intro node hMem
  cases hMem

@[simp] theorem isSolid_cons :
    IsSolid (node :: row) ↔ node ≠ .text [] ∧ IsSolid row :=
  List.forall_mem_cons

@[simp] theorem isSolid_append :
    IsSolid (row ++ other) ↔ IsSolid row ∧ IsSolid other :=
  List.forall_mem_append

@[simp] theorem isSolid_reverse :
    IsSolid row.reverse ↔ IsSolid row := by
  simp only [IsSolid, List.mem_reverse]

end Solid

/- A row of a construct does not show in the row above. -/
theorem isSolid_of_node
    {left right : Row ι}
    {slot : Slot}
    {id : ι}
    {below below' other : Row ι}
    (hSolid :
      IsSolid (left ++ slot.node id below other :: right)) :
    IsSolid (left ++ slot.node id below' other :: right) := by
  rw [isSolid_append, isSolid_cons] at hSolid ⊢
  refine ⟨hSolid.1, ?_, hSolid.2.2⟩
  rcases slot with ⟨kind, _ | _⟩ <;>
    · intro hText
      cases hText

/- Plain text is read as a run only if some of it is left. -/
theorem isSolid_ofPlain
    (s : Text) :
    IsSolid (ofPlain s) := by
  intro node hMem hText
  unfold ofPlain at hMem
  split at hMem
  · cases hMem
  · rw [hText] at hMem
    cases List.mem_singleton.mp hMem

/- No run of a text that has been read is empty. -/
theorem everywhere_isSolid_ofText
    (s : Text) :
    (ofText s).Everywhere IsSolid := by
  refine everywhere_ofText isSolid_ofPlain ?_ s
  intro s before spelled hFirst hRest
  rw [ofText_of_some hFirst, isSolid_append, isSolid_cons]
  refine ⟨isSolid_ofPlain before, ?_, hRest⟩
  intro hText
  cases hText

/- Numbering a row leaves its runs as they are. -/
theorem isSolid_number
    {row : Row ι}
    (hSolid : IsSolid row)
    (next : Identity) :
    IsSolid (Row.number next row) := by
  intro node hMem hText
  rcases List.getElem?_of_mem hMem with ⟨index, hNode⟩
  rcases exists_of_getElem?_number hNode with
    ⟨first, inner, hInner, hEq⟩
  rw [hText] at hEq
  cases inner with
  | text run =>
      rcases Node.text.inj hEq with rfl
      exact hSolid _ (List.mem_of_getElem? hInner) rfl
  | construct => cases hEq
  | continuation => cases hEq

/- No run of a tree that has been numbered is empty. -/
theorem everywhere_isSolid_number
    {row : Row ι}
    (hSolid : row.Everywhere IsSolid)
    (next : Identity) :
    (Row.number next row).Everywhere IsSolid :=
  everywhere_number isSolid_number hSolid next

------------------------------------------------------------
-- Identities of Fewer Nodes
------------------------------------------------------------

/- Fewer nodes have fewer identities. -/
theorem ids_sublist
    {row other : Row ι}
    (hSublist : row.Sublist other) :
    (Row.ids row).Sublist (Row.ids other) := by
  induction hSublist with
  | slnil => exact List.Sublist.refl _
  | cons node _ ih =>
      exact ih.trans (List.sublist_append_right _ _)
  | cons_cons node _ ih => exact ih.append_left _

end Row

end FormulaEditor
