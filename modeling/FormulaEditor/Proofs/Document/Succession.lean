import FormulaEditor.Proofs.Document.Identities

/-
  This file proves that no identity is ever used again: what
  a document has no node for stays without one in every
  document that comes of it, and the node that an identity
  belongs to never changes its kind.

  Key definitions include:
    * `Node.kind?`
    * `Document.Becomes`
    * `Document.Carries`
    * `Document.Inherits`
    * `Document.Lost`

  Key theorems include:
    * `Document.Edit.inherits`
    * `Document.Becomes.inherits`
    * `Document.identities_never_reused`
-/

namespace FormulaEditor

------------------------------------------------------------
-- Kinds of Nodes
------------------------------------------------------------

section Kinds

variable {ι : Type}

/-
  The kind of a construct.  Of the nodes that have an
  identity only continuations have no kind.
-/
def Node.kind? : Node ι → Option Kind
  | .construct kind _ _ _ => some kind
  | _ => none

@[simp] theorem kind?_node
    {slot : Slot}
    {id : ι}
    {row other : Row ι} :
    (slot.node id row other).kind? = some slot.kind := by
  rcases slot with ⟨kind, _ | _⟩ <;> rfl

/- What is said of identities and kinds is said of cells. -/
theorem Node.isCellwise_id?
    (holds : ι → Option Kind → Prop) :
    Node.IsCellwise fun node : Node ι =>
      ∀ id, node.id? = some id → holds id node.kind? where
  text run := by simp [Node.id?]
  slot slot id below below' other hNode := by
    simpa using hNode

end Kinds

namespace Document

------------------------------------------------------------
-- What Comes of a Document
------------------------------------------------------------

/-
  What a document becomes when something else is read in
  its place, when identities are handed out, to nodes or by
  themselves, and when an intent is applied.
-/
inductive Becomes
    (document : Document) :
    Document → Prop where
  | reread (s : Text) : Becomes document (document.reread s)
  | allocate : Becomes document document.allocate.2
  | adopt (content : Node Unit) :
      Becomes document (document.adopt content).2
  | apply
      (settings : Settings)
      (caret : Caret)
      (intent : Intent) :
      Becomes document
        (Editor.apply settings ⟨document, caret⟩
          intent).1.document

/- What a document becomes sooner or later. -/
abbrev Later : Document → Document → Prop :=
  Relation.ReflTransGen Becomes

------------------------------------------------------------
-- Inherited Identities
------------------------------------------------------------

/- A node of a document has an identity and is of a kind. -/
def Carries
    (document : Document)
    (id : Identity)
    (kind? : Option Kind) :
    Prop :=
  ∃ path node, document.nodeAt? path = some node ∧
    node.id? = some id ∧ node.kind? = kind?

/-
  A document inherits the identities of another: each one
  that is not new belonged to a node of the same kind.
-/
structure Inherits
    (document changed : Document) :
    Prop where
  next : document.next ≤ changed.next
  carries :
    ∀ id kind?, changed.Carries id kind? →
      id < document.next → document.Carries id kind?

/- Every document inherits from itself. -/
theorem Inherits.refl
    (document : Document) :
    document.Inherits document where
  next := Nat.le_refl _
  carries _ _ hCarries _ := hCarries

/- Handing out identities changes no node. -/
theorem inherits_later
    {document : Document}
    {next : Identity}
    (hNext : document.next ≤ next) :
    document.Inherits { document with next } where
  next := hNext
  carries _ _ hCarries _ := hCarries

/- What is inherited is inherited further. -/
theorem Inherits.trans
    {document changed later : Document}
    (hFirst : document.Inherits changed)
    (hSecond : changed.Inherits later) :
    document.Inherits later where
  next := Nat.le_trans hFirst.next hSecond.next
  carries id kind? hCarries hLess :=
    hFirst.carries id kind?
      (hSecond.carries id kind? hCarries
        (Nat.lt_of_lt_of_le hLess hFirst.next))
      hLess

/- Documents are compared by what holds of all their nodes. -/
theorem inherits_of_throughout
    {document changed : Document}
    (hNext : document.next ≤ changed.next)
    (hAll :
      changed.root.Throughout fun node =>
        ∀ id, node.id? = some id →
          id < document.next →
            document.Carries id node.kind?) :
    document.Inherits changed where
  next := hNext
  carries := by
    rintro id _ ⟨path, node, hNode, hId, rfl⟩ hLess
    rcases Row.nodeAt?_eq_some_iff.mp hNode with
      ⟨inner, hAt, hHere⟩
    exact hAll path.steps inner hAt node
      (List.mem_of_getElem? hHere) id hId hLess

/- New identities need not be inherited. -/
theorem throughout_of_fresh
    {document : Document}
    {row : Row Identity}
    (hFresh : ∀ id ∈ Row.ids row, document.next ≤ id) :
    row.Throughout fun node =>
      ∀ id, node.id? = some id →
        id < document.next →
          document.Carries id node.kind? := by
  intro steps inner hAt node hMem id hId hLess
  rcases List.getElem?_of_mem hMem with ⟨index, hHere⟩
  have hNode : row.nodeAt? ⟨steps, index⟩ = some node :=
    Row.nodeAt?_eq_some_iff.mpr ⟨inner, hAt, hHere⟩
  have hIn : id ∈ Row.ids row :=
    Row.mem_ids_iff.mpr ⟨⟨steps, index⟩, node, hNode, hId⟩
  exact absurd hLess (Nat.not_lt_of_ge (hFresh id hIn))

/- What an edit adds is new, and the rest is inherited. -/
theorem Edit.inherits
    {adds : List (Node Unit)}
    {document changed : Document}
    (hEdit : Edit adds document changed) :
    document.Inherits changed := by
  refine inherits_of_throughout ?_ ?_
  · cases hEdit with
    | later hNext => exact hNext
    | rewrite => exact Nat.le_add_right _ _
  · refine hEdit.throughout
      (Node.isCellwise_id? fun id kind? =>
        id < document.next → document.Carries id kind?)
      ?_ ?_
    · intro node _ next hNext
      refine throughout_of_fresh fun id hMem => ?_
      rw [Row.ids, Row.ids, List.append_nil,
        Node.ids_number, List.mem_range'_1] at hMem
      exact Nat.le_trans hNext hMem.1
    · intro steps inner hAt node hMem id hId _
      rcases List.getElem?_of_mem hMem with ⟨index, hNode⟩
      exact ⟨⟨steps, index⟩, node,
        Row.nodeAt?_eq_some_iff.mpr ⟨inner, hAt, hNode⟩,
        hId, rfl⟩

/- So it is after any number of edits. -/
theorem Edits.inherits
    {adds : List (Node Unit)}
    {document changed : Document}
    (hEdits : Edits adds document changed) :
    document.Inherits changed := by
  induction hEdits with
  | refl => exact .refl document
  | tail _ hEdit ih => exact ih.trans hEdit.inherits

/- All identities of a document that is read anew are new. -/
theorem next_le_of_mem_ids_reread
    {document : Document}
    {s : Text}
    {id : Identity}
    (hMem : id ∈ Row.ids (document.reread s).root) :
    document.next ≤ id := by
  change
    id ∈ Row.ids (Row.number document.next (Row.ofText s))
    at hMem
  rw [Row.ids_number, List.mem_range'_1] at hMem
  exact hMem.1

/- Whatever a document becomes inherits from it. -/
theorem Becomes.inherits
    {document changed : Document}
    (hBecomes : document.Becomes changed) :
    document.Inherits changed := by
  cases hBecomes with
  | reread s =>
      exact inherits_of_throughout (Nat.le_add_right _ _)
        (throughout_of_fresh fun _ =>
          next_le_of_mem_ids_reread)
  | allocate => exact inherits_later (Nat.le_add_right _ _)
  | adopt content =>
      exact inherits_later (Nat.le_add_right _ _)
  | apply settings caret intent =>
      exact (Editor.edits_apply settings ⟨document, caret⟩
        intent).inherits

/- So does whatever it becomes later. -/
theorem Later.inherits
    {document later : Document}
    (hLater : document.Later later) :
    document.Inherits later := by
  induction hLater with
  | refl => exact .refl document
  | tail _ hBecomes ih => exact ih.trans hBecomes.inherits

------------------------------------------------------------
-- Lost Identities
------------------------------------------------------------

/- An identity leads to no path, construct or region. -/
structure Lost
    (document : Document)
    (id : Identity) :
    Prop where
  path : document.path? id = none
  owner : document.owner? id = none
  region : ∀ slot, document.region? (.slot id slot) = none

/- An identity that no node carries is lost. -/
theorem lost_of_not_carries
    {document : Document}
    {id : Identity}
    (hNone : ∀ kind?, ¬ document.Carries id kind?) :
    document.Lost id := by
  have hPath : document.path? id = none := by
    rw [Option.eq_none_iff_forall_not_mem]
    intro path hPath
    rcases exists_nodeAt?_of_path? hPath with
      ⟨node, hNode, hId⟩
    exact hNone node.kind? ⟨path, node, hNode, hId, rfl⟩
  refine ⟨hPath, ?_, ?_⟩
  · rw [owner?, hPath]
  · intro slot
    rw [region?, stepsTo?, hPath]
    rfl

/- Once it is lost, an identity that is not new stays so. -/
theorem Inherits.lost
    {document later : Document}
    (hInherits : document.Inherits later)
    {id : Identity}
    (hLess : id < document.next)
    (hGone : id ∉ Row.ids document.root) :
    later.Lost id := by
  refine lost_of_not_carries fun kind? hCarries => ?_
  rcases hInherits.carries id kind? hCarries hLess with
    ⟨path, node, hNode, hId, _⟩
  exact hGone (Row.mem_ids_iff.mpr ⟨path, node, hNode, hId⟩)

/-
  Where identities are distinct, the node that carries one
  of them is the one that it leads to.
-/
theorem Carries.kind?_eq
    {document : Document}
    (hNodup : (Row.ids document.root).Nodup)
    {id : Identity}
    {kind? : Option Kind}
    (hCarries : document.Carries id kind?)
    {path : Path}
    {node : Node Identity}
    (hPath : document.path? id = some path)
    (hNode : document.nodeAt? path = some node) :
    kind? = node.kind? := by
  rcases hCarries with ⟨path', node', hNode', hId, rfl⟩
  have hPath' : document.path? id = some path' :=
    (path?_eq_some_iff hNodup).mpr ⟨node', hNode', hId⟩
  rw [hPath] at hPath'
  rcases Option.some.inj hPath' with rfl
  rw [hNode] at hNode'
  rw [Option.some.inj hNode']

/-
  No identity is ever used again.  If no node has one that
  has been handed out, or passed over, it leads nowhere in
  whatever the document becomes; and as long as one leads to
  a node, that is of the same kind.  When something else is
  read in place of a document, every identity from before is
  lost for good.
-/
theorem identities_never_reused
    {document later : Document}
    (hReachable : document.Reachable)
    (hLater : document.Later later) :
    (∀ id < document.next, id ∉ Row.ids document.root →
      later.Lost id) ∧
    (∀ id path path' node node',
      document.path? id = some path →
      document.nodeAt? path = some node →
      later.path? id = some path' →
      later.nodeAt? path' = some node' →
      node'.kind? = node.kind?) ∧
    ∀ s reread, (document.reread s).Later reread →
      ∀ id < document.next, reread.Lost id := by
  have hSound := hReachable.sound
  refine ⟨?_, ?_, ?_⟩
  · intro id hLess hGone
    exact hLater.inherits.lost hLess hGone
  · intro id path path' node node' hPath hNode hPath' hNode'
    have hLess : id < document.next := by
      rcases exists_nodeAt?_of_path? hPath with
        ⟨found, hFound, hId⟩
      exact hSound.fresh id
        (Row.mem_ids_iff.mpr ⟨path, found, hFound, hId⟩)
    have hCarries : later.Carries id node'.kind? := by
      rcases exists_nodeAt?_of_path? hPath' with
        ⟨found, hFound, hId⟩
      rw [nodeAt?, hFound] at hNode'
      rcases Option.some.inj hNode' with rfl
      exact ⟨path', found, hFound, hId, rfl⟩
    exact (hLater.inherits.carries id _ hCarries
      hLess).kind?_eq hSound.nodup hPath hNode
  · intro s reread hReread id hLess
    refine hReread.inherits.lost ?_ ?_
    · exact Nat.lt_of_lt_of_le hLess (Nat.le_add_right _ _)
    · intro hMem
      exact Nat.not_lt_of_ge (next_le_of_mem_ids_reread hMem)
        hLess

/-
  A fraction that has been deleted stays lost when another
  one is put in its place.
-/
theorem lost_after_deletion :
    ∃ document later : Document,
      document.Reachable ∧ document.Later later ∧
        0 < document.next ∧ 0 ∉ Row.ids document.root ∧
        Row.ids later.root = [1] ∧ later.Lost 0 := by
  have hReachable :=
    (Reachable.empty.apply .standard .start .fraction).apply
      .standard ⟨.slot 0 .numerator, 0, 0, false⟩ .backspace
  have hLater :=
    fun document =>
      Relation.ReflTransGen.single
        (@Becomes.apply document .standard .start .fraction)
  refine ⟨_, _, hReachable, hLater _, ?_, ?_, ?_, ?_⟩
  · decide +kernel
  · decide +kernel
  · decide +kernel
  · exact (identities_never_reused hReachable (hLater _)).1 0
      (by decide +kernel) (by decide +kernel)

end Document

end FormulaEditor
