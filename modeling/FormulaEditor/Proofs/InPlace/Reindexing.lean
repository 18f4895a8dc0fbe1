import FormulaEditor.Proofs.Document.Indexing
import FormulaEditor.Proofs.InPlace.Workspace

/-
  This file proves that an index that is made anew finds of
  every identity the last node in document order that has
  it, whether identities are repeated or not and whatever
  was indexed before.

  Key definitions include:
    * `Path.rank`
    * `Row.enter`
    * `Row.HasLastAt`

  Key theorems include:
    * `pairwise_addressesFrom`
    * `Row.enter_eq`
    * `Index.path?_ofRow_eq_some_iff`
    * `InPlace.Workspace.reindex_finds_last`
-/

namespace FormulaEditor

------------------------------------------------------------
-- Document Order
------------------------------------------------------------

/- The first row of a construct comes before the second. -/
def Side.rank : Side → Nat
  | .first => 0
  | .second => 1

/-
  Paths are in document order when their ranks are in
  lexicographic order: a node comes before whatever is in
  its rows, what is in its first row before what is in its
  second, and all that before the nodes that follow.
-/
def Path.rank
    (path : Path) :
    List Nat :=
  (path.steps.flatMap fun step =>
    [step.index, step.slot.side.rank]) ++ [path.index]

/- The rank of a path that is reached through a step. -/
theorem rank_below
    (step : Step)
    (path : Path) :
    (path.below step).rank =
      step.index :: step.slot.side.rank :: path.rank :=
  rfl

section Order

variable {ι : Type}

/- The addresses under a node rank by the node first. -/
theorem head?_rank_of_mem_addresses
    {index : Nat}
    {node : Node ι}
    {entry : ι × Path}
    (hMem : entry ∈ node.addresses index) :
    entry.2.rank.head? = some index := by
  rcases mem_addresses_node_iff.mp hMem with
    ⟨hPath, _⟩ | ⟨slot, below, inner, hPath, _⟩
  · rw [hPath]
    rfl
  · rw [hPath]
    rfl

/- The addresses in a row rank by where the row starts. -/
theorem exists_head?_rank
    {start : Nat}
    {row : Row ι}
    {entry : ι × Path}
    (hMem : entry ∈ Row.addressesFrom start row) :
    ∃ index ≥ start, entry.2.rank.head? = some index := by
  rcases mem_addressesFrom_iff.mp hMem with
    ⟨index, node, _, hNode⟩
  exact ⟨start + index, Nat.le_add_right start index,
    head?_rank_of_mem_addresses hNode⟩

/- A lesser first number makes a lesser rank. -/
theorem lt_of_head?
    {ranks ranks' : List Nat}
    {first first' : Nat}
    (hFirst : ranks.head? = some first)
    (hFirst' : ranks'.head? = some first')
    (hLess : first < first') :
    ranks < ranks' := by
  rcases List.head?_eq_some_iff.mp hFirst with ⟨rest, rfl⟩
  rcases List.head?_eq_some_iff.mp hFirst' with ⟨rest', rfl⟩
  exact List.cons_lt_cons_iff.mpr (.inl hLess)

/- Addresses keep their order through one more step. -/
theorem pairwise_map_addressBelow
    {entries : List (ι × Path)}
    (hOrdered :
      entries.Pairwise fun entry later =>
        entry.2.rank < later.2.rank)
    (step : Step) :
    (entries.map (addressBelow step)).Pairwise
      fun entry later => entry.2.rank < later.2.rank := by
  rw [List.pairwise_map]
  refine hOrdered.imp fun {entry later} hLess => ?_
  rw [addressBelow, addressBelow, rank_below, rank_below]
  exact List.cons_lt_cons_iff.mpr (.inr
    ⟨rfl, List.cons_lt_cons_iff.mpr (.inr ⟨rfl, hLess⟩)⟩)

/- An address that takes a step ranks by that step. -/
theorem exists_rank_of_mem_map
    {entries : List (ι × Path)}
    {step : Step}
    {entry : ι × Path}
    (hMem : entry ∈ entries.map (addressBelow step)) :
    ∃ rest,
      entry.2.rank =
        step.index :: step.slot.side.rank :: rest := by
  rcases List.mem_map.mp hMem with ⟨inner, _, rfl⟩
  exact ⟨inner.2.rank, rank_below step inner.2⟩

mutual

/- The addresses under a node are in document order. -/
theorem pairwise_addresses_node
    (index : Nat) :
    ∀ node : Node ι,
      (node.addresses index).Pairwise fun entry later =>
        entry.2.rank < later.2.rank
  | .text _ => .nil
  | .construct kind id first second => by
      have hFirst :=
        pairwise_map_addressBelow
          (pairwise_addressesFrom 0 first)
          ⟨index, ⟨kind, .first⟩⟩
      have hSecond :=
        pairwise_map_addressBelow
          (pairwise_addressesFrom 0 second)
          ⟨index, ⟨kind, .second⟩⟩
      rw [Node.addresses, List.pairwise_append,
        List.pairwise_cons]
      refine ⟨⟨?_, hFirst⟩, hSecond, ?_⟩
      · intro entry hMem
        rcases exists_rank_of_mem_map hMem with ⟨rest, hRank⟩
        rw [hRank]
        exact List.cons_lt_cons_iff.mpr
          (.inr ⟨rfl, List.nil_lt_cons _ _⟩)
      · intro entry hMem later hLater
        rcases exists_rank_of_mem_map hLater with
          ⟨rest, hRank⟩
        rw [hRank]
        rcases List.mem_cons.mp hMem with rfl | hMem
        · exact List.cons_lt_cons_iff.mpr
            (.inr ⟨rfl, List.nil_lt_cons _ _⟩)
        · rcases exists_rank_of_mem_map hMem with
            ⟨rest', hRank'⟩
          rw [hRank']
          exact List.cons_lt_cons_iff.mpr
            (.inr ⟨rfl,
              List.cons_lt_cons_iff.mpr (.inl Nat.one_pos)⟩)
  | .continuation _ _ => List.pairwise_singleton _ _

/- The addresses in a row are in document order. -/
theorem pairwise_addressesFrom
    (start : Nat) :
    ∀ row : Row ι,
      (Row.addressesFrom start row).Pairwise
        fun entry later => entry.2.rank < later.2.rank
  | [] => .nil
  | node :: rest => by
      rw [Row.addressesFrom, List.pairwise_append]
      refine ⟨pairwise_addresses_node start node,
        pairwise_addressesFrom (start + 1) rest, ?_⟩
      intro entry hMem later hLater
      rcases exists_head?_rank hLater with
        ⟨index, hIndex, hHead⟩
      exact lt_of_head? (head?_rank_of_mem_addresses hMem)
        hHead hIndex

end

end Order

------------------------------------------------------------
-- Entering Identities
------------------------------------------------------------

mutual

/-
  Enter the identities under a node that steps and an index
  lead to, the node before its rows, and each in front of
  what has been entered so far.
-/
def Node.enter
    (steps : List Step)
    (index : Nat)
    (entries : List (Identity × Path)) :
    Node Identity → List (Identity × Path)
  | .text _ => entries
  | .construct kind id first second =>
      Row.enter (steps ++ [⟨index, ⟨kind, .second⟩⟩]) 0
        (Row.enter (steps ++ [⟨index, ⟨kind, .first⟩⟩]) 0
          ((id, ⟨steps, index⟩) :: entries) first)
        second
  | .continuation id _ => (id, ⟨steps, index⟩) :: entries

/- Enter the identities in a row that steps lead to. -/
def Row.enter
    (steps : List Step)
    (index : Nat)
    (entries : List (Identity × Path)) :
    Row Identity → List (Identity × Path)
  | [] => entries
  | node :: rest =>
      Row.enter steps (index + 1)
        (node.enter steps index entries) rest

end

/- A step before an address is one more step to it. -/
theorem map_addressUnder_addressBelow
    {ι : Type}
    (steps : List Step)
    (step : Step)
    (entries : List (ι × Path)) :
    (entries.map (addressBelow step)).map
        (addressUnder steps) =
      entries.map (addressUnder (steps ++ [step])) := by
  rw [List.map_map]
  refine List.map_congr_left fun entry _ => ?_
  simp [addressUnder, addressBelow, Path.below]

mutual

/- What is entered for a node are its addresses. -/
theorem Node.enter_eq
    (steps : List Step)
    (index : Nat)
    (entries : List (Identity × Path)) :
    ∀ node : Node Identity,
      node.enter steps index entries =
        ((node.addresses index).map
          (addressUnder steps)).reverse ++ entries
  | .text _ => rfl
  | .construct kind id first second => by
      rw [Node.enter, Row.enter_eq, Row.enter_eq,
        Node.addresses]
      simp only [List.map_cons, List.map_append,
        map_addressUnder_addressBelow, List.reverse_cons,
        List.reverse_append, List.append_assoc,
        List.cons_append]
      simp [addressUnder]
  | .continuation _ _ => by
      simp [Node.enter, Node.addresses, addressUnder]

/- What is entered for a row are its addresses. -/
theorem Row.enter_eq
    (steps : List Step)
    (index : Nat)
    (entries : List (Identity × Path)) :
    ∀ row : Row Identity,
      Row.enter steps index entries row =
        ((Row.addressesFrom index row).map
          (addressUnder steps)).reverse ++ entries
  | [] => rfl
  | node :: rest => by
      rw [Row.enter, Row.enter_eq, Node.enter_eq,
        Row.addressesFrom]
      simp

end

------------------------------------------------------------
-- The Last Node With an Identity
------------------------------------------------------------

/-
  The node at a path has an identity, and every other node
  that has it comes before that one in document order.
-/
structure Row.HasLastAt
    (row : Row Identity)
    (id : Identity)
    (path : Path) :
    Prop where
  stands :
    ∃ node, row.nodeAt? path = some node ∧ node.id? = some id
  last :
    ∀ other node, row.nodeAt? other = some node →
      node.id? = some id →
        other = path ∨ other.rank < path.rank

/- There is only one last node with an identity. -/
theorem Row.HasLastAt.unique
    {row : Row Identity}
    {id : Identity}
    {path path' : Path}
    (hLast : row.HasLastAt id path)
    (hLast' : row.HasLastAt id path') :
    path = path' := by
  rcases hLast.stands with ⟨node, hNode, hId⟩
  rcases hLast'.stands with ⟨node', hNode', hId'⟩
  rcases hLast'.last path node hNode hId with hSame | hLess
  · exact hSame
  · rcases hLast.last path' node' hNode' hId' with
      hSame | hLess'
    · exact hSame.symm
    · exact absurd hLess' (List.lt_asymm hLess)

namespace Index

/- The index finds only the last node with an identity. -/
theorem hasLastAt_of_path?
    {row : Row Identity}
    {id : Identity}
    {path : Path}
    (hPath : (ofRow row).path? id = some path) :
    row.HasLastAt id path := by
  rcases Option.map_eq_some_iff.mp hPath with
    ⟨entry, hFind, rfl⟩
  rcases List.find?_eq_some_iff_append.mp hFind with
    ⟨hFound, later, earlier, hSplit, hOthers⟩
  rcases beq_iff_eq.mp hFound with rfl
  -- The index lists the last addresses first.
  have hAddresses :
      row.addresses =
        earlier.reverse ++ entry :: later.reverse := by
    simpa [ofRow] using congrArg List.reverse hSplit
  have hOrdered := pairwise_addressesFrom 0 row
  rw [← Row.addresses, hAddresses, List.pairwise_append]
    at hOrdered
  have hMem : entry ∈ row.addresses := by
    rw [hAddresses]
    exact List.mem_append_right _ (List.mem_cons_self ..)
  refine ⟨Row.mem_addresses_iff.mp hMem, ?_⟩
  intro other node hNode hId
  have hOther : (entry.1, other) ∈ row.addresses :=
    Row.mem_addresses_iff.mpr ⟨node, hNode, hId⟩
  rw [hAddresses, List.mem_append, List.mem_cons] at hOther
  rcases hOther with hEarlier | hSame | hLater
  · exact .inr
      (hOrdered.2.2 _ hEarlier entry (List.mem_cons_self ..))
  · exact .inl (congrArg Prod.snd hSame)
  · have hNot := hOthers _ (List.mem_reverse.mp hLater)
    simp at hNot

/- The index misses only identities that no node has. -/
theorem path?_ofRow_eq_none_iff
    {row : Row Identity}
    {id : Identity} :
    (ofRow row).path? id = none ↔
      ∀ path node, row.nodeAt? path = some node →
        node.id? ≠ some id := by
  rw [path?, Option.map_eq_none_iff, List.find?_eq_none]
  constructor
  · intro hNone path node hNode hId
    have hMem : (id, path) ∈ row.addresses :=
      Row.mem_addresses_iff.mpr ⟨node, hNode, hId⟩
    exact hNone (id, path) (List.mem_reverse.mpr hMem)
      (beq_self_eq_true id)
  · rintro hNone ⟨found, path⟩ hMem hFound
    rcases beq_iff_eq.mp hFound with rfl
    rcases Row.mem_addresses_iff.mp
        (List.mem_reverse.mp hMem) with
      ⟨node, hNode, hId⟩
    exact hNone path node hNode hId

/- The index finds the last node with an identity. -/
theorem path?_ofRow_eq_some_iff
    {row : Row Identity}
    {id : Identity}
    {path : Path} :
    (ofRow row).path? id = some path ↔
      row.HasLastAt id path := by
  constructor
  · exact hasLastAt_of_path?
  · intro hLast
    rcases hLast.stands with ⟨node, hNode, hId⟩
    cases hPath : (ofRow row).path? id with
    | none =>
        exact absurd hId
          (path?_ofRow_eq_none_iff.mp hPath path node hNode)
    | some found =>
        rw [hLast.unique (hasLastAt_of_path? hPath)]

end Index

------------------------------------------------------------
-- Making the Index Again
------------------------------------------------------------

/- Entering a whole row anew makes its index. -/
theorem Index.ofRow_eq_enter
    (row : Row Identity) :
    ofRow row = ⟨Row.enter [] 0 [] row⟩ := by
  have hUnder :
      row.addresses.map (addressUnder []) = row.addresses :=
    List.map_id' row.addresses
  rw [Row.enter_eq, ← Row.addresses, hUnder,
    List.append_nil, ofRow]

namespace InPlace

namespace Workspace

/-
  The index is made again for every tree, with identities
  that may be repeated, and is then that of the document
  with this tree.  It has what is entered in document order,
  each entry in front of earlier ones.  So it finds the last
  node with each identity, and no identity that no node has.
  Each entry is the path of a node with its identity, and
  the index that was there before makes no difference.
-/
theorem reindex_finds_last
    (space : Workspace) :
    let document := Document.ofRow space.next space.root
    space.reindex.owners = document.index ∧
      space.reindex.owners =
        ⟨Row.enter [] 0 [] space.root⟩ ∧
      (∀ id path,
        document.path? id = some path ↔
          document.root.HasLastAt id path) ∧
      (∀ id,
        document.path? id = none ↔
          ∀ path node, document.nodeAt? path = some node →
            node.id? ≠ some id) ∧
      (∀ entry ∈ space.reindex.owners.entries,
        ∃ node, document.nodeAt? entry.2 = some node ∧
          node.id? = some entry.1) ∧
      ∀ owners,
        reindex { space with owners } = space.reindex := by
  intro document
  refine ⟨rfl, Index.ofRow_eq_enter space.root, ?_, ?_, ?_, ?_⟩
  · intro id path
    exact Index.path?_ofRow_eq_some_iff
  · intro id
    exact Index.path?_ofRow_eq_none_iff
  · intro entry hMem
    exact Row.mem_addresses_iff.mp (List.mem_reverse.mp hMem)
  · intro owners
    rfl

/-
  A limit in the numerator of a fraction with its identity,
  a continuation after the fraction with that of one in its
  denominator, and an identity that only the index had.
-/
theorem reindex_finds_last_repeated :
    let root : Row Identity :=
      [.construct .fraction 5
          [.construct .limit 5 [] []]
          [.continuation 7 []],
        .text ['a'],
        .continuation 7 []]
    let space : Workspace :=
      ⟨root, 8, ⟨[(9, ⟨[], 4⟩)]⟩, .start⟩
    let document := Document.ofRow space.next space.root
    space.owners.path? 9 = some ⟨[], 4⟩ ∧
      space.reindex.owners = document.index ∧
      document.path? 9 = none ∧
      document.path? 5 = some ⟨[⟨0, .numerator⟩], 0⟩ ∧
      (∃ node, document.nodeAt? ⟨[], 0⟩ = some node ∧
        node.id? = some 5) ∧
      Path.rank ⟨[], 0⟩ <
        Path.rank ⟨[⟨0, .numerator⟩], 0⟩ ∧
      document.root.HasLastAt 7 ⟨[], 2⟩ := by
  intro root space document
  rcases reindex_finds_last space with
    ⟨hIndex, _, hFinds, _⟩
  have hLimit :
      document.path? 5 = some ⟨[⟨0, .numerator⟩], 0⟩ :=
    rfl
  have hLast := (hFinds 5 ⟨[⟨0, .numerator⟩], 0⟩).mp hLimit
  rcases hLast.last ⟨[], 0⟩ _ rfl rfl with hSame | hBefore
  · cases hSame
  · exact ⟨rfl, hIndex, rfl, hLimit, ⟨_, rfl, rfl⟩, hBefore,
      (hFinds 7 ⟨[], 2⟩).mp rfl⟩

end Workspace

end InPlace

end FormulaEditor
