import FormulaEditor.Proofs.InPlace.Agreement

/-
  This file proves that the two ways to address a row agree,
  which are by the identity of the construct that owns it
  and by the steps to it.  A row that is borrowed is the one
  that is read either way, and writing to it changes no row
  that is apart from it.

  Key definitions include:
    * `Apart`
    * `InPlace.Workspace.stepsTo?`
    * `InPlace.Workspace.Writes`

  Key theorems include:
    * `Row.at?_of_apart`
    * `InPlace.Workspace.region?_eq_some_iff`
    * `InPlace.Workspace.borrow?_eq_some_iff`
    * `InPlace.Workspace.writes_of_putBack`
    * `InPlace.Workspace.setRegion?_eq_some_iff`
    * `Editor.addresses_agree`
-/

namespace FormulaEditor

------------------------------------------------------------
-- Rows That Are Apart
------------------------------------------------------------

/- Of two rows that are reached neither is in the other. -/
def Apart
    (steps other : List Step) :
    Prop :=
  ¬ steps <+: other ∧ ¬ other <+: steps

/- Further down the first steps may be the same. -/
theorem apart_cons
    {step : Step}
    {steps other : List Step}
    (hApart : Apart (step :: steps) (step :: other)) :
    Apart steps other := by
  rcases hApart with ⟨hOver, hUnder⟩
  rw [List.prefix_cons_inj] at hOver hUnder
  exact ⟨hOver, hUnder⟩

namespace Row

variable {ι : Type}

/- A row in a slot is reached through the node that has it. -/
theorem at?_stepsInto_eq
    (row : Row ι)
    (path : Path)
    (slot : Slot) :
    row.at? (path.stepsInto slot) =
      (row.nodeAt? path).bind (·.region? slot) := by
  cases hNode : row.nodeAt? path with
  | some node => exact at?_stepsInto hNode slot
  | none =>
      rw [Path.stepsInto, at?_append]
      cases hAt : row.at? path.steps with
      | none => rfl
      | some inner =>
          simp only [nodeAt?, hAt] at hNode
          simp [at?, hNode]

/- Only a row that is reached can be replaced. -/
theorem exists_at?_of_replaceAt?
    {row new changed : Row ι}
    {steps : List Step}
    (hReplace : row.replaceAt? new steps = some changed) :
    ∃ old, row.at? steps = some old := by
  induction steps generalizing row changed with
  | nil => exact ⟨row, rfl⟩
  | cons step steps ih =>
      rcases replaceAt?_cons_eq_some_iff.mp hReplace with
        ⟨left, right, id, below, other, inner, rfl, hLength,
          hInner, rfl⟩
      rcases ih hInner with ⟨old, hOld⟩
      refine ⟨old, at?_cons_eq_some_iff.mpr
        ⟨step.slot.node id below other, below, ?_,
          region?_node, hOld⟩⟩
      simp [← hLength]

/-
  Nodes beside the one at an index do not depend on what is
  there.
-/
theorem getElem?_append_cons_of_ne
    {left : Row ι}
    {index : Nat}
    (hNe : index ≠ left.length)
    (node node' : Node ι)
    (right : Row ι) :
    (left ++ node :: right)[index]? =
      (left ++ node' :: right)[index]? := by
  rcases Nat.lt_or_gt_of_ne hNe with hBefore | hBehind
  · rw [List.getElem?_append_left hBefore,
      List.getElem?_append_left hBefore]
  · obtain ⟨more, rfl⟩ :
        ∃ more, index = left.length + (more + 1) :=
      ⟨index - left.length - 1, by omega⟩
    simp [List.getElem?_append_right]

/- Replacing a row changes no row that is apart from it. -/
theorem at?_of_apart
    {row new changed : Row ι}
    {steps other : List Step}
    (hReplace : row.replaceAt? new steps = some changed)
    (hApart : Apart steps other) :
    changed.at? other = row.at? other := by
  induction steps generalizing row changed other with
  | nil => exact absurd List.nil_prefix hApart.1
  | cons step steps ih =>
      rcases replaceAt?_cons_eq_some_iff.mp hReplace with
        ⟨left, right, id, below, beside, inner, rfl, hLength,
          hInner, rfl⟩
      rcases step with ⟨_, slot⟩
      rcases hLength with rfl
      rcases other with _ | ⟨⟨index, slot'⟩, more⟩
      · exact absurd List.nil_prefix hApart.2
      · simp only [at?]
        by_cases hIndex : index = left.length
        · rcases hIndex with rfl
          by_cases hSlot : slot' = slot
          · -- The paths part further down.
            rcases hSlot with rfl
            have hBelow := ih hInner (apart_cons hApart)
            simp [hBelow]
          · have hBeside :=
              region?_node_of_ne hSlot id inner below beside
            simp [hBeside]
        · rw [getElem?_append_cons_of_ne hIndex _
            (slot.node id below beside) right]

end Row

------------------------------------------------------------
-- Reading and Writing
------------------------------------------------------------

namespace InPlace

namespace Workspace

/- The steps to the row of a region, as the index has them. -/
def stepsTo?
    (space : Workspace) :
    Region → Option (List Step)
  | .root => some []
  | .slot owner slot =>
      (space.owners.path? owner).map (·.stepsInto slot)

/- The index leads where that of the document does. -/
@[simp] theorem stepsTo?_of
    (editor : Editor)
    (region : Region) :
    (of editor).stepsTo? region =
      editor.document.stepsTo? region := by
  cases region <;> rfl

section Regions

variable {space after : Workspace} {region : Region}
variable {steps other : List Step} {row new : Row Identity}

/-
  A region is read at the steps that the index has, even if
  the index is out of date.
-/
theorem region?_eq_some_iff :
    space.region? region = some row ↔
      ∃ steps, space.stepsTo? region = some steps ∧
        space.root.at? steps = some row := by
  cases region with
  | root => simp [region?, stepsTo?]
  | slot owner slot =>
      rw [region?, owner?, stepsTo?]
      cases space.owners.path? owner with
      | none => simp
      | some path =>
          simp only [Option.map_some, Option.some.injEq,
            exists_eq_left', Row.at?_stepsInto_eq]
          cases space.root.nodeAt? path with
          | none => simp
          | some node => cases node <;> rfl

/- It is borrowed at the same steps. -/
theorem borrow?_eq_some_iff :
    space.borrow? region = some (steps, row) ↔
      space.stepsTo? region = some steps ∧
        space.root.at? steps = some row := by
  cases region with
  | root =>
      simp only [borrow?, stepsTo?, Option.some.injEq,
        Prod.mk.injEq]
      constructor
      · rintro ⟨rfl, rfl⟩
        exact ⟨rfl, rfl⟩
      · rintro ⟨rfl, hAt⟩
        exact ⟨rfl, Option.some.inj hAt⟩
  | slot owner slot =>
      rw [borrow?, stepsTo?]
      cases space.owners.path? owner with
      | none => simp
      | some path =>
          simp only [Option.map_some, Option.some.injEq]
          cases hNode : space.root.nodeAt? path with
          | none =>
              simp only [reduceCtorEq, false_iff, not_and]
              rintro rfl
              simp [Row.at?_stepsInto_eq, hNode]
          | some node =>
              simp only [Option.map_eq_some_iff,
                Prod.mk.injEq]
              constructor
              · rintro ⟨found, hFound, rfl, rfl⟩
                rw [Row.at?_stepsInto hNode, hFound]
                exact ⟨rfl, rfl⟩
              · rintro ⟨rfl, hAt⟩
                rw [Row.at?_stepsInto hNode] at hAt
                exact ⟨row, hAt, rfl, rfl⟩

/- So what is borrowed of a region is what is read there. -/
theorem map_borrow?
    (space : Workspace)
    (region : Region) :
    (space.borrow? region).map Prod.snd =
      space.region? region := by
  ext row
  rw [region?_eq_some_iff, Option.map_eq_some_iff]
  constructor
  · rintro ⟨⟨steps, found⟩, hBorrow, rfl⟩
    exact ⟨steps, borrow?_eq_some_iff.mp hBorrow⟩
  · rintro ⟨steps, hSteps, hAt⟩
    exact ⟨(steps, row),
      borrow?_eq_some_iff.mpr ⟨hSteps, hAt⟩, rfl⟩

/-
  A row has been written at some steps: it is what is read
  there, both at the steps and in the region that it was
  borrowed of, and all rows that are apart from it are read
  as before.
-/
structure Writes
    (space : Workspace)
    (steps : List Step)
    (new : Row Identity)
    (after : Workspace) :
    Prop where
  reads : after.root.at? steps = some new
  region :
    ∀ region row,
      space.borrow? region = some (steps, row) →
        after.region? region = some new
  keeps :
    ∀ other, Apart steps other →
      after.root.at? other = space.root.at? other
  regions :
    ∀ region other row,
      space.borrow? region = some (other, row) →
        Apart steps other → after.region? region = some row

/- A row is put back where it replaces one. -/
theorem putBack_eq_ok_iff :
    space.putBack steps new = .ok after ↔
      ∃ root, space.root.replaceAt? new steps = some root ∧
        after = { space with root } := by
  rw [putBack]
  cases space.root.replaceAt? new steps with
  | none => simp
  | some root => simp [pure, Except.pure, eq_comm]

/- To put a row back is to write it. -/
theorem writes_of_putBack
    (hPut : space.putBack steps new = .ok after) :
    space.Writes steps new after := by
  rcases putBack_eq_ok_iff.mp hPut with
    ⟨root, hReplace, rfl⟩
  have hReads := Row.at?_replaceAt? hReplace
  refine ⟨hReads, ?_, ?_, ?_⟩
  · intro region row hBorrow
    exact region?_eq_some_iff.mpr
      ⟨steps, (borrow?_eq_some_iff.mp hBorrow).1, hReads⟩
  · intro other hApart
    exact Row.at?_of_apart hReplace hApart
  · intro region other row hBorrow hApart
    rcases borrow?_eq_some_iff.mp hBorrow with
      ⟨hSteps, hAt⟩
    refine region?_eq_some_iff.mpr ⟨other, hSteps, ?_⟩
    rw [← hAt]
    exact Row.at?_of_apart hReplace hApart

/- A row is put back exactly where one is reached. -/
theorem exists_putBack_iff
    (space : Workspace)
    (steps : List Step)
    (new : Row Identity) :
    (∃ after, space.putBack steps new = .ok after) ↔
      ∃ row, space.root.at? steps = some row := by
  constructor
  · rintro ⟨after, hPut⟩
    rcases putBack_eq_ok_iff.mp hPut with
      ⟨root, hReplace, _⟩
    exact Row.exists_at?_of_replaceAt? hReplace
  · rintro ⟨row, hAt⟩
    rcases Row.exists_replaceAt? hAt new with
      ⟨root, hReplace⟩
    exact ⟨_, putBack_eq_ok_iff.mpr ⟨root, hReplace, rfl⟩⟩

end Regions

section Documents

variable {editor : Editor} {changed : Document}
variable {steps : List Step} {new : Row Identity}

/-
  A document is changed at some steps by putting a row back
  there and making the index again.
-/
theorem setRowAt?_eq_some_iff :
    editor.document.setRowAt? steps new = some changed ↔
      ∃ after, (of editor).putBack steps new = .ok after ∧
        changed = editor.document.withRoot after.root := by
  rw [Document.setRowAt?, Option.map_eq_some_iff]
  constructor
  · rintro ⟨root, hReplace, rfl⟩
    exact ⟨_, putBack_eq_ok_iff.mpr ⟨root, hReplace, rfl⟩,
      rfl⟩
  · rintro ⟨after, hPut, rfl⟩
    rcases putBack_eq_ok_iff.mp hPut with
      ⟨root, hReplace, rfl⟩
    exact ⟨root, hReplace, rfl⟩

/-
  It is changed in a region by putting a row back where that
  of the region is borrowed.
-/
theorem setRegion?_eq_some_iff
    {region : Region} :
    editor.document.setRegion? region new = some changed ↔
      ∃ steps row after,
        (of editor).borrow? region = some (steps, row) ∧
          (of editor).putBack steps new = .ok after ∧
          changed = editor.document.withRoot after.root := by
  rw [Document.setRegion?]
  constructor
  · intro hSet
    cases hSteps : editor.document.stepsTo? region with
    | none =>
        rw [hSteps] at hSet
        cases hSet
    | some steps =>
        rw [hSteps] at hSet
        rcases setRowAt?_eq_some_iff.mp hSet with
          ⟨after, hPut, hChanged⟩
        rcases (exists_putBack_iff _ steps new).mp
            ⟨after, hPut⟩ with
          ⟨row, hAt⟩
        exact ⟨steps, row, after, borrow?_of hSteps hAt, hPut,
          hChanged⟩
  · rintro ⟨steps, row, after, hBorrow, hPut, hChanged⟩
    have hSteps := (borrow?_eq_some_iff.mp hBorrow).1
    rw [stepsTo?_of] at hSteps
    rw [hSteps]
    exact setRowAt?_eq_some_iff.mpr ⟨after, hPut, hChanged⟩

end Documents

end Workspace

end InPlace

------------------------------------------------------------
-- The Two Addresses of a Row
------------------------------------------------------------

namespace Document

variable {document : Document}

/- A caret is at the path that ends in its region. -/
theorem exists_pathUnder?
    {caret : Caret}
    {row : Row Identity}
    (hRegion : document.region? caret.region = some row) :
    ∃ path,
      document.pathUnder? caret = some path ∧
        document.rowAt? path.steps = some row ∧
        document.nodeAt? path = row[caret.index]? ∧
        document.regionOf? path = some caret.region := by
  rcases region?_eq_some_iff.mp hRegion with
    ⟨steps, hSteps, hAt⟩
  refine ⟨⟨steps, caret.index⟩, ?_, hAt, ?_, ?_⟩
  · rw [pathUnder?, hSteps, Option.map_some]
  · rw [nodeAt?, Row.nodeAt?]
    simp only [hAt]
  · exact regionOf?_of_stepsTo? hSteps

/- A node is under the carets of its region and index. -/
theorem exists_region?_of_nodeAt?
    (hSound : document.Sound)
    {path : Path}
    {node : Node Identity}
    (hNode : document.nodeAt? path = some node) :
    ∃ region,
      document.regionOf? path = some region ∧
        document.region? region =
          document.rowAt? path.steps ∧
        ∀ offset selected,
          document.pathUnder?
              ⟨region, path.index, offset, selected⟩ =
            some path := by
  rcases Row.nodeAt?_eq_some_iff.mp hNode with
    ⟨row, hAt, _⟩
  rcases exists_regionOf? hSound.nodup hAt with
    ⟨region, hRegion, hSteps⟩
  refine ⟨region, hRegion, ?_, ?_⟩
  · rw [region?, hSteps]
  · intro offset selected
    rw [pathUnder?, hSteps, Option.map_some]

end Document

namespace Editor

open InPlace

/-
  The two ways to address a row agree in every document that
  is reached by editing.  The path under a caret leads to
  the row and the node of the caret, and ends in its region;
  a node is under the carets in the region that its path
  ends in, and an identity is found at the path of its node.
  A region is borrowed exactly if it is read, steps are
  written at exactly if they reach a row, and what has been
  written is what is read, while all rows that are apart are
  as before.  This is how a document itself is changed.
-/
theorem addresses_agree
    {editor : Editor}
    (hReachable : editor.document.Reachable) :
    (∀ caret row,
      editor.document.region? caret.region = some row →
        ∃ path,
          editor.document.pathUnder? caret = some path ∧
            editor.document.rowAt? path.steps = some row ∧
            editor.document.nodeAt? path =
              row[caret.index]? ∧
            editor.document.regionOf? path =
              some caret.region) ∧
    (∀ path node,
      editor.document.nodeAt? path = some node →
        (∃ region,
          editor.document.regionOf? path = some region ∧
            editor.document.region? region =
              editor.document.rowAt? path.steps ∧
            ∀ offset selected,
              editor.document.pathUnder?
                  ⟨region, path.index, offset, selected⟩ =
                some path) ∧
          ∀ id, node.id? = some id →
            editor.document.path? id = some path) ∧
    (∀ region,
      (Workspace.of editor).region? region =
          editor.document.region? region ∧
        ((Workspace.of editor).borrow? region).map Prod.snd =
          editor.document.region? region ∧
        ∀ steps row,
          (Workspace.of editor).borrow? region =
              some (steps, row) →
            editor.document.rowAt? steps = some row) ∧
    (∀ steps new,
      (∃ after,
          (Workspace.of editor).putBack steps new =
            .ok after) ↔
        ∃ row, editor.document.rowAt? steps = some row) ∧
    (∀ steps new after,
      (Workspace.of editor).putBack steps new = .ok after →
        (Workspace.of editor).Writes steps new after) ∧
    (∀ steps new changed,
      editor.document.setRowAt? steps new = some changed ↔
        ∃ after,
          (Workspace.of editor).putBack steps new =
              .ok after ∧
            changed =
              editor.document.withRoot after.root) ∧
    ∀ region new changed,
      editor.document.setRegion? region new = some changed ↔
        ∃ steps row after,
          (Workspace.of editor).borrow? region =
              some (steps, row) ∧
            (Workspace.of editor).putBack steps new =
              .ok after ∧
            changed =
              editor.document.withRoot after.root := by
  have hSound := hReachable.sound
  refine ⟨?_, ?_, ?_, ?_, ?_, ?_, ?_⟩
  · intro caret row hRegion
    exact Document.exists_pathUnder? hRegion
  · intro path node hNode
    refine
      ⟨Document.exists_region?_of_nodeAt? hSound hNode, ?_⟩
    intro id hId
    exact (Document.path?_eq_some_iff hSound.nodup).mpr
      ⟨node, hNode, hId⟩
  · intro region
    refine ⟨Workspace.region?_of editor region, ?_, ?_⟩
    · rw [Workspace.map_borrow?, Workspace.region?_of]
    · intro steps row hBorrow
      exact (Workspace.borrow?_eq_some_iff.mp hBorrow).2
  · intro steps new
    exact Workspace.exists_putBack_iff _ steps new
  · intro steps new after hPut
    exact Workspace.writes_of_putBack hPut
  · intro steps new changed
    exact Workspace.setRowAt?_eq_some_iff
  · intro region new changed
    exact Workspace.setRegion?_eq_some_iff

/-
  What is written above the bar of a fraction is read there,
  and what is below the bar stays.
-/
theorem addresses_agree_in_fraction :
    ∃ editor : Editor,
      editor.document.Reachable ∧
        ∃ after,
          (Workspace.of editor).putBack [⟨0, .numerator⟩]
                [.text ['c']] =
              .ok after ∧
            after.region? (.slot 0 .numerator) =
              some [.text ['c']] ∧
            after.region? (.slot 0 .denominator) =
              some [.text ['b']] := by
  have hReachable :=
    ((Document.Reachable.empty.apply .standard .start
        .fraction).apply .standard
      ⟨.slot 0 .numerator, 0, 0, false⟩ (.type 'a')).apply
      .standard ⟨.slot 0 .denominator, 0, 0, false⟩
        (.type 'b')
  rcases @addresses_agree ⟨_, .start⟩ hReachable with
    ⟨_, _, _, hThere, hWrites, _, _⟩
  rcases (hThere [⟨0, .numerator⟩] [.text ['c']]).mpr
      ⟨[.text ['a']], rfl⟩ with
    ⟨after, hPut⟩
  have hWritten := hWrites _ _ _ hPut
  refine
    ⟨⟨_, .start⟩, hReachable, after, hPut, ?_, ?_⟩
  · exact hWritten.region _ [.text ['a']] rfl
  · exact hWritten.regions _ [⟨0, .denominator⟩] _ rfl
      ⟨by decide, by decide⟩

end Editor

end FormulaEditor
