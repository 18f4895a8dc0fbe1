import FormulaEditor.Editing.Intent
import FormulaEditor.Proofs.Editing.Contents
import FormulaEditor.Proofs.Editing.GapBuffer
import FormulaEditor.Proofs.Editing.Placement
import FormulaEditor.Proofs.Formula.Agreement

/-
  This file defines when two editors mirror each other: when
  their documents have the same content and their carets are
  at the same place, whatever the identities that name it.
  It proves that whatever is looked up at the same place of
  both of them is the same but for identities.

  Key definitions include:
    * `Document.place?`
    * `Caret.Mirrors`
    * `Editor.Mirrors`
    * `Intent.Mirrors`
    * `Document.Finds`

  Key theorems include:
    * `Document.region?_cases`
    * `Document.focus_of_mirrors`
    * `Document.clamp?_cases`
    * `Document.finds_cases`
    * `Editor.cursor_cases`
    * `Editor.mirrors_put`
    * `Editor.mirrors_close`
-/

namespace FormulaEditor

------------------------------------------------------------
-- Mirrors
------------------------------------------------------------

/- The steps to the row of a region, if that row is there. -/
def Document.place?
    (document : Document)
    (region : Region) :
    Option (List Step) :=
  match document.region? region with
  | none => none
  | some _ => document.stepsTo? region

/-
  Two carets of two documents mirror each other when they
  stand alike in their regions, and these are rows at the
  same place, or are both gone.
-/
structure Caret.Mirrors
    (document other : Document)
    (caret caret' : Caret) :
    Prop where
  place :
    document.place? caret.region = other.place? caret'.region
  index : caret.index = caret'.index
  offset : caret.offset = caret'.offset
  selected : caret.selected = caret'.selected

/-
  Two editors mirror each other when their documents have
  the same content and their carets mirror each other.
-/
structure Editor.Mirrors
    (editor other : Editor) :
    Prop where
  content :
    editor.document.sameContent other.document = true
  caret :
    Caret.Mirrors editor.document other.document
      editor.caret other.caret

/-
  Two intents for two documents mirror each other when they
  ask for the same.  A caret is asked for by one that
  mirrors it, and a construct by the identity that is at the
  same path, or that is nowhere either.
-/
inductive Intent.Mirrors
    (document other : Document) :
    Intent → Intent → Prop where
  | forward : Mirrors document other .forward .forward
  | trigger : Mirrors document other .trigger .trigger
  | fraction : Mirrors document other .fraction .fraction
  | limit : Mirrors document other .limit .limit
  | type (c : Char) :
      Mirrors document other (.type c) (.type c)
  | backspace : Mirrors document other .backspace .backspace
  | focus {caret caret' : Caret} :
      caret.Mirrors document other caret' →
        Mirrors document other (.focus caret) (.focus caret')
  | leave {id id' : Identity} :
      document.path? id = other.path? id' →
        Mirrors document other (.leave id) (.leave id')

------------------------------------------------------------
-- Regions at the Same Place
------------------------------------------------------------

namespace Document

/- The place of a region is reached by its steps. -/
theorem place?_eq_some_iff
    {document : Document}
    {region : Region}
    {steps : List Step} :
    document.place? region = some steps ↔
      document.stepsTo? region = some steps ∧
        ∃ row, document.root.at? steps = some row := by
  rw [place?]
  constructor
  · intro hPlace
    split at hPlace
    · cases hPlace
    · next row hRegion =>
        rcases region?_eq_some_iff.mp hRegion with
          ⟨found, hFound, hAt⟩
        rw [hPlace] at hFound
        rcases Option.some.inj hFound with rfl
        exact ⟨hPlace, row, hAt⟩
  · rintro ⟨hSteps, row, hAt⟩
    rw [region?_eq_some_iff.mpr ⟨steps, hSteps, hAt⟩]
    exact hSteps

/- A region without a place is gone. -/
theorem place?_eq_none_iff
    {document : Document}
    {region : Region} :
    document.place? region = none ↔
      document.region? region = none := by
  constructor
  · intro hPlace
    cases hRegion : document.region? region with
    | none => rfl
    | some row =>
        rcases region?_eq_some_iff.mp hRegion with
          ⟨steps, hSteps, hAt⟩
        rw [place?_eq_some_iff.mpr ⟨hSteps, row, hAt⟩] at hPlace
        cases hPlace
  · intro hRegion
    rw [place?, hRegion]

section Lookups

variable {document other : Document}
variable (hContent :
  document.root.content = other.root.content)

include hContent

/- The same steps reach rows with the same content. -/
theorem rowAt?_cases
    (steps : List Step) :
    (document.rowAt? steps = none ∧
        other.rowAt? steps = none) ∨
      ∃ row row', document.rowAt? steps = some row ∧
        other.rowAt? steps = some row' ∧
          row.content = row'.content := by
  refine map_eq_map_cases ?_
  have hAgree := congrArg (Row.at? · steps) hContent
  simp only [Row.content, Row.at?_mapIds] at hAgree
  exact hAgree

/- A row at the same steps is replaced in both, or neither. -/
theorem setRowAt?_cases
    {row row' : Row Identity}
    (hRows : row.content = row'.content)
    (steps : List Step) :
    (document.setRowAt? steps row = none ∧
        other.setRowAt? steps row' = none) ∨
      ∃ changed changed',
        document.setRowAt? steps row = some changed ∧
          other.setRowAt? steps row' = some changed' ∧
            changed.root.content = changed'.root.content := by
  refine map_eq_map_cases ?_
  have hAgree :
      document.root.content.replaceAt? row.content steps =
        other.root.content.replaceAt? row'.content steps := by
    rw [hContent, hRows]
  simp only [Row.content, Row.replaceAt?_mapIds] at hAgree
  rw [setRowAt?, setRowAt?, Option.map_map, Option.map_map]
  exact hAgree

/- Regions at the same place have the same content. -/
theorem region?_cases
    {region region' : Region}
    (hPlace :
      document.place? region = other.place? region') :
    (document.region? region = none ∧
        other.region? region' = none) ∨
      ∃ steps row row',
        document.stepsTo? region = some steps ∧
          other.stepsTo? region' = some steps ∧
          document.region? region = some row ∧
          other.region? region' = some row' ∧
            row.content = row'.content := by
  cases hFound : document.place? region with
  | none =>
      rw [hFound] at hPlace
      exact .inl ⟨place?_eq_none_iff.mp hFound,
        place?_eq_none_iff.mp hPlace.symm⟩
  | some steps =>
      rw [hFound] at hPlace
      rcases place?_eq_some_iff.mp hFound with
        ⟨hSteps, row, hAt⟩
      rcases place?_eq_some_iff.mp hPlace.symm with
        ⟨hSteps', row', hAt'⟩
      rcases rowAt?_cases hContent steps with ⟨hNone, _⟩ |
        ⟨found, found', hFoundAt, hFoundAt', hRows⟩
      · rw [rowAt?, hAt] at hNone
        cases hNone
      · rw [rowAt?, hAt] at hFoundAt
        rw [rowAt?, hAt'] at hFoundAt'
        rcases Option.some.inj hFoundAt with rfl
        rcases Option.some.inj hFoundAt' with rfl
        exact .inr ⟨steps, row, row', hSteps, hSteps',
          region?_eq_some_iff.mpr ⟨steps, hSteps, hAt⟩,
          region?_eq_some_iff.mpr ⟨steps, hSteps', hAt'⟩,
          hRows⟩

/- Slots of constructs at one path are at the same place. -/
theorem place?_slot_of_path?
    {owner owner' : Identity}
    (hPath : document.path? owner = other.path? owner')
    (slot : Slot) :
    document.place? (.slot owner slot) =
      other.place? (.slot owner' slot) := by
  rw [place?, place?, region?, region?, stepsTo?, stepsTo?,
    hPath]
  cases other.path? owner' with
  | none => rfl
  | some path =>
      rcases rowAt?_cases hContent (path.stepsInto slot) with
        ⟨hNone, hNone'⟩ | ⟨row, row', hRow, hRow', _⟩
      · simp only [Option.map_some, hNone, hNone']
      · simp only [Option.map_some, hRow, hRow']

/- The same paths lead to constructs in both, or neither. -/
theorem owner?_cases
    {id id' : Identity}
    (hPath : document.path? id = other.path? id') :
    (document.owner? id = none ∧ other.owner? id' = none) ∨
      ∃ node node', document.owner? id = some node ∧
        other.owner? id' = some node' := by
  rw [owner?, owner?, hPath]
  cases other.path? id' with
  | none => exact .inl ⟨rfl, rfl⟩
  | some path =>
      have hAgree := congrArg (Row.nodeAt? · path) hContent
      simp only [Row.content, Row.nodeAt?_mapIds] at hAgree
      simp only [nodeAt?]
      rcases map_eq_map_cases hAgree with ⟨hNone, hNone'⟩ |
        ⟨node, node', hNode, hNode', hNodes⟩
      · rw [hNone, hNone']
        exact .inl ⟨rfl, rfl⟩
      · rw [hNode, hNode', Option.filter_some,
          Option.filter_some,
          ← isConstruct_mapIds (fun _ => ()) node, hNodes,
          isConstruct_mapIds]
        split
        · exact .inr ⟨node, node', rfl, rfl⟩
        · exact .inl ⟨rfl, rfl⟩

end Lookups

/-
  Regions that the same steps lead to are both outermost, or
  are the same slot of constructs at the same path.
-/
theorem eq_root_or_slot_of_stepsTo?
    {document other : Document}
    {region region' : Region}
    {steps : List Step}
    (hSteps : document.stepsTo? region = some steps)
    (hSteps' : other.stepsTo? region' = some steps) :
    (region = .root ∧ region' = .root) ∨
      ∃ owner owner' slot,
        region = .slot owner slot ∧
          region' = .slot owner' slot ∧
            document.path? owner = other.path? owner' := by
  have hInto :
      ∀ (path : Path) slot, path.stepsInto slot ≠ [] := by
    intro path slot hNil
    cases List.append_eq_nil_iff.mp hNil |>.2
  cases region with
  | root =>
      rcases Option.some.inj hSteps with rfl
      cases region' with
      | root => exact .inl ⟨rfl, rfl⟩
      | slot owner' slot' =>
          rcases Option.map_eq_some_iff.mp hSteps' with
            ⟨path', _, hNil⟩
          exact absurd hNil (hInto path' slot')
  | slot owner slot =>
      rcases Option.map_eq_some_iff.mp hSteps with
        ⟨path, hPath, rfl⟩
      cases region' with
      | root =>
          exact absurd (Option.some.inj hSteps').symm
            (hInto path slot)
      | slot owner' slot' =>
          rcases Option.map_eq_some_iff.mp hSteps' with
            ⟨path', hPath', hSame⟩
          rcases List.append_inj' hSame rfl with
            ⟨hOuter, hLast⟩
          simp only [List.cons.injEq, Step.mk.injEq,
            and_true] at hLast
          rcases hLast with ⟨hIndex, rfl⟩
          refine .inr ⟨owner, owner', slot', rfl, rfl, ?_⟩
          rw [hPath, hPath']
          rcases path with ⟨_, _⟩
          rcases path' with ⟨_, _⟩
          simp only at hOuter hIndex
          rw [hOuter, hIndex]

end Document

------------------------------------------------------------
-- Carets in Rows With the Same Content
------------------------------------------------------------

namespace Caret

section Rows

variable {row row' : Row Identity}
variable (hRows : row.content = row'.content)

include hRows

/- An offset is pulled back by content only. -/
theorem clampOffset_of_content
    (index offset : Nat) :
    clampOffset row index offset =
      clampOffset row' index offset := by
  rw [clampOffset, clampOffset]
  rcases Row.getElem?_cases hRows index with ⟨hNone, hNone'⟩ |
    ⟨node, node', hNode, hNode', hNodes⟩
  · rw [hNone, hNone']
  · rw [hNode, hNode']
    cases Node.alike_of_content hNodes with
    | text run => rfl
    | construct => rfl
    | continuation => rfl

/- The end of a row is found by content only. -/
theorem atEndOf_of_content
    (region region' : Region) :
    atEndOf region' row' =
      { atEndOf region row with region := region' } := by
  have hLength := Row.length_eq_of_content hRows
  have hLast :
      row.getLast?.map Node.content =
        row'.getLast?.map Node.content := by
    rw [← List.getLast?_map, ← List.getLast?_map,
      ← Row.content_eq_map, ← Row.content_eq_map, hRows]
  rw [atEndOf, atEndOf, ← hLength]
  rcases map_eq_map_cases hLast with ⟨hNone, hNone'⟩ |
    ⟨node, node', hNode, hNode', hNodes⟩
  · rw [hNone, hNone']
  · rw [hNode, hNode']
    cases Node.alike_of_content hNodes with
    | text run => rfl
    | construct => rfl
    | continuation => rfl

/- A caret is pulled back by content only. -/
theorem clampTo_of_content
    (caret : Caret)
    (region' : Region) :
    clampTo { caret with region := region' } row' =
      { caret.clampTo row with region := region' } := by
  have hLength := Row.length_eq_of_content hRows
  simp only [clampTo, ← hLength,
    atEndOf_of_content hRows caret.region region']
  split
  · rw [clampOffset_of_content hRows]
  · rw [clampOffset_of_content hRows]

end Rows

/- A caret that mirrors another stands as that one does. -/
theorem Mirrors.eq
    {document other : Document}
    {caret caret' : Caret}
    (hMirrors : caret.Mirrors document other caret') :
    caret' = { caret with region := caret'.region } := by
  rcases hMirrors with ⟨_, hIndex, hOffset, hSelected⟩
  rw [hIndex, hOffset, hSelected]

/- Carets at the ends of rows at one place are mirrors. -/
theorem mirrors_atEndOf
    {document other : Document}
    {region region' : Region}
    (hPlace :
      document.place? region = other.place? region')
    {row row' : Row Identity}
    (hRows : row.content = row'.content) :
    Mirrors document other (.atEndOf region row)
      (.atEndOf region' row') := by
  rw [atEndOf_of_content hRows region region']
  refine ⟨?_, rfl, rfl, rfl⟩
  rw [region_atEndOf]
  exact hPlace

end Caret

namespace Document

section Carets

variable {document other : Document}
variable (hContent :
  document.root.content = other.root.content)
variable {caret caret' : Caret}
variable (hCarets : caret.Mirrors document other caret')

include hContent hCarets

/- Carets that mirror each other are in the same. -/
theorem focus_of_mirrors :
    document.focus caret = other.focus caret' := by
  rw [focus, focus]
  rcases region?_cases hContent hCarets.place with
    ⟨hNone, hNone'⟩ |
    ⟨steps, row, row', hSteps, hSteps', hRow, hRow', hRows⟩
  · rw [hNone, hNone']
  · have hFocus :
        caret.region.focus = caret'.region.focus := by
      rcases eq_root_or_slot_of_stepsTo? hSteps hSteps' with
        ⟨hRegion, hRegion'⟩ |
        ⟨_, _, slot, hRegion, hRegion', _⟩
      · rw [hRegion, hRegion']
      · rw [hRegion, hRegion']
        rfl
    rw [hRow, hRow', ← hCarets.index]
    simp only
    rcases Row.getElem?_cases hRows caret.index with
      ⟨hNone, hNone'⟩ |
      ⟨node, node', hNode, hNode', hNodes⟩
    · rw [hNone, hNone']
      exact hFocus
    · rw [hNode, hNode']
      cases Node.alike_of_content hNodes with
      | text run => exact hFocus
      | construct => exact hFocus
      | continuation => rfl

/-
  Carets that mirror each other do so when pulled back into
  their regions, unless these are gone.
-/
theorem clamp?_cases :
    (document.clamp? caret = none ∧
        other.clamp? caret' = none) ∨
      ∃ steps pulled pulled',
        document.clamp? caret = some pulled ∧
          other.clamp? caret' = some pulled' ∧
          document.stepsTo? pulled.region = some steps ∧
          other.stepsTo? pulled'.region = some steps ∧
            pulled.Mirrors document other pulled' := by
  rw [clamp?, clamp?]
  rcases region?_cases hContent hCarets.place with
    ⟨hNone, hNone'⟩ |
    ⟨steps, row, row', hSteps, hSteps', hRow, hRow', hRows⟩
  · rw [hNone, hNone']
    exact .inl ⟨rfl, rfl⟩
  · rw [hRow, hRow']
    refine .inr ⟨steps, _, _, rfl, rfl, ?_, ?_, ?_⟩
    · rw [Caret.region_clampTo]
      exact hSteps
    · rw [Caret.region_clampTo]
      exact hSteps'
    · have hPulled :=
        Caret.clampTo_of_content hRows caret caret'.region
      rw [← hCarets.eq] at hPulled
      refine ⟨?_, ?_, ?_, ?_⟩
      · rw [Caret.region_clampTo, Caret.region_clampTo]
        exact hCarets.place
      · rw [hPulled]
      · rw [hPulled]
      · rw [hPulled]

end Carets

end Document

------------------------------------------------------------
-- Rows Replaced at the Same Place
------------------------------------------------------------

namespace Document

/- A region keeps its place when its row is replaced. -/
theorem place?_of_setRowAt?
    {document changed : Document}
    {region : Region}
    {steps : List Step}
    {row : Row Identity}
    (hSteps : document.stepsTo? region = some steps)
    (hSet : document.setRowAt? steps row = some changed)
    (hSound : changed.Sound) :
    changed.place? region = some steps := by
  rcases Option.map_eq_some_iff.mp hSet with
    ⟨root, hReplace, rfl⟩
  exact place?_eq_some_iff.mpr
    ⟨stepsTo?_of_replaceAt? hSound.nodup hSteps hReplace,
      row, Row.at?_replaceAt? hReplace⟩

/- A slot of a construct that has been put into a row. -/
theorem place?_of_insert
    {document changed : Document}
    {region : Region}
    {steps : List Step}
    {cursor : Cursor Identity}
    {node : Node Identity}
    (hSteps : document.stepsTo? region = some steps)
    (hSet :
      document.setRowAt? steps (cursor.insert node).row =
        some changed)
    (hSound : changed.Sound)
    {id : Identity}
    (hId : node.id? = some id)
    {slot : Slot}
    {below : Row Identity}
    (hBelow : node.region? slot = some below) :
    changed.place? (.slot id slot) =
      some
        (Path.stepsInto ⟨steps, (cursor.insert node).index⟩
          slot) := by
  rcases Option.map_eq_some_iff.mp hSet with
    ⟨root, hReplace, rfl⟩
  rcases Editor.exists_right_insert cursor node with
    ⟨right, hRight⟩
  have hPath :=
    Editor.path?_of_replaceAt? hReplace hSound hRight hId
  have hRegion :=
    @Editor.region?_of_replaces document _ region
      (cursor.insert node) ⟨steps, hSteps, hReplace⟩ hSound
      node right hRight id hId slot below hBelow
  rw [place?, hRegion]
  exact Option.map_eq_some_iff.mpr ⟨_, hPath, rfl⟩

/-
  An identity is found at a path, which ends in a region
  with a row.
-/
structure Finds
    (document : Document)
    (id : Identity)
    (path : Path)
    (region : Region)
    (row : Row Identity) :
    Prop where
  found : document.path? id = some path
  inside : document.regionOf? path = some region
  reached : document.stepsTo? region = some path.steps
  opened : document.rowAt? path.steps = some row

/- Whatever has a path is found in a row. -/
theorem exists_finds
    {document : Document}
    (hSound : document.Sound)
    {id : Identity}
    {path : Path}
    (hPath : document.path? id = some path) :
    ∃ region row, document.Finds id path region row := by
  rcases exists_nodeAt?_of_path? hPath with ⟨node, hNode, _⟩
  rcases Row.nodeAt?_eq_some_iff.mp hNode with ⟨row, hRow, _⟩
  rcases exists_regionOf? hSound.nodup hRow with
    ⟨region, hRegion, hSteps⟩
  exact ⟨region, row, hPath, hRegion, hSteps, hRow⟩

/- Identities at one path are found in the same row. -/
theorem finds_cases
    {document other : Document}
    (hContent : document.root.content = other.root.content)
    (hSound : document.Sound)
    (hSound' : other.Sound)
    {id id' : Identity}
    (hPath : document.path? id = other.path? id') :
    (document.path? id = none ∧ other.path? id' = none) ∨
      ∃ path region region' row row',
        document.Finds id path region row ∧
          other.Finds id' path region' row' ∧
            row.content = row'.content := by
  cases hFound : document.path? id with
  | none =>
      rw [hFound] at hPath
      exact .inl ⟨rfl, hPath.symm⟩
  | some path =>
      rw [hFound] at hPath
      rcases exists_finds hSound hFound with
        ⟨region, row, hFinds⟩
      rcases exists_finds hSound' hPath.symm with
        ⟨region', row', hFinds'⟩
      refine .inr ⟨path, region, region', row, row', hFinds,
        hFinds', ?_⟩
      rcases rowAt?_cases hContent path.steps with
        ⟨hNone, _⟩ | ⟨found, found', hRow, hRow', hRows⟩
      · rw [hFinds.opened] at hNone
        cases hNone
      · rw [hFinds.opened] at hRow
        rw [hFinds'.opened] at hRow'
        rcases Option.some.inj hRow with rfl
        rcases Option.some.inj hRow' with rfl
        exact hRows

end Document

/- A slot that a node has stays when it is numbered. -/
theorem exists_region?_number
    {node : Node Unit}
    {slot : Slot}
    {below : Row Unit}
    (hRegion : node.region? slot = some below)
    (next : Identity) :
    ∃ row, (node.number next).region? slot = some row := by
  rw [← Node.content_number next node, region?_mapIds,
    Option.map_eq_some_iff] at hRegion
  rcases hRegion with ⟨row, hRow, _⟩
  exact ⟨row, hRow⟩

namespace Editor

/- Rows replaced at one place leave mirrors behind. -/
theorem mirrors_of_setRowAt?
    {document other changed changed' : Document}
    {region region' : Region}
    {steps : List Step}
    {row row' : Row Identity}
    (hSteps : document.stepsTo? region = some steps)
    (hSteps' : other.stepsTo? region' = some steps)
    (hSet : document.setRowAt? steps row = some changed)
    (hSet' : other.setRowAt? steps row' = some changed')
    (hChanged : changed.root.content = changed'.root.content)
    (hSound : changed.Sound)
    (hSound' : changed'.Sound)
    (index offset : Nat)
    (selected : Bool) :
    Mirrors ⟨changed, ⟨region, index, offset, selected⟩⟩
      ⟨changed', ⟨region', index, offset, selected⟩⟩ where
  content := (Row.sameContent_iff _ _).mpr hChanged
  caret :=
    { place := by
        rw [Document.place?_of_setRowAt? hSteps hSet hSound,
          Document.place?_of_setRowAt? hSteps' hSet' hSound']
      index := rfl
      offset := rfl
      selected := rfl }

section Mirrors

variable {editor other : Editor}

/- The documents of mirrors have the same content. -/
theorem Mirrors.root
    (hMirrors : editor.Mirrors other) :
    editor.document.root.content =
      other.document.root.content :=
  (Row.sameContent_iff _ _).mp hMirrors.content

/- Mirrors are opened at the same place, or neither is. -/
theorem cursor_cases
    (hMirrors : editor.Mirrors other) :
    (∃ refusal, editor.cursor = .error refusal ∧
        other.cursor = .error refusal) ∨
      ∃ steps cursor cursor',
        editor.document.stepsTo? editor.caret.region =
            some steps ∧
          other.document.stepsTo? other.caret.region =
              some steps ∧
          editor.cursor = .ok cursor ∧
          other.cursor = .ok cursor' ∧
            cursor.content = cursor'.content := by
  rcases hMirrors.caret with
    ⟨hPlace, hIndex, hOffset, hSelected⟩
  rw [cursor, cursor]
  rcases Document.region?_cases hMirrors.root hPlace with
    ⟨hNone, hNone'⟩ |
    ⟨steps, row, row', hSteps, hSteps', hRow, hRow', hRows⟩
  · rw [hNone, hNone']
    exact .inl ⟨_, rfl, rfl⟩
  · rw [hRow, hRow', ← hIndex, ← hOffset, ← hSelected]
    simp only
    cases editor.caret.selected with
    | true =>
        exact .inr ⟨steps, _, _, hSteps, hSteps', rfl, rfl,
          rfl⟩
    | false =>
        rcases Cursor.cursor?_cases hRows editor.caret.index
            editor.caret.offset with
          ⟨hNone, hNone'⟩ |
          ⟨cursor, cursor', hCursor, hCursor', hCursors⟩
        · rw [hNone, hNone']
          exact .inl ⟨_, rfl, rfl⟩
        · rw [hCursor, hCursor']
          exact .inr ⟨steps, cursor, cursor', hSteps, hSteps',
            rfl, rfl, hCursors⟩

/- Mirrors are closed at the same place, or neither is. -/
theorem put?_cases
    (hContent :
      editor.document.root.content =
        other.document.root.content)
    {steps : List Step}
    (hSteps :
      editor.document.stepsTo? editor.caret.region =
        some steps)
    (hSteps' :
      other.document.stepsTo? other.caret.region = some steps)
    {cursor cursor' : Cursor Identity}
    (hCursors : cursor.content = cursor'.content) :
    (editor.put? cursor = none ∧ other.put? cursor' = none) ∨
      ∃ changed changed',
        editor.put? cursor =
            some
              ⟨changed,
                ⟨editor.caret.region, cursor.index,
                  cursor.offset, false⟩⟩ ∧
          other.put? cursor' =
            some
              ⟨changed',
                ⟨other.caret.region, cursor.index,
                  cursor.offset, false⟩⟩ ∧
          editor.document.setRowAt? steps cursor.row =
            some changed ∧
          other.document.setRowAt? steps cursor'.row =
            some changed' ∧
            changed.root.content =
              changed'.root.content := by
  have hRows := Cursor.row_of_content hCursors
  rw [put?, put?, Document.setRegion?, Document.setRegion?,
    hSteps, hSteps', ← Cursor.index_of_content hCursors,
    ← Cursor.offset_of_content hCursors]
  simp only
  rcases Document.setRowAt?_cases hContent hRows steps with
    ⟨hNone, hNone'⟩ |
    ⟨changed, changed', hSet, hSet', hChanged⟩
  · rw [hNone, hNone']
    exact .inl ⟨rfl, rfl⟩
  · rw [hSet, hSet']
    exact .inr ⟨changed, changed', rfl, rfl, rfl, rfl,
      hChanged⟩

/- Mirrors that are closed mirror each other again. -/
theorem mirrors_put
    (hMirrors : editor.Mirrors other)
    {steps : List Step}
    (hSteps :
      editor.document.stepsTo? editor.caret.region =
        some steps)
    (hSteps' :
      other.document.stepsTo? other.caret.region = some steps)
    {cursor cursor' : Cursor Identity}
    (hCursors : cursor.content = cursor'.content)
    (hSound : (editor.put cursor).editor.document.Sound)
    (hSound' : (other.put cursor').editor.document.Sound) :
    (editor.put cursor).editor.Mirrors
      (other.put cursor').editor := by
  rw [put] at hSound hSound' ⊢
  rw [put]
  rcases put?_cases hMirrors.root hSteps hSteps' hCursors with
    ⟨hNone, hNone'⟩ |
    ⟨changed, changed', hPut, hPut', hSet, hSet', hChanged⟩
  · rw [hNone, hNone']
    exact hMirrors
  · rw [hPut] at hSound ⊢
    rw [hPut'] at hSound' ⊢
    exact mirrors_of_setRowAt? hSteps hSteps' hSet hSet'
      hChanged hSound hSound' _ _ _

/-
  What comes of an edit that ends in replacing a row, and of
  the caret that goes there.
-/
def close
    (editor : Editor)
    (refusal : Refusal)
    (caret : Caret) :
    Option Document → Outcome
  | none => .refused editor refusal
  | some document => .done ⟨document, caret⟩

/-
  Mirrors are left behind when rows at one place are
  replaced and the carets go there, or when neither is.
-/
theorem mirrors_close
    (hMirrors : editor.Mirrors other)
    {document document' : Document}
    (hContent :
      document.root.content = document'.root.content)
    {region region' : Region}
    {steps : List Step}
    (hSteps : document.stepsTo? region = some steps)
    (hSteps' : document'.stepsTo? region' = some steps)
    {row row' : Row Identity}
    (hRows : row.content = row'.content)
    {index offset : Nat}
    {refusal : Refusal}
    (hSound :
      (editor.close refusal ⟨region, index, offset, false⟩
        (document.setRowAt? steps row)).editor.document.Sound)
    (hSound' :
      (other.close refusal ⟨region', index, offset, false⟩
        (document'.setRowAt? steps
          row')).editor.document.Sound) :
    (editor.close refusal ⟨region, index, offset, false⟩
        (document.setRowAt? steps row)).editor.Mirrors
      (other.close refusal ⟨region', index, offset, false⟩
        (document'.setRowAt? steps row')).editor := by
  rcases Document.setRowAt?_cases hContent hRows steps with
    ⟨hNone, hNone'⟩ |
    ⟨changed, changed', hSet, hSet', hChanged⟩
  · rw [hNone, hNone']
    exact hMirrors
  · rw [hSet] at hSound ⊢
    rw [hSet'] at hSound' ⊢
    exact mirrors_of_setRowAt? hSteps hSteps' hSet hSet'
      hChanged hSound hSound' _ _ _

end Mirrors

end Editor

end FormulaEditor
