import FormulaEditor.Editing.Intent
import FormulaEditor.Proofs.InPlace.Rows

/-
  This file defines workspaces, in which an intent is
  carried out on the rows of a document where they are.
  A row is borrowed, edited and put back, and the index is
  that of an earlier document until it is made again.  So
  every access and every use of the index is one that can
  fail, or can be out of date.

  Key definitions include:
    * `Workspace`
    * `Workspace.of`
    * `Workspace.borrow?`
    * `Workspace.putBack`
    * `Workspace.reindex`
    * `Workspace.attempt`
    * `Workspace.apply`
    * `Workspace.run`
-/

namespace FormulaEditor

namespace InPlace

------------------------------------------------------------
-- Carets
------------------------------------------------------------

/- The end of a row, which may be that of its last run. -/
def endOf
    (region : Region)
    (row : Row Identity) :
    Checked Caret :=
  match row.getLast? with
  | some (.text run) => do
      let last ← sub row.length 1
      return ⟨region, last, run.length, false⟩
  | _ => return ⟨region, row.length, 0, false⟩

/- Pull a caret back into the row of its region. -/
def clampTo
    (row : Row Identity)
    (caret : Caret) :
    Checked Caret := do
  let placed ←
    if row.length < caret.index then
      endOf caret.region row
    else
      pure caret
  return { placed with
    offset := Caret.clampOffset row placed.index placed.offset }

/- The place of a caret in a row, emptied if selected. -/
def takeSelection
    (row : Row Identity)
    (caret : Caret) :
    Place Identity :=
  if caret.selected then
    ⟨[], 0, 0⟩
  else
    ⟨row, caret.index, caret.offset⟩

------------------------------------------------------------
-- Workspaces
------------------------------------------------------------

/-
  The outermost row of a document, the identity that is
  handed out next, the index as it was last made, and the
  caret.
-/
structure Workspace where
  root : Row Identity
  next : Identity
  owners : Index
  caret : Caret

namespace Workspace

/- The workspace of an editor. -/
def of
    (editor : Editor) :
    Workspace :=
  ⟨editor.document.root, editor.document.next,
    editor.document.index, editor.caret⟩

/- Make the index again. -/
def reindex
    (space : Workspace) :
    Workspace :=
  { space with owners := .ofRow space.root }

/- The construct with an identity. -/
def owner?
    (space : Workspace)
    (id : Identity) :
    Option (Node Identity) :=
  match space.owners.path? id with
  | none => none
  | some path =>
      (space.root.nodeAt? path).filter Node.isConstruct

/- The row of a region, to be read. -/
def region?
    (space : Workspace) :
    Region → Option (Row Identity)
  | .root => some space.root
  | .slot owner slot =>
      match space.owner? owner with
      | none => none
      | some node => node.region? slot

/-
  The row of a region, to be written, with the steps that
  it is put back at.
-/
def borrow?
    (space : Workspace) :
    Region → Option (List Step × Row Identity)
  | .root => some ([], space.root)
  | .slot owner slot =>
      match space.owners.path? owner with
      | none => none
      | some path =>
          match space.root.nodeAt? path with
          | none => none
          | some node =>
              (node.region? slot).map (path.stepsInto slot, ·)

/- The region that a path ends in. -/
def regionOf?
    (space : Workspace)
    (path : Path) :
    Option Region :=
  match path.steps.getLast? with
  | none => some .root
  | some last =>
      match space.root.nodeAt?
          ⟨path.steps.dropLast, last.index⟩ with
      | none => none
      | some node =>
          node.id?.map (.slot · last.slot)

/- Put a row back, without making the index again. -/
def putBack
    (space : Workspace)
    (steps : List Step)
    (row : Row Identity) :
    Checked Workspace :=
  match space.root.replaceAt? row steps with
  | none => .error .dangling
  | some root => return { space with root }

/- Put a row back with the caret at a place in it. -/
def close
    (space : Workspace)
    (region : Region)
    (steps : List Step)
    (place : Place Identity) :
    Checked Workspace := do
  let space ← space.putBack steps place.row
  return { space.reindex with
    caret := ⟨region, place.index, place.offset, false⟩ }

/- Give a node identities, which are counted in 32 bits. -/
def adopt
    (space : Workspace)
    (content : Node Unit) :
    Checked (Node Identity × Workspace) :=
  let next := space.next + content.ids.length
  if next < UInt32.size then
    return (content.number space.next, { space with next })
  else
    .error .exhausted

/- What the caret is in. -/
def focus
    (space : Workspace) :
    Focus :=
  match space.region? space.caret.region with
  | none => .root
  | some row =>
      match row[space.caret.index]? with
      | some (.continuation _ _) => .continuation
      | _ => space.caret.region.focus

------------------------------------------------------------
-- Inserting
------------------------------------------------------------

/- Put a node at the caret, which then goes elsewhere. -/
def insertNode
    (node : Node Identity)
    (caret : Caret)
    (space : Workspace) :
    Checked Workspace :=
  match space.borrow? space.caret.region with
  | none => return space
  | some (steps, row) => do
      let row ← InPlace.insertNode node
        (takeSelection row space.caret)
      let space ← space.putBack steps row
      return { space.reindex with caret }

/- Insert a node and go into its first row. -/
def insert
    (space : Workspace)
    (content : Node Unit)
    (first : Slot)
    (selected : Bool) :
    Checked Workspace := do
  let caret := ⟨.slot space.next first, 0, 0, selected⟩
  let (node, space) ← space.adopt content
  space.insertNode node caret

/- Insert an empty fraction and go into its numerator. -/
def addFraction
    (space : Workspace) :
    Checked Workspace :=
  space.insert (.emptyFraction ()) .numerator false

/- Insert a limit and select its subscript. -/
def addLimit
    (limit : LimitTemplate)
    (space : Workspace) :
    Checked Workspace :=
  space.insert limit.node .subscript true

/-
  Remove the word `lim` before the caret.  The index is only
  made again if no character is left of the run.
-/
def takeLim
    (space : Workspace) :
    Checked (Option Workspace) :=
  let ⟨region, index, offset, selected⟩ := space.caret
  match space.borrow? region with
  | none => return none
  | some (steps, row) => do
      match ← InPlace.takeLim ⟨row, index, offset⟩ with
      | none => return none
      | some (place, emptied) => do
          let space ← space.putBack steps place.row
          let space :=
            if emptied then space.reindex else space
          return some { space with
            caret :=
              ⟨region, place.index, place.offset, selected⟩ }

/- Insert a limit in place of the word `lim`, or a fraction. -/
def trigger
    (limit : LimitTemplate)
    (space : Workspace) :
    Checked Workspace :=
  if space.caret.selected then
    space.addFraction
  else do
    match ← space.takeLim with
    | none => space.addFraction
    | some space => space.addLimit limit

/- Type a character. -/
def type
    (c : Char)
    (space : Workspace) :
    Checked Workspace :=
  match space.borrow? space.caret.region with
  | none => return space
  | some (steps, row) => do
      let place ← typeChar c (takeSelection row space.caret)
      space.close space.caret.region steps place

------------------------------------------------------------
-- Deleting
------------------------------------------------------------

/- Remove the node with an identity. -/
def removeOwner
    (id : Identity)
    (space : Workspace) :
    Checked Workspace :=
  match space.owners.path? id with
  | none => return space
  | some path =>
      match space.regionOf? path,
          space.root.at? path.steps with
      | some region, some row => do
          let place ← removeItem row path.index
          space.close region path.steps place
      | _, _ => return space

/- Delete backwards from the caret. -/
def backspace
    (space : Workspace) :
    Checked Workspace :=
  let ⟨region, index, offset, selected⟩ := space.caret
  match space.borrow? region with
  | none => return space
  | some (steps, row) =>
      if selected then
        space.close region steps ⟨[], 0, 0⟩
      else do
        match ← erase ⟨row, index, offset⟩ with
        | .erased place => space.close region steps place
        | .missing => return space
        | .atStart =>
            match region with
            | .root => return space
            | .slot owner _ => space.removeOwner owner

------------------------------------------------------------
-- Moving
------------------------------------------------------------

/- Put a new continuation after the node that a path ends at. -/
def addLanding
    (placeholder : Char)
    (region : Region)
    (path : Path)
    (row : Row Identity)
    (space : Workspace) :
    Checked Workspace := do
  let (node, space) ←
    space.adopt (.continuation () [placeholder])
  let row ← insertAt row (path.index + 1) node
  space.close region path.steps ⟨row, path.index + 1, 0⟩

/- Land right after the node with an identity. -/
def landPast
    (id : Identity)
    (placeholder : Char)
    (intoRun : Bool)
    (space : Workspace) :
    Checked Workspace :=
  match space.owners.path? id with
  | none => return space
  | some path =>
      match space.regionOf? path,
          space.root.at? path.steps with
      | some region, some row =>
          let after := path.index + 1
          let land (offset : Nat) : Workspace :=
            { space with
              caret := ⟨region, after, offset, false⟩ }
          match row[after]?, intoRun with
          | some (.continuation _ _), _ => return land 0
          | some (.text run), true => return land run.length
          | _, _ =>
              space.addLanding placeholder region path row
      | _, _ => return space

/- Move forward to the next row of a construct, or out. -/
def forward
    (placeholder : Char)
    (space : Workspace) :
    Checked Workspace :=
  match space.caret.region with
  | .root => return space
  | .slot owner slot =>
      if space.focus = .continuation then
        return space
      else
        match slot.sibling? with
        | none => space.landPast owner placeholder false
        | some sibling =>
            let region := Region.slot owner sibling
            match space.region? region with
            | none => return space
            | some row => do
                let caret ← endOf region row
                return { space with caret }

/- Leave the construct with an identity. -/
def leave
    (id : Identity)
    (placeholder : Char)
    (space : Workspace) :
    Checked Workspace :=
  match space.owner? id with
  | none => return space
  | some _ => space.landPast id placeholder true

------------------------------------------------------------
-- Intents
------------------------------------------------------------

/- Carry out an intent at a caret that lies in its region. -/
def attempt
    (settings : Settings)
    (space : Workspace) :
    Intent → Checked Workspace
  | .forward => space.forward settings.placeholder
  | .trigger => space.trigger settings.limit
  | .fraction => space.addFraction
  | .limit => space.addLimit settings.limit
  | .type c => space.type c
  | .backspace => space.backspace
  | .focus _ => return space
  | .leave id => space.leave id settings.placeholder

/- Put the caret where an intent asks for it first. -/
def aim
    (space : Workspace) :
    Intent → Workspace
  | .focus caret => { space with caret }
  | _ => space

/-
  Apply an intent, where the caret is pulled back into its
  region, or else goes to the end of the document.
-/
def apply
    (settings : Settings)
    (space : Workspace)
    (intent : Intent) :
    Checked (Workspace × Focus) :=
  let space := space.aim intent
  match space.region? space.caret.region with
  | none => do
      let caret ← endOf .root space.root
      return ({ space with caret }, .root)
  | some row => do
      let caret ← clampTo row space.caret
      let space ←
        { space with caret }.attempt settings intent
      return (space, space.focus)

/- Apply intents one after the other, each at the caret. -/
def run
    (settings : Settings)
    (space : Workspace) :
    List Intent → Checked Workspace
  | [] => return space
  | intent :: intents => do
      let (space, _) ← space.apply settings intent
      space.run settings intents

end Workspace

end InPlace

end FormulaEditor
