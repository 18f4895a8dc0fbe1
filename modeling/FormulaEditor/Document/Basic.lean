import FormulaEditor.Formula.Address
import FormulaEditor.Formula.Agreement
import FormulaEditor.Formula.Numbering
import FormulaEditor.Formula.Reading
import FormulaEditor.Formula.Writing

/-
  This file defines documents: a formula with numbered
  nodes, the identity that is handed out next, and an index
  from identities to paths.  A region is a row of a document
  that is named by the identity of its owner, so that its
  name survives edits elsewhere.

  Key definitions include:
    * `Index`
    * `Document`
    * `Document.ofText`
    * `Document.adopt`
    * `Region`
    * `Document.region?`
    * `Document.setRegion?`
    * `Document.regionOf?`
-/

namespace FormulaEditor

------------------------------------------------------------
-- Index
------------------------------------------------------------

/-
  The paths of the identities in a row.  Of several entries
  for one identity the first one counts.
-/
structure Index where
  entries : List (Identity × Path)

namespace Index

/- Of equal identities the last one in a row is indexed. -/
def ofRow
    (row : Row Identity) :
    Index :=
  ⟨row.addresses.reverse⟩

/- The path of an identity. -/
def path?
    (index : Index)
    (id : Identity) :
    Option Path :=
  (index.entries.find? fun entry => entry.1 == id).map
    fun entry => entry.2

end Index

------------------------------------------------------------
-- Documents
------------------------------------------------------------

/-
  A document: its outermost row, the identity that is handed
  out next, and the index of the row, which is never out of
  date.
-/
structure Document where
  root : Row Identity
  next : Identity
  index : Index
  indexed : index = .ofRow root

namespace Document

/- The document of a row, with its index. -/
def ofRow
    (next : Identity)
    (root : Row Identity) :
    Document :=
  ⟨root, next, .ofRow root, rfl⟩

/- Read a document whose identities start at `next`. -/
def ofTextFrom
    (next : Identity)
    (s : Text) :
    Document :=
  let content := Row.ofText s
  ofRow (next + content.ids.length) (content.number next)

/- Read a document whose identities start at zero. -/
def ofText
    (s : Text) :
    Document :=
  ofTextFrom 0 s

/- The document of the empty row. -/
def empty : Document :=
  ofRow 0 []

/-
  Read a whole new document from text.  Identities go on
  from where this document is, so that none of its own is
  handed out again.
-/
def reread
    (document : Document)
    (s : Text) :
    Document :=
  ofTextFrom document.next s

/- Change the outermost row, and the index with it. -/
def withRoot
    (document : Document)
    (root : Row Identity) :
    Document :=
  ofRow document.next root

/- Write a document as text. -/
def toText
    (document : Document) :
    Text :=
  document.root.toText

/- Documents with equal content, whatever their identities. -/
def sameContent
    (document other : Document) :
    Bool :=
  document.root.sameContent other.root

/- Hand out the next identity. -/
def allocate
    (document : Document) :
    Identity × Document :=
  (document.next, { document with next := document.next + 1 })

/-
  Give a node fresh identities.  The node is not placed
  anywhere in the document.
-/
def adopt
    (document : Document)
    (content : Node Unit) :
    Node Identity × Document :=
  (content.number document.next,
    { document with
      next := document.next + content.ids.length })

end Document

------------------------------------------------------------
-- Addresses
------------------------------------------------------------

/- A row of a document: the outermost one, or a slot. -/
inductive Region where
  | root
  | slot (owner : Identity) (slot : Slot)
  deriving DecidableEq

namespace Document

/- The path of an identity. -/
def path?
    (document : Document)
    (id : Identity) :
    Option Path :=
  document.index.path? id

/- The row that steps reach. -/
def rowAt?
    (document : Document)
    (steps : List Step) :
    Option (Row Identity) :=
  document.root.at? steps

/- The node that a path ends at. -/
def nodeAt?
    (document : Document)
    (path : Path) :
    Option (Node Identity) :=
  document.root.nodeAt? path

/- Replace the row that steps reach. -/
def setRowAt?
    (document : Document)
    (steps : List Step)
    (row : Row Identity) :
    Option Document :=
  (document.root.replaceAt? row steps).map document.withRoot

/- The construct with an identity. -/
def owner?
    (document : Document)
    (id : Identity) :
    Option (Node Identity) :=
  match document.path? id with
  | none => none
  | some path =>
      (document.nodeAt? path).filter Node.isConstruct

/- The steps to the row of a region. -/
def stepsTo?
    (document : Document) :
    Region → Option (List Step)
  | .root => some []
  | .slot owner slot =>
      (document.path? owner).map (·.stepsInto slot)

/- The row of a region. -/
def region?
    (document : Document)
    (region : Region) :
    Option (Row Identity) :=
  match document.stepsTo? region with
  | none => none
  | some steps => document.rowAt? steps

/- Replace the row of a region. -/
def setRegion?
    (document : Document)
    (region : Region)
    (row : Row Identity) :
    Option Document :=
  match document.stepsTo? region with
  | none => none
  | some steps => document.setRowAt? steps row

/-
  The region that a path ends in: the outermost row, or the
  last slot that the path steps into, named by the identity
  of the node there.
-/
def regionOf?
    (document : Document)
    (path : Path) :
    Option Region :=
  match path.steps.getLast? with
  | none => some .root
  | some last =>
      match document.nodeAt?
          ⟨path.steps.dropLast, last.index⟩ with
      | none => none
      | some node =>
          node.id?.map (.slot · last.slot)

end Document

end FormulaEditor
