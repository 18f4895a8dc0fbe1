import FormulaEditor.Formula.Node

/-
  This file numbers formula trees: identities are handed out
  in document order, to a node before its rows and to its
  first row before its second.

  Key definitions include:
    * `Identity`
    * `Node.number`
    * `Row.number`
-/

namespace FormulaEditor

/- Identities are counted up from zero. -/
abbrev Identity :=
  Nat

variable {ι : Type}

mutual

/- Number a node with `next` as its first identity. -/
def Node.number
    (next : Identity) :
    Node ι → Node Identity
  | .text run => .text run
  | .construct kind _ first second =>
      .construct kind next
        (Row.number (next + 1) first)
        (Row.number (next + 1 + (Row.ids first).length) second)
  | .continuation _ content => .continuation next content

/- Number a row with `next` as its first identity. -/
def Row.number
    (next : Identity) :
    Row ι → Row Identity
  | [] => []
  | node :: rest =>
      node.number next ::
        Row.number (next + node.ids.length) rest

end

end FormulaEditor
