import FormulaEditor.Formula.Node

/-
  This file defines when two formula trees agree, given
  which of their identities count as the same.

  Key definitions include:
    * `Row.agree`
    * `Row.sameContent`
    * `Row.identical`
-/

namespace FormulaEditor

variable {ι κ : Type}

mutual

/-
  Two nodes agree when they have the same shape and text
  and their identities are pairwise the same.
-/
def Node.agree
    (same : ι → κ → Bool) :
    Node ι → Node κ → Bool
  | .text run, .text run' => run == run'
  | .construct kind id first second,
      .construct kind' id' first' second' =>
      decide (kind = kind') && same id id' &&
        Row.agree same first first' &&
        Row.agree same second second'
  | .continuation id content, .continuation id' content' =>
      same id id' && content == content'
  | _, _ => false

/- Two rows agree when their nodes agree one by one. -/
def Row.agree
    (same : ι → κ → Bool) :
    Row ι → Row κ → Bool
  | [], [] => true
  | node :: rest, node' :: rest' =>
      node.agree same node' && Row.agree same rest rest'
  | _, _ => false

end

namespace Row

/- Agreement that overlooks identities. -/
def sameContent
    (row : Row ι)
    (other : Row κ) :
    Bool :=
  row.agree (fun _ _ => true) other

/- Agreement that asks for equal identities too. -/
def identical
    [BEq ι]
    (row other : Row ι) :
    Bool :=
  row.agree (· == ·) other

end Row

end FormulaEditor
