import FormulaEditor.Formula.Node
import FormulaEditor.Text.Placeholder
import FormulaEditor.Text.Braces

/-
  This file writes formula trees as text.

  Key definitions include:
    * `Node.toText`
    * `Row.toText`
-/

namespace FormulaEditor

variable {ι : Type}

mutual

/-
  Write a node: a run as it is, a continuation without its
  placeholder, a fraction as two groups, and a limit as one
  group with its trimmed expression after a space.
-/
def Node.toText : Node ι → Text
  | .text run => run
  | .construct .fraction _ first second =>
      Kind.fraction.command ++
        Text.group (Row.toText first) ++
        Text.group (Row.toText second)
  | .construct .limit _ first second =>
      Kind.limit.command ++
        Text.group (Row.toText first) ++
        ' ' :: Text.trim (Row.toText second)
  | .continuation _ content => Text.withoutPlaceholders content

/- Write a row, node after node. -/
def Row.toText : Row ι → Text
  | [] => []
  | node :: rest => node.toText ++ Row.toText rest

end

end FormulaEditor
