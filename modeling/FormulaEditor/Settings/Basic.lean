import FormulaEditor.Formula.Reading

/-
  This file defines the settings of the editor and the
  values that they have when nothing else is said.

  Key definitions include:
    * `LimitTemplate`
    * `LimitTemplate.node`
    * `Settings`
    * `Settings.standard`
-/

namespace FormulaEditor

/- The texts of the two rows that a new limit starts with. -/
structure LimitTemplate where
  subscript : Text
  expression : Text
  deriving DecidableEq

namespace LimitTemplate

/- The condition and the expression of an ordinary limit. -/
def standard : LimitTemplate where
  subscript := "x \\to -\\infty".toList
  expression := "\\frac\x7bx\x7d\x7b2x-3\x7d".toList

/- The content of a new limit. -/
def node
    (limit : LimitTemplate) :
    Node Unit :=
  .construct .limit ()
    (Row.ofText (Text.trim limit.subscript))
    (Row.ofText (Text.trim limit.expression))

end LimitTemplate

/-
  The settings of the editor: how many milliseconds a
  formula is left alone before it is sent to the host, the
  character that asks for a construct, the character that
  fills a new continuation, and what a new limit holds.
-/
structure Settings where
  debounce : UInt64
  trigger : Char
  placeholder : Char
  limit : LimitTemplate
  deriving DecidableEq

/- The settings when nothing else is said. -/
def Settings.standard : Settings where
  debounce := 500
  trigger := '/'
  placeholder := '\u00A0'
  limit := .standard

end FormulaEditor
