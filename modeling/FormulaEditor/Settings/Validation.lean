import FormulaEditor.Settings.Basic
import FormulaEditor.Text.QuotedChar

/-
  This file defines which settings are acceptable, and what
  is said about those that are not.

  Key definitions include:
    * `SettingsError`
    * `SettingsError.message`
    * `Settings.error?`
    * `Settings.validate`
-/

namespace FormulaEditor

------------------------------------------------------------
-- Errors
------------------------------------------------------------

/-
  What is wrong with settings: no time to wait, a character
  that is not a placeholder, a trigger that cannot be seen,
  or a limit row that is empty, not balanced, or broken over
  lines.
-/
inductive SettingsError where
  | noDelay
  | strangePlaceholder (c : Char)
  | unseenTrigger (c : Char)
  | emptyLimit (slot : Slot)
  | malformedLimit (slot : Slot)
  deriving DecidableEq

/- The words for what is wrong with settings. -/
def SettingsError.message : SettingsError → Text
  | .noDelay =>
      "debounce interval must be greater than zero".toList
  | .strangePlaceholder c =>
      "placeholder ".toList ++ quotedChar c ++
        " is not a recognised caret anchor".toList
  | .unseenTrigger c =>
      "trigger ".toList ++ quotedChar c ++
        " must be a printable, non-whitespace character".toList
  | .emptyLimit slot =>
      "default limit ".toList ++ slot.name ++
        " must not be empty".toList
  | .malformedLimit slot =>
      "default limit ".toList ++ slot.name ++
        (" must have balanced braces and " ++
          "fit on one line").toList

------------------------------------------------------------
-- Validation
------------------------------------------------------------

/-
  What is wrong with the text of a limit row.  A line break
  is wrong in an expression only, which it would end early.
-/
def limitError?
    (slot : Slot)
    (s : Text) :
    Option SettingsError :=
  let value := Text.trim s
  if value.isEmpty then
    some (.emptyLimit slot)
  else if !Text.isBalanced value ||
      (slot == .expression && value.any isLineBreak) then
    some (.malformedLimit slot)
  else
    none

namespace Settings

/- The first thing that is wrong with settings. -/
def error?
    (settings : Settings) :
    Option SettingsError :=
  if settings.debounce = 0 then
    some .noDelay
  else if !isPlaceholder settings.placeholder then
    some (.strangePlaceholder settings.placeholder)
  else if isBlank settings.trigger ||
      isControl settings.trigger then
    some (.unseenTrigger settings.trigger)
  else
    limitError? .subscript settings.limit.subscript <|>
      limitError? .expression settings.limit.expression

/- Settings with nothing wrong, or the first thing wrong. -/
def validate
    (settings : Settings) :
    Except SettingsError Settings :=
  match settings.error? with
  | none => .ok settings
  | some error => .error error

end Settings

end FormulaEditor
