import FormulaEditor.Editing.Deletion
import FormulaEditor.Editing.Insertion
import FormulaEditor.Editing.Movement

/-
  This file defines what can be asked of an editor, by keys
  or otherwise, and how an editor answers.

  Key definitions include:
    * `Intent`
    * `Key`
    * `Intent.ofKey?`
    * `Editor.attempt`
    * `Editor.apply`
-/

namespace FormulaEditor

/-
  Requests to an editor: to move forward, to insert what the
  trigger stands for, to insert a fraction or a limit, to
  type a character, to delete backwards, to put the caret
  somewhere, or to leave a construct.
-/
inductive Intent where
  | forward
  | trigger
  | fraction
  | limit
  | type (c : Char)
  | backspace
  | focus (caret : Caret)
  | leave (id : Identity)
  deriving DecidableEq

/- The keys that are told apart. -/
inductive Key where
  | tab
  | backspace
  | char (c : Char)
  | other
  deriving DecidableEq

/- The intent that a key stands for, if it stands for one. -/
def Intent.ofKey?
    (trigger : Char) :
    Key → Option Intent
  | .tab => some .forward
  | .backspace => some .backspace
  | .char c =>
      if c = trigger then some .trigger else some (.type c)
  | .other => none

namespace Editor

/- Carry out an intent at a caret that lies in its region. -/
def attempt
    (settings : Settings)
    (editor : Editor) :
    Intent → Outcome
  | .forward => editor.forward settings.placeholder
  | .trigger => editor.trigger settings.limit
  | .fraction => editor.addFraction
  | .limit => editor.addLimit settings.limit
  | .type c => editor.type c
  | .backspace => editor.backspace
  | .focus _ => .done editor
  | .leave id => editor.leave id settings.placeholder

/- Put the caret where an intent asks for it first. -/
def aim
    (editor : Editor) :
    Intent → Editor
  | .focus caret => { editor with caret }
  | _ => editor

/-
  Apply an intent: pull the caret back into its region and
  carry the intent out there.  If the region is gone, the
  intent is dropped and the caret goes to the end of the
  document.  The answer tells what the caret is in then.
-/
def apply
    (settings : Settings)
    (editor : Editor)
    (intent : Intent) :
    Editor × Focus :=
  let aimed := editor.aim intent
  match aimed.document.clamp? aimed.caret with
  | none => (.atEnd aimed.document, .root)
  | some caret =>
      let outcome :=
        attempt settings { aimed with caret } intent
      (outcome.editor, outcome.editor.focus)

end Editor

end FormulaEditor
