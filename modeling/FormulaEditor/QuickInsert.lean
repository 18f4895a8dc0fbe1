import FormulaEditor.Host

/-
  This file defines the quick-insert panel: two plain fields
  whose texts are inserted at the caret of the host with a
  slash between them.

  Key definitions include:
    * `QuickInsert`
    * `QuickInsert.text`
    * `QuickInsert.submit`
    * `QuickInsert.press`
-/

namespace FormulaEditor

------------------------------------------------------------
-- Fields and Keys
------------------------------------------------------------

namespace QuickInsert

/- The two fields of the panel. -/
inductive Field where
  | numerator
  | denominator
  deriving DecidableEq

/- The other field. -/
def Field.other : Field → Field
  | .numerator => .denominator
  | .denominator => .numerator

/- The keys that the panel responds to. -/
inductive Key where
  | tab
  | enter
  | backspace
  | char (c : Char)
  deriving DecidableEq

end QuickInsert

------------------------------------------------------------
-- The Panel
------------------------------------------------------------

/- The texts of the fields, and the field with the focus. -/
structure QuickInsert where
  numerator : Text
  denominator : Text
  focus : QuickInsert.Field
  deriving DecidableEq

namespace QuickInsert

/- The panel with empty fields and its first one in focus. -/
def empty : QuickInsert :=
  ⟨[], [], .numerator⟩

/- The text that the panel inserts. -/
def text
    (panel : QuickInsert) :
    Text :=
  panel.numerator ++ '/' :: panel.denominator

/- Change the text of the field with the focus. -/
def edit
    (panel : QuickInsert)
    (change : Text → Text) :
    QuickInsert :=
  match panel.focus with
  | .numerator =>
      { panel with numerator := change panel.numerator }
  | .denominator =>
      { panel with denominator := change panel.denominator }

/-
  Insert the text of the panel at the caret of a host.  The
  panel is emptied whether or not the host accepts.
-/
def submit
    (panel : QuickInsert)
    (host : Host) :
    Reply (QuickInsert × Host) (Except HostError Unit) :=
  let reply := host.insert panel.text
  ⟨(empty, reply.state), reply.answer, reply.calls⟩

/- Respond to a key.  The answer tells if it submits. -/
def press
    (panel : QuickInsert)
    (host : Host) :
    Key →
      Reply (QuickInsert × Host) (Except HostError Bool)
  | .tab =>
      ⟨({ panel with focus := panel.focus.other }, host),
        .ok false, []⟩
  | .enter =>
      let reply := panel.submit host
      ⟨reply.state, reply.answer.map fun _ => true,
        reply.calls⟩
  | .backspace =>
      ⟨(panel.edit List.dropLast, host), .ok false, []⟩
  | .char c =>
      ⟨(panel.edit (· ++ [c]), host), .ok false, []⟩

end QuickInsert

end FormulaEditor
