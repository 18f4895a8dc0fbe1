import FormulaEditor.Json.Fault

/-
  This file reads the punctuation of JSON lists and objects.

  Key definitions include:
    * `Json.Bracket`
    * `Json.Bracket.ofOpening?`
    * `Json.Bracket.readFirst`
    * `Json.Bracket.readNext`
    * `Json.readColon`
-/

namespace FormulaEditor

namespace Json

------------------------------------------------------------
-- Brackets
------------------------------------------------------------

/- What a value that is still open is: a list or an object. -/
inductive Bracket where
  | list
  | object

namespace Bracket

/- The bracket that a text opens with. -/
def ofOpening? : Text → Option (Bracket × Text)
  | '[' :: rest => some (.list, rest)
  | '\x7b' :: rest => some (.object, rest)
  | _ => none

/- The character that closes a bracket. -/
def closing : Bracket → Char
  | .list => ']'
  | .object => '\x7d'

/-
  Read what follows an opening bracket: the answer is false
  when the bracket closes at once.
-/
def readFirst
    (bracket : Bracket)
    (s : Text) :
    Except Fault (Bool × Text) :=
  match skipBlank s with
  | [] => .error .cutShort
  | c :: rest =>
      if c = bracket.closing then
        .ok (false, rest)
      else
        .ok (true, c :: rest)

/-
  Read what follows a value inside a bracket: a comma, or
  its end, for which the answer is false.
-/
def readNext
    (bracket : Bracket)
    (s : Text) :
    Except Fault (Bool × Text) :=
  match skipBlank s with
  | [] => .error .cutShort
  | c :: rest =>
      if c = bracket.closing then
        .ok (false, rest)
      else if c = ',' then
        .ok (true, rest)
      else
        .error .malformed

/- An opening bracket is one character. -/
theorem length_ofOpening?
    {s rest : Text}
    {bracket : Bracket}
    (hOpen : ofOpening? s = some (bracket, rest)) :
    rest.length < s.length := by
  unfold ofOpening? at hOpen
  grind

/- Reading on from an opening never lengthens a text. -/
theorem length_readFirst_le
    {bracket : Bracket}
    {s rest : Text}
    {more : Bool}
    (hRead : bracket.readFirst s = .ok (more, rest)) :
    rest.length ≤ s.length := by
  have hBlank := length_skipBlank_le s
  unfold readFirst at hRead
  grind

/- Reading on from a value consumes. -/
theorem readNext_consumes
    (bracket : Bracket) :
    Reader.Consumes bracket.readNext := by
  intro s rest more hRead
  have hBlank := length_skipBlank_le s
  unfold readNext at hRead
  grind

end Bracket

------------------------------------------------------------
-- Colons
------------------------------------------------------------

/- Read the colon between a key and its value. -/
def readColon
    (s : Text) :
    Except Fault (Unit × Text) :=
  match skipBlank s with
  | [] => .error .cutShort
  | ':' :: rest => .ok ((), rest)
  | _ => .error .malformed

/- Reading a colon consumes. -/
theorem readColon_consumes : Reader.Consumes readColon := by
  intro s rest u hRead
  have hBlank := length_skipBlank_le s
  unfold readColon at hRead
  grind

end Json

end FormulaEditor
