import FormulaEditor.Text.Blank

/-
  This file defines how reading JSON from the start of a
  text can fail, and the smallest readers.

  Key definitions include:
    * `Json.Fault`
    * `Json.Reader`
    * `Json.Reader.Consumes`
    * `Json.skipBlank`
    * `Json.readWord`
-/

namespace FormulaEditor

namespace Json

------------------------------------------------------------
-- Readers
------------------------------------------------------------

/-
  Why a text is not read: it ends too early, it breaks the
  grammar, or it says something of another type or range
  than what is asked for.
-/
inductive Fault where
  | cutShort
  | malformed
  | mistyped
  deriving DecidableEq

/-
  A reader takes something off the start of a text and
  answers it with the rest of the text.
-/
abbrev Reader (α : Type) :=
  Text → Except Fault (α × Text)

/- A reader consumes when it leaves less than it is given. -/
def Reader.Consumes
    {α : Type}
    (read : Reader α) : Prop :=
  ∀ {s rest : Text} {a : α},
    read s = .ok (a, rest) → rest.length < s.length

/-
  The fault of reading something of the wrong type: its own
  fault comes first.
-/
def Fault.ofWrongType
    {α : Type} :
    Except Fault α → Fault
  | .error fault => fault
  | .ok _ => .mistyped

------------------------------------------------------------
-- Blanks and Words
------------------------------------------------------------

/- The blanks of JSON. -/
def isJsonBlank
    (c : Char) :
    Bool :=
  c == ' ' || c == '\n' || c == '\t' || c == '\r'

/- Drop the blanks that a text starts with. -/
def skipBlank
    (s : Text) :
    Text :=
  s.dropWhile isJsonBlank

/- Skipping blanks never lengthens a text. -/
theorem length_skipBlank_le
    (s : Text) :
    (skipBlank s).length ≤ s.length :=
  (List.dropWhile_suffix isJsonBlank).length_le

/- Read the characters of a word, one after the other. -/
def expect : Text → Reader Unit
  | [], s => .ok ((), s)
  | _ :: _, [] => .error .cutShort
  | c :: word, d :: rest =>
      if c = d then expect word rest else .error .malformed

/- Read one of the three words of JSON. -/
def readWord : Reader Unit
  | 'n' :: rest => expect "ull".toList rest
  | 't' :: rest => expect "rue".toList rest
  | 'f' :: rest => expect "alse".toList rest
  | _ => .error .malformed

/- Reading a word never lengthens a text. -/
theorem length_expect_le
    {word s rest : Text}
    {a : Unit}
    (hRead : expect word s = .ok (a, rest)) :
    rest.length ≤ s.length := by
  fun_induction expect word s <;> grind

/- Reading one of the words consumes. -/
theorem readWord_consumes : Reader.Consumes readWord := by
  intro s rest a hRead
  have hExpect := @length_expect_le
  unfold readWord at hRead
  grind

end Json

end FormulaEditor
