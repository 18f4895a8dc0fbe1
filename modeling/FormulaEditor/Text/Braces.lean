import FormulaEditor.Text.Blank

/-
  This file defines how braces pair up in a text.  A
  backslash escapes the character after it, so that an
  escaped brace pairs with nothing.

  Key definitions include:
    * `Text.isBalanced`
    * `Text.readGroup`
    * `Text.escapeLone`
    * `Text.group`

  Key theorems include:
    * `Text.length_readGroup`
-/

namespace FormulaEditor

namespace Text

------------------------------------------------------------
-- Balance
------------------------------------------------------------

/-
  Whether every brace of a text finds its partner when
  `depth` opening braces before it are still unpaired, and
  no escape is left without its character.
-/
def balancedFrom : Nat → Text → Bool
  | depth, [] => depth == 0
  | _, ['\\'] => false
  | depth, '\\' :: _ :: rest => balancedFrom depth rest
  | depth, '\x7b' :: rest => balancedFrom (depth + 1) rest
  | 0, '\x7d' :: _ => false
  | depth + 1, '\x7d' :: rest => balancedFrom depth rest
  | depth, _ :: rest => balancedFrom depth rest

/-
  A balanced text can stand inside a brace group without
  changing where the group ends.
-/
def isBalanced
    (s : Text) :
    Bool :=
  balancedFrom 0 s

------------------------------------------------------------
-- Reading a Group
------------------------------------------------------------

/-
  Read up to the closing brace that pairs with the opening
  brace `depth + 1` levels out.  The answer is the text
  before that closing brace and the text after it.
-/
def readGroupFrom : Nat → Text → Option (Text × Text)
  | _, [] => none
  | _, ['\\'] => none
  | depth, '\\' :: c :: rest =>
      (readGroupFrom depth rest).map
        fun (content, after) => ('\\' :: c :: content, after)
  | depth, '\x7b' :: rest =>
      (readGroupFrom (depth + 1) rest).map
        fun (content, after) => ('\x7b' :: content, after)
  | 0, '\x7d' :: rest => some ([], rest)
  | depth + 1, '\x7d' :: rest =>
      (readGroupFrom depth rest).map
        fun (content, after) => ('\x7d' :: content, after)
  | depth, c :: rest =>
      (readGroupFrom depth rest).map
        fun (content, after) => (c :: content, after)

/-
  Read the content of a group whose opening brace has just
  been read.  There is no answer if the group never closes.
-/
def readGroup
    (s : Text) :
    Option (Text × Text) :=
  readGroupFrom 0 s

/- A group leaves out its closing brace and nothing else. -/
theorem length_readGroupFrom
    {depth : Nat}
    {s content after : Text}
    (hRead : readGroupFrom depth s = some (content, after)) :
    content.length + after.length + 1 = s.length := by
  fun_induction readGroupFrom depth s
    generalizing content after <;>
      grind [Option.map_eq_some_iff]

/- A group leaves out its closing brace and nothing else. -/
theorem length_readGroup
    {s content after : Text}
    (hRead : readGroup s = some (content, after)) :
    content.length + after.length + 1 = s.length :=
  length_readGroupFrom hRead

------------------------------------------------------------
-- Writing a Group
------------------------------------------------------------

/-
  Escape the braces that have no partner, where `depth`
  opening braces before the text wait for one.  The number
  beside the answer counts the closing braces that pair
  with those.  A space completes an escape that the text
  leaves without its character.
-/
def escapeLoneFrom : Nat → Text → Text × Nat
  | _, [] => ([], 0)
  | _, ['\\'] => (['\\', ' '], 0)
  | depth, '\\' :: c :: rest =>
      let (written, closing) := escapeLoneFrom depth rest
      ('\\' :: c :: written, closing)
  | depth, '\x7b' :: rest =>
      match escapeLoneFrom (depth + 1) rest with
      | (written, 0) => ('\\' :: '\x7b' :: written, 0)
      | (written, closing + 1) => ('\x7b' :: written, closing)
  | 0, '\x7d' :: rest =>
      let (written, closing) := escapeLoneFrom 0 rest
      ('\\' :: '\x7d' :: written, closing)
  | depth + 1, '\x7d' :: rest =>
      let (written, closing) := escapeLoneFrom depth rest
      ('\x7d' :: written, closing + 1)
  | depth, c :: rest =>
      let (written, closing) := escapeLoneFrom depth rest
      (c :: written, closing)

/- A text with its lone braces escaped, ready for a group. -/
def escapeLone
    (s : Text) :
    Text :=
  (escapeLoneFrom 0 s).1

/- A text written as a brace group. -/
def group
    (s : Text) :
    Text :=
  '\x7b' :: escapeLone (trim s) ++ ['\x7d']

end Text

end FormulaEditor
