import FormulaEditor.Json.Skip

/-
  This file reads JSON values of an expected type: whole
  numbers, characters and texts.  A value of another type is
  read to its end where it has no parts, so that its own
  faults come first.

  Key definitions include:
    * `Json.misfit`
    * `Json.readNatural`
    * `Json.readText`
    * `Json.readChar`
-/

namespace FormulaEditor

namespace Json

/- The fault of a value that is not of the expected type. -/
def misfit : Text → Fault
  | [] => .cutShort
  | '"' :: rest => .ofWrongType (readString rest)
  | c :: rest =>
      if c == '[' || c == '\x7b' then
        .mistyped
      else if c == '-' || isDigit c then
        .ofWrongType (readNumeral (c :: rest))
      else
        .ofWrongType (readWord (c :: rest))

/- Read a whole number that fits in 64 bits. -/
def readNatural
    (s : Text) :
    Except Fault (Nat × Text) :=
  match skipBlank s with
  | [] => .error .cutShort
  | c :: rest =>
      if c == '-' || isDigit c then
        match readNumeral (c :: rest) with
        | .error fault => .error fault
        | .ok (numeral, rest) =>
            match numeral.natural? with
            | some n => .ok (n, rest)
            | none => .error .mistyped
      else
        .error (misfit (c :: rest))

/- Read a text. -/
def readText
    (s : Text) :
    Except Fault (Text × Text) :=
  match skipBlank s with
  | '"' :: rest => readString rest
  | other => .error (misfit other)

/- Read a text of exactly one character. -/
def readChar
    (s : Text) :
    Except Fault (Char × Text) :=
  match readText s with
  | .error fault => .error fault
  | .ok ([c], rest) => .ok (c, rest)
  | .ok _ => .error .mistyped

/- Reading a whole number consumes. -/
theorem readNatural_consumes :
    Reader.Consumes readNatural := by
  intro s rest n hRead
  have hBlank := length_skipBlank_le s
  have hNumeral := @readNumeral_consumes
  unfold readNatural at hRead
  grind [Reader.Consumes]

/- Reading a text consumes. -/
theorem readText_consumes : Reader.Consumes readText := by
  intro s rest content hRead
  have hBlank := length_skipBlank_le s
  have hString := @readString_consumes
  unfold readText at hRead
  grind [Reader.Consumes]

/- Reading a character consumes. -/
theorem readChar_consumes : Reader.Consumes readChar := by
  intro s rest c hRead
  have hText := @readText_consumes
  unfold readChar at hRead
  grind [Reader.Consumes]

end Json

end FormulaEditor
