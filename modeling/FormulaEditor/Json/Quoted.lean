import FormulaEditor.Json.Fault

/-
  This file reads and writes JSON strings.

  Key definitions include:
    * `Json.readString`
    * `Json.skipString`
    * `Json.writeString`

  Key theorems include:
    * `Json.readString_consumes`
    * `Json.skipString_consumes`
-/

namespace FormulaEditor

namespace Json

------------------------------------------------------------
-- Hexadecimal Escapes
------------------------------------------------------------

/- The value of a hexadecimal digit. -/
def hexValue?
    (c : Char) :
    Option Nat :=
  if '0' ≤ c && c ≤ '9' then
    some (c.toNat - '0'.toNat)
  else if 'a' ≤ c && c ≤ 'f' then
    some (c.toNat - 'a'.toNat + 10)
  else if 'A' ≤ c && c ≤ 'F' then
    some (c.toNat - 'A'.toNat + 10)
  else
    none

/- The number of bytes of a text in UTF-8. -/
def byteLength
    (s : Text) :
    Nat :=
  s.foldr (fun c length => c.utf8Size + length) 0

/-
  Read four hexadecimal digits.  The text counts as cut
  short when fewer than four bytes of it are left.
-/
def readHex : Reader Nat
  | a :: b :: c :: d :: rest =>
      match hexValue? a, hexValue? b, hexValue? c,
          hexValue? d with
      | some a, some b, some c, some d =>
          .ok (((a * 16 + b) * 16 + c) * 16 + d, rest)
      | _, _, _, _ => .error .malformed
  | s =>
      if byteLength s < 4 then
        .error .cutShort
      else
        .error .malformed

/- The first halves of surrogate pairs. -/
def isLeading
    (n : Nat) :
    Bool :=
  0xD800 ≤ n && n ≤ 0xDBFF

/- The second halves of surrogate pairs. -/
def isTrailing
    (n : Nat) :
    Bool :=
  0xDC00 ≤ n && n ≤ 0xDFFF

/- Read the second half of a surrogate pair, escape and all. -/
def readTrailing
    (leading : Nat) :
    Reader Char
  | [] => .error .cutShort
  | ['\\'] => .error .cutShort
  | '\\' :: 'u' :: rest =>
      match readHex rest with
      | .error fault => .error fault
      | .ok (n, rest) =>
          if isTrailing n then
            .ok
              (Char.ofNat
                (0x10000 + (leading - 0xD800) * 0x400 +
                  (n - 0xDC00)),
                rest)
          else
            .error .malformed
  | _ => .error .malformed

/- Read a character given by its code units. -/
def readCodeUnits
    (s : Text) :
    Except Fault (Char × Text) :=
  match readHex s with
  | .error fault => .error fault
  | .ok (n, rest) =>
      if isTrailing n then
        .error .malformed
      else if isLeading n then
        readTrailing n rest
      else
        .ok (Char.ofNat n, rest)

------------------------------------------------------------
-- Strings
------------------------------------------------------------

/- The character that a one-letter escape stands for. -/
def shortEscape? : Char → Option Char
  | '"' => some '"'
  | '\\' => some '\\'
  | '/' => some '/'
  | 'b' => some '\x08'
  | 'f' => some '\x0C'
  | 'n' => some '\n'
  | 'r' => some '\r'
  | 't' => some '\t'
  | _ => none

/- Read an escape whose backslash has been read. -/
def readEscape : Reader Char
  | [] => .error .cutShort
  | 'u' :: rest => readCodeUnits rest
  | c :: rest =>
      match shortEscape? c with
      | some d => .ok (d, rest)
      | none => .error .malformed

/-
  Skip an escape whose backslash has been read.  Surrogates
  need not come in pairs.
-/
def skipEscape : Reader Unit
  | [] => .error .cutShort
  | 'u' :: rest => (readHex rest).map fun (_, s) => ((), s)
  | c :: rest =>
      match shortEscape? c with
      | some _ => .ok ((), rest)
      | none => .error .malformed

/- The characters that a string cannot hold unescaped. -/
def isRawControl
    (c : Char) :
    Bool :=
  c.toNat < 0x20

/- Four digits take four characters. -/
theorem length_readHex
    {s rest : Text}
    {n : Nat}
    (hRead : readHex s = .ok (n, rest)) :
    rest.length + 4 = s.length := by
  unfold readHex at hRead
  split at hRead
  · split at hRead <;> simp_all
  · split at hRead <;> simp at hRead

/- Reading the second half of a pair consumes. -/
theorem readTrailing_consumes
    (leading : Nat) :
    Reader.Consumes (readTrailing leading) := by
  intro s rest c hRead
  have hHex := @length_readHex
  unfold readTrailing at hRead
  grind

/- Reading code units consumes. -/
theorem readCodeUnits_consumes :
    Reader.Consumes readCodeUnits := by
  intro s rest c hRead
  unfold readCodeUnits at hRead
  split at hRead
  · simp at hRead
  · rename_i n after hHex
    have hLength := length_readHex hHex
    split at hRead
    · simp at hRead
    · split at hRead
      · have hTrailing := readTrailing_consumes n hRead
        omega
      · simp only [Except.ok.injEq, Prod.mk.injEq] at hRead
        obtain ⟨_, rfl⟩ := hRead
        omega

/- Reading an escape consumes. -/
theorem readEscape_consumes :
    Reader.Consumes readEscape := by
  intro s rest c hRead
  unfold readEscape at hRead
  split at hRead
  · simp at hRead
  · have hUnits := readCodeUnits_consumes hRead
    simp only [List.length_cons]
    omega
  · split at hRead <;> simp_all

/- Skipping an escape consumes. -/
theorem skipEscape_consumes :
    Reader.Consumes skipEscape := by
  intro s rest u hRead
  unfold skipEscape at hRead
  split at hRead
  · simp at hRead
  · rename_i tail
    cases hHex : readHex tail with
    | error fault => simp [hHex, Except.map] at hRead
    | ok found =>
        obtain ⟨n, after⟩ := found
        have hLength := length_readHex hHex
        simp only [hHex, Except.map, Except.ok.injEq,
          Prod.mk.injEq, true_and] at hRead
        subst hRead
        simp only [List.length_cons]
        omega
  · split at hRead <;> simp_all

/-
  Read a string whose opening quote has been read, with the
  given reader of escapes, where `raw` says what to make of
  a character that is not escaped.
-/
def readStringWith
    {α : Type}
    (escape : Reader α)
    (hEscape : Reader.Consumes escape)
    (raw : Char → α)
    (s : Text) :
    Except Fault (List α × Text) :=
  match s with
  | [] => .error .cutShort
  | '"' :: rest => .ok ([], rest)
  | '\\' :: rest =>
      match _hRead : escape rest with
      | .error fault => .error fault
      | .ok (a, after) =>
          match readStringWith escape hEscape raw after with
          | .error fault => .error fault
          | .ok (tail, after) => .ok (a :: tail, after)
  | c :: rest =>
      if isRawControl c then
        .error .malformed
      else
        match readStringWith escape hEscape raw rest with
        | .error fault => .error fault
        | .ok (tail, after) => .ok (raw c :: tail, after)
termination_by s.length
decreasing_by
  · have hLength := hEscape _hRead
    simp only [List.length_cons]
    omega
  · simp

/- Read a string whose opening quote has been read. -/
def readString : Reader Text :=
  readStringWith readEscape readEscape_consumes id

/- Skip a string whose opening quote has been read. -/
def skipString : Reader (List Unit) :=
  readStringWith skipEscape skipEscape_consumes fun _ => ()

/- Reading a string with any reader of escapes consumes. -/
theorem readStringWith_consumes
    {α : Type}
    (escape : Reader α)
    (hEscape : Reader.Consumes escape)
    (raw : Char → α) :
    Reader.Consumes (readStringWith escape hEscape raw) := by
  intro s rest content hRead
  fun_induction readStringWith escape hEscape raw s
    generalizing content rest <;> grind [Reader.Consumes]

/- Reading a string consumes. -/
theorem readString_consumes :
    Reader.Consumes readString :=
  readStringWith_consumes readEscape readEscape_consumes id

/- Skipping a string consumes. -/
theorem skipString_consumes :
    Reader.Consumes skipString :=
  readStringWith_consumes skipEscape skipEscape_consumes
    fun _ => ()

------------------------------------------------------------
-- Writing
------------------------------------------------------------

/- A lower-case hexadecimal digit. -/
def hexDigit
    (n : Nat) :
    Char :=
  if n < 10 then
    Char.ofNat ('0'.toNat + n)
  else
    Char.ofNat ('a'.toNat + (n - 10))

/- Write a character inside a string. -/
def writeChar : Char → Text
  | '"' => ['\\', '"']
  | '\\' => ['\\', '\\']
  | '\x08' => ['\\', 'b']
  | '\x0C' => ['\\', 'f']
  | '\n' => ['\\', 'n']
  | '\r' => ['\\', 'r']
  | '\t' => ['\\', 't']
  | c =>
      if isRawControl c then
        ['\\', 'u', '0', '0',
          hexDigit (c.toNat / 16), hexDigit (c.toNat % 16)]
      else
        [c]

/- Write a string with its quotes. -/
def writeString
    (s : Text) :
    Text :=
  '"' :: s.flatMap writeChar ++ ['"']

end Json

end FormulaEditor
