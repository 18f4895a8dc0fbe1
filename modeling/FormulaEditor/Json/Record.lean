import FormulaEditor.Json.Typed

/-
  This file reads and writes JSON records: objects with some
  known keys, or lists of their values in order.  Whatever
  is left out keeps its value from an initial record, and
  what stands under an unknown key is skipped.

  Key definitions include:
    * `Json.Field`
    * `Json.readMember`
    * `Json.readMembers`
    * `Json.readElements`
    * `Json.readRecord`
    * `Json.readWhole`
    * `Json.writeObject`

  Key theorems include:
    * `Json.readRecord_consumes`
-/

namespace FormulaEditor

namespace Json

variable {σ : Type}

------------------------------------------------------------
-- Fields
------------------------------------------------------------

/-
  A field of a record: its key, and a reader of its value
  that answers how the value changes the record.
-/
structure Field (σ : Type) where
  key : Text
  read : Reader (σ → σ)
  consumes : Reader.Consumes read

/- A reader that answers how a value changes a record. -/
def Reader.setting
    {α : Type}
    (read : Reader α)
    (set : α → σ → σ) :
    Reader (σ → σ) := fun s =>
  match read s with
  | .error fault => .error fault
  | .ok (a, rest) => .ok (set a, rest)

/- Saying what to do with a value consumes as much. -/
theorem Reader.setting_consumes
    {α : Type}
    {read : Reader α}
    {set : α → σ → σ}
    (hRead : read.Consumes) :
    (read.setting set).Consumes := by
  intro s rest change hSetting
  unfold Reader.setting at hSetting
  grind [Reader.Consumes]

/- The field of a key whose value is put into a record. -/
def Field.of
    {α : Type}
    (key : Text)
    (read : Reader α)
    (hRead : read.Consumes)
    (set : α → σ → σ) :
    Field σ where
  key := key
  read := read.setting set
  consumes := Reader.setting_consumes hRead

------------------------------------------------------------
-- Objects
------------------------------------------------------------

/- Read a key. -/
def readKey
    (s : Text) :
    Except Fault (Text × Text) :=
  match skipBlank s with
  | [] => .error .cutShort
  | '"' :: rest => readString rest
  | _ => .error .malformed

/- Reading a key consumes. -/
theorem readKey_consumes : Reader.Consumes readKey := by
  intro s rest key hRead
  have hBlank := length_skipBlank_le s
  have hString := @readString_consumes
  unfold readKey at hRead
  grind [Reader.Consumes]

/-
  What reading a member of an object leads to: the record,
  and the known keys that have been seen.
-/
structure Progress (σ : Type) where
  record : σ
  seen : List Text

/-
  Read a member of an object.  A known key that has been
  seen before is a fault at once.
-/
def readMember
    (fields : List (Field σ))
    (progress : Progress σ)
    (s : Text) :
    Except Fault (Progress σ × Text) :=
  match readKey s with
  | .error fault => .error fault
  | .ok (key, rest) =>
      match fields.find? fun field => field.key == key with
      | none =>
          match readColon rest with
          | .error fault => .error fault
          | .ok (_, rest) =>
              match skipValue rest with
              | .error fault => .error fault
              | .ok (_, rest) => .ok (progress, rest)
      | some field =>
          if progress.seen.contains key then
            .error .mistyped
          else
            match readColon rest with
            | .error fault => .error fault
            | .ok (_, rest) =>
                match field.read rest with
                | .error fault => .error fault
                | .ok (change, rest) =>
                    .ok (⟨change progress.record,
                      key :: progress.seen⟩, rest)

/- Reading a member consumes. -/
theorem readMember_consumes
    (fields : List (Field σ))
    (progress : Progress σ) :
    Reader.Consumes (readMember fields progress) := by
  intro s rest after hRead
  have hKey := @readKey_consumes
  have hColon := @readColon_consumes
  have hValue := @skipValue_consumes
  have hField := @Field.consumes σ
  unfold readMember at hRead
  grind [Reader.Consumes]

/- Read the members of an object from the next key on. -/
def readMembers
    (fields : List (Field σ))
    (progress : Progress σ)
    (s : Text) :
    Except Fault (σ × Text) :=
  match _hMember : readMember fields progress s with
  | .error fault => .error fault
  | .ok (after, rest) =>
      match _hNext : Bracket.object.readNext rest with
      | .error fault => .error fault
      | .ok (true, rest) => readMembers fields after rest
      | .ok (false, rest) => .ok (after.record, rest)
termination_by s.length
decreasing_by
  have hMember := readMember_consumes fields progress _hMember
  have hNext := Bracket.object.readNext_consumes _hNext
  omega

/- Reading members consumes. -/
theorem readMembers_consumes
    (fields : List (Field σ))
    (progress : Progress σ) :
    Reader.Consumes (readMembers fields progress) := by
  intro s rest record hRead
  have hMember := @readMember_consumes σ
  have hNext := @Bracket.readNext_consumes
  fun_induction readMembers fields progress s <;>
    grind [Reader.Consumes]

------------------------------------------------------------
-- Lists
------------------------------------------------------------

/-
  Read the values of fields from a list, in order.  The list
  may end early, but it cannot hold more.  `start` is set in
  front of the first value.
-/
def readElements :
    List (Field σ) → σ → Bool → Reader σ
  | [], record, _, s =>
      match Bracket.list.readNext s with
      | .error fault => .error fault
      | .ok (true, _) => .error .malformed
      | .ok (false, rest) => .ok (record, rest)
  | field :: fields, record, start, s =>
      match
        if start then
          Bracket.list.readFirst s
        else
          Bracket.list.readNext s with
      | .error fault => .error fault
      | .ok (false, rest) => .ok (record, rest)
      | .ok (true, rest) =>
          match field.read rest with
          | .error fault => .error fault
          | .ok (change, rest) =>
              readElements fields (change record) false rest

/- Reading elements never lengthens a text. -/
theorem length_readElements_le
    {fields : List (Field σ)}
    {record after : σ}
    {start : Bool}
    {s rest : Text}
    (hRead :
      readElements fields record start s =
        .ok (after, rest)) :
    rest.length ≤ s.length := by
  have hFirst := @Bracket.length_readFirst_le
  have hNext := @Bracket.readNext_consumes
  have hField := @Field.consumes σ
  induction fields generalizing record start s with
  | nil => grind [readElements, Reader.Consumes]
  | cons field fields ih =>
      unfold readElements at hRead
      grind [Reader.Consumes]

------------------------------------------------------------
-- Records
------------------------------------------------------------

/- Read a record that starts out as an initial one. -/
def readRecord
    (fields : List (Field σ))
    (initial : σ)
    (s : Text) :
    Except Fault (σ × Text) :=
  match Bracket.ofOpening? (skipBlank s) with
  | none => .error (misfit (skipBlank s))
  | some (.list, rest) =>
      readElements fields initial true rest
  | some (.object, rest) =>
      match Bracket.object.readFirst rest with
      | .error fault => .error fault
      | .ok (false, rest) => .ok (initial, rest)
      | .ok (true, rest) =>
          readMembers fields ⟨initial, []⟩ rest

/- Reading a record consumes. -/
theorem readRecord_consumes
    (fields : List (Field σ))
    (initial : σ) :
    Reader.Consumes (readRecord fields initial) := by
  intro s rest record hRead
  have hBlank := length_skipBlank_le s
  have hOpen := @Bracket.length_ofOpening?
  have hElements := @length_readElements_le σ
  have hFirst := @Bracket.length_readFirst_le
  have hMembers := @readMembers_consumes σ
  unfold readRecord at hRead
  grind [Reader.Consumes]

/- Read a text that is one value with blanks around it. -/
def readWhole
    {α : Type}
    (read : Reader α)
    (s : Text) :
    Except Fault α :=
  match read s with
  | .error fault => .error fault
  | .ok (a, rest) =>
      match skipBlank rest with
      | [] => .ok a
      | _ => .error .malformed

------------------------------------------------------------
-- Writing
------------------------------------------------------------

/- Write an object, given its keys and written values. -/
def writeObject
    (members : List (Text × Text)) :
    Text :=
  let written := members.map
    fun (key, value) => writeString key ++ ':' :: value
  '\x7b' :: [','].intercalate written ++ ['\x7d']

end Json

end FormulaEditor
