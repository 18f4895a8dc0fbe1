import FormulaEditor.Editing.Cursor
import FormulaEditor.Json.Quoted

/-
  This file defines accesses that can fail: to the elements
  of a list by their index, and to the characters of a text
  by the number of bytes in front of them in UTF-8.  It
  proves that they succeed where they are meant to.

  Key definitions include:
    * `InPlace.Fault`
    * `InPlace.Checked`
    * `InPlace.insertAt`
    * `InPlace.removeAt`
    * `InPlace.byteOffset`
    * `InPlace.splitAt`

  Key theorems include:
    * `InPlace.insertAt_append`
    * `InPlace.splitAt_append`
    * `InPlace.splitAt_byteOffset`
-/

namespace FormulaEditor

namespace InPlace

open Json

------------------------------------------------------------
-- Faults
------------------------------------------------------------

/-
  What goes wrong with an access: an index or a number of
  bytes is beyond the end, a character would be cut in two,
  a difference would be negative, there is no identity left
  to hand out, or a row is gone before it is put back.
-/
inductive Fault where
  | outOfRange
  | splitsCharacter
  | underflow
  | exhausted
  | dangling
  deriving DecidableEq

/- What comes of an access, unless it fails. -/
abbrev Checked :=
  Except Fault

section Results

variable {α β : Type}

/- What has been accessed is used. -/
@[simp] theorem ok_bind
    (a : α)
    (f : α → Checked β) :
    (Except.ok a >>= f : Checked β) = f a :=
  rfl

/- What needs no access does not fail. -/
@[simp] theorem pure_eq_ok
    (a : α) :
    (pure a : Checked α) = .ok a :=
  rfl

end Results

/- Subtract what may not be greater. -/
def sub
    (a b : Nat) :
    Checked Nat :=
  if b ≤ a then .ok (a - b) else .error .underflow

/- What has been added can be subtracted. -/
@[simp] theorem sub_add
    (a b : Nat) :
    sub (a + b) b = .ok a := by
  rw [sub, if_pos (Nat.le_add_left b a), Nat.add_sub_cancel]

------------------------------------------------------------
-- Elements of Lists
------------------------------------------------------------

section Lists

variable {α : Type}

/- Put an item in front of the one at an index. -/
def insertAt
    (items : List α)
    (index : Nat)
    (item : α) :
    Checked (List α) :=
  if index ≤ items.length then
    .ok (items.take index ++ item :: items.drop index)
  else
    .error .outOfRange

/- Remove the item at an index. -/
def removeAt
    (items : List α)
    (index : Nat) :
    Checked (List α) :=
  if index < items.length then
    .ok (items.eraseIdx index)
  else
    .error .outOfRange

/- Put an item in the place of the one at an index. -/
def setAt
    (items : List α)
    (index : Nat)
    (item : α) :
    Checked (List α) :=
  if index < items.length then
    .ok (items.set index item)
  else
    .error .outOfRange

section Accesses

variable {left : List α} {index : Nat}
variable (hIndex : left.length = index)
include hIndex

/- An item is put between two parts of a list. -/
@[simp] theorem insertAt_append
    (right : List α)
    (item : α) :
    insertAt (left ++ right) index item =
      .ok (left ++ item :: right) := by
  rcases hIndex with rfl
  have hIndex : left.length ≤ (left ++ right).length := by
    rw [List.length_append]
    exact Nat.le_add_right _ _
  rw [insertAt, if_pos hIndex, List.take_left, List.drop_left]

/- An index that a list has is one below its length. -/
theorem lt_length_append
    (item : α)
    (right : List α) :
    index < (left ++ item :: right).length := by
  rw [List.length_append, List.length_cons, ← hIndex]
  exact Nat.lt_add_of_pos_right (Nat.succ_pos _)

/- An item is removed from between two parts of a list. -/
@[simp] theorem removeAt_append
    (item : α)
    (right : List α) :
    removeAt (left ++ item :: right) index =
      .ok (left ++ right) := by
  rw [removeAt, if_pos (lt_length_append hIndex item right),
    List.eraseIdx_append_of_length_le (Nat.le_of_eq hIndex),
    hIndex, Nat.sub_self, List.eraseIdx_cons_zero]

/- An item between two parts of a list is replaced. -/
@[simp] theorem setAt_append
    (item new : α)
    (right : List α) :
    setAt (left ++ item :: right) index new =
      .ok (left ++ new :: right) := by
  rw [setAt, if_pos (lt_length_append hIndex item right),
    List.set_append_right _ _ (Nat.le_of_eq hIndex), hIndex,
    Nat.sub_self, List.set_cons_zero]

/- An item is put at the end of a list. -/
@[simp] theorem insertAt_length
    (item : α) :
    insertAt left index item = .ok (left ++ [item]) := by
  have hInsert := insertAt_append hIndex [] item
  rwa [List.append_nil] at hInsert

/- An item is put after the first item of a part. -/
@[simp] theorem insertAt_append_succ
    (first item : α)
    (right : List α) :
    insertAt (left ++ first :: right) (index + 1) item =
      .ok (left ++ first :: item :: right) := by
  have hNext : (left ++ [first]).length = index + 1 := by
    rw [List.length_append, hIndex]
    rfl
  rw [List.append_cons left first right,
    insertAt_append hNext, List.append_assoc]
  rfl

/- The second item of a part is removed. -/
@[simp] theorem removeAt_append_succ
    (first item : α)
    (right : List α) :
    removeAt (left ++ first :: item :: right) (index + 1) =
      .ok (left ++ first :: right) := by
  have hNext : (left ++ [first]).length = index + 1 := by
    rw [List.length_append, hIndex]
    rfl
  rw [List.append_cons left first (item :: right),
    removeAt_append hNext, List.append_assoc]
  rfl

end Accesses

/- An item is put in front of a list. -/
@[simp] theorem insertAt_zero
    (items : List α)
    (item : α) :
    insertAt items 0 item = .ok (item :: items) :=
  @insertAt_append _ [] 0 rfl items item

end Lists

------------------------------------------------------------
-- Characters of Texts
------------------------------------------------------------

/-
  The number of bytes in front of the character with a
  number, or in all of the text if there is no such.
-/
def byteOffset : Text → Nat → Nat
  | [], _ => 0
  | _ :: _, 0 => 0
  | c :: s, n + 1 => c.utf8Size + byteOffset s n

/- Cut a text in front of a byte. -/
def splitAt : Text → Nat → Checked (Text × Text)
  | s, 0 => .ok ([], s)
  | [], _ + 1 => .error .outOfRange
  | c :: s, bytes + 1 =>
      if c.utf8Size ≤ bytes + 1 then
        (splitAt s (bytes + 1 - c.utf8Size)).map
          fun parts => (c :: parts.1, parts.2)
      else
        .error .splitsCharacter

/- Put a character in front of a byte. -/
def insertChar
    (s : Text)
    (bytes : Nat)
    (c : Char) :
    Checked Text := do
  let (head, tail) ← splitAt s bytes
  return head ++ c :: tail

/- Remove the character that starts at a byte. -/
def removeChar
    (s : Text)
    (bytes : Nat) :
    Checked Text := do
  let (head, tail) ← splitAt s bytes
  match tail with
  | [] => .error .outOfRange
  | _ :: rest => return head ++ rest

/- Remove the characters from one byte up to another. -/
def removeRange
    (s : Text)
    (start stop : Nat) :
    Checked Text := do
  let (head, tail) ← splitAt s stop
  let (kept, _) ← splitAt head start
  return kept ++ tail

/- The bytes of a text are those of its parts. -/
theorem byteLength_append
    (s t : Text) :
    byteLength (s ++ t) = byteLength s + byteLength t := by
  induction s with
  | nil => exact (Nat.zero_add _).symm
  | cons c s ih =>
      change c.utf8Size + byteLength (s ++ t) =
        c.utf8Size + byteLength s + byteLength t
      rw [ih, Nat.add_assoc]

/- Every character has a byte. -/
theorem byteLength_eq_zero_iff
    {s : Text} :
    byteLength s = 0 ↔ s = [] := by
  cases s with
  | nil => exact ⟨fun _ => rfl, fun _ => rfl⟩
  | cons c s =>
      have hPos := c.utf8Size_pos
      constructor
      · intro hZero
        change c.utf8Size + byteLength s = 0 at hZero
        omega
      · intro hNil
        cases hNil

/- The bytes in front of a character are counted. -/
theorem byteOffset_eq
    (s : Text)
    (n : Nat) :
    byteOffset s n = byteLength (s.take n) := by
  induction s generalizing n with
  | nil => rw [byteOffset, List.take_nil]; rfl
  | cons c s ih =>
      cases n with
      | zero => rfl
      | succ n =>
          rw [byteOffset, ih]
          rfl

/- A text is cut where its first part ends. -/
theorem splitAt_append
    (s t : Text) :
    splitAt (s ++ t) (byteLength s) = .ok (s, t) := by
  induction s with
  | nil => cases t <;> rfl
  | cons c s ih =>
      have hPos := c.utf8Size_pos
      have hBytes :
          byteLength (c :: s) =
            c.utf8Size + byteLength s - 1 + 1 := by
        change c.utf8Size + byteLength s = _
        omega
      have hFits :
          c.utf8Size ≤ c.utf8Size + byteLength s - 1 + 1 := by
        omega
      have hRest :
          c.utf8Size + byteLength s - 1 + 1 - c.utf8Size =
            byteLength s := by
        omega
      rw [hBytes, List.cons_append, splitAt, if_pos hFits,
        hRest, ih]
      rfl

/- A text is cut in front of any of its characters. -/
@[simp] theorem splitAt_byteOffset
    (s : Text)
    (n : Nat) :
    splitAt s (byteOffset s n) =
      .ok (s.take n, s.drop n) := by
  have hSplit := splitAt_append (s.take n) (s.drop n)
  rw [List.take_append_drop] at hSplit
  rw [byteOffset_eq, hSplit]

/- Inside a character there is no place to cut. -/
example : splitAt ['é', 'a'] 1 = .error .splitsCharacter :=
  rfl

/- There are no bytes in front if there is no character. -/
theorem byteOffset_eq_zero_iff
    {s : Text}
    {n : Nat} :
    byteOffset s n = 0 ↔ s.take n = [] := by
  rw [byteOffset_eq, byteLength_eq_zero_iff]

/- All bytes are in front if there is no character after. -/
theorem byteOffset_eq_byteLength_iff
    {s : Text}
    {n : Nat} :
    byteOffset s n = byteLength s ↔ s.drop n = [] := by
  have hParts := byteLength_append (s.take n) (s.drop n)
  rw [List.take_append_drop] at hParts
  rw [byteOffset_eq, ← byteLength_eq_zero_iff, hParts]
  omega

/- A character is put in front of another one. -/
theorem insertChar_byteOffset
    (s : Text)
    (n : Nat)
    (c : Char) :
    insertChar s (byteOffset s n) c =
      .ok (s.take n ++ c :: s.drop n) := by
  rw [insertChar, splitAt_byteOffset]
  rfl

/- A character that is there is removed. -/
theorem removeChar_byteOffset
    {s : Text}
    {n : Nat}
    (hLess : n < s.length) :
    removeChar s (byteOffset s n) = .ok (s.eraseIdx n) := by
  rw [removeChar, splitAt_byteOffset,
    List.eraseIdx_eq_take_drop_succ,
    List.drop_eq_getElem_cons hLess]
  rfl

/- The characters between two parts of a text are removed. -/
theorem removeRange_append
    (kept cut rest : Text) :
    removeRange (kept ++ cut ++ rest) (byteLength kept)
        (byteLength (kept ++ cut)) =
      .ok (kept ++ rest) := by
  rw [removeRange, splitAt_append]
  change (splitAt (kept ++ cut) (byteLength kept)).bind _ = _
  rw [splitAt_append]
  rfl

end InPlace

end FormulaEditor
