import FormulaEditor.Proofs.Formula.Everywhere
import Mathlib.Data.List.Chain

/-
  This file defines joined rows, in which no two runs meet,
  and proves that every row of a text that has been read is
  joined.

  Key definitions include:
    * `Node.isRun`
    * `Row.startsInRun`
    * `Row.IsJoined`

  Key theorems include:
    * `Row.isJoined_reverse_append`
    * `Row.everywhere_isJoined_ofText`
    * `Row.everywhere_isJoined_number`
-/

namespace FormulaEditor

variable {ι : Type}

/- Whether a node is a run. -/
def Node.isRun : Node ι → Bool
  | .text _ => true
  | _ => false

/- Whether a row starts in a run. -/
def Row.startsInRun : Row ι → Bool
  | [] => false
  | node :: _ => node.isRun

/- No two runs of a row stand next to each other. -/
def Row.IsJoined
    (row : Row ι) :
    Prop :=
  row.IsChain fun node next =>
    node.isRun = true → next.isRun = false

instance (row : Row ι) : Decidable row.IsJoined :=
  inferInstanceAs (Decidable (List.IsChain _ row))

section Runs

@[simp] theorem isRun_text
    (run : Text) :
    (Node.text run : Node ι).isRun = true :=
  rfl

@[simp] theorem isRun_construct
    (kind : Kind)
    (id : ι)
    (first second : Row ι) :
    (Node.construct kind id first second).isRun = false :=
  rfl

@[simp] theorem isRun_continuation
    (id : ι)
    (content : Text) :
    (Node.continuation id content).isRun = false :=
  rfl

/- A construct is not a run. -/
theorem isRun_of_isConstruct
    {node : Node ι}
    (hConstruct : node.isConstruct = true) :
    node.isRun = false := by
  cases node with
  | text run => cases hConstruct
  | construct => rfl
  | continuation => rfl

/- Numbering a node leaves it a run if it was one. -/
@[simp] theorem isRun_number
    (node : Node ι)
    (next : Identity) :
    (node.number next).isRun = node.isRun := by
  cases node <;> rfl

end Runs

namespace Row

section Joined

variable {node : Node ι} {row left right : Row ι}

@[simp] theorem startsInRun_nil :
    startsInRun ([] : Row ι) = false :=
  rfl

@[simp] theorem startsInRun_cons :
    startsInRun (node :: row) = node.isRun :=
  rfl

/- A row without a run in front does not start in one. -/
theorem startsInRun_of_ne
    (hNone : ∀ run rest, row = .text run :: rest → False) :
    row.startsInRun = false := by
  cases row with
  | nil => rfl
  | cons node row =>
      cases node with
      | text run => exact (hNone run row rfl).elim
      | construct => rfl
      | continuation => rfl

@[simp] theorem isJoined_nil :
    IsJoined ([] : Row ι) :=
  .nil

@[simp] theorem isJoined_cons :
    IsJoined (node :: row) ↔
      (node.isRun = true → row.startsInRun = false) ∧
        IsJoined row := by
  rw [IsJoined, List.isChain_cons]
  refine and_congr_left fun _ => ?_
  cases row with
  | nil => simp
  | cons next rest => simp

/-
  Two joined rows are joined where they meet unless a run of
  the one meets a run of the other.
-/
@[simp] theorem isJoined_reverse_append :
    IsJoined (left.reverse ++ right) ↔
      IsJoined left ∧ IsJoined right ∧
        (left.startsInRun = true →
          right.startsInRun = false) := by
  induction left generalizing right with
  | nil => simp
  | cons node left ih =>
      rw [List.reverse_cons, List.append_assoc,
        List.singleton_append, ih, isJoined_cons,
        isJoined_cons, startsInRun_cons, startsInRun_cons]
      cases node.isRun <;> cases startsInRun left <;>
        simp [and_comm]

end Joined

------------------------------------------------------------
-- Rows That Have Been Read
------------------------------------------------------------

/- Plain text is read as one run at most. -/
theorem isJoined_ofPlain
    (s : Text) :
    IsJoined (ofPlain s) := by
  unfold ofPlain
  split
  · exact isJoined_nil
  · simp

/- No two runs meet in a text that has been read. -/
theorem everywhere_isJoined_ofText
    (s : Text) :
    (ofText s).Everywhere IsJoined := by
  refine everywhere_ofText isJoined_ofPlain ?_ s
  intro s before spelled hFirst hRest
  rw [ofText_of_some hFirst]
  unfold ofPlain
  split
  · simpa using hRest
  · simpa using hRest

/- Numbering a row leaves its runs where they are. -/
theorem isJoined_number
    {row : Row ι}
    (hJoined : IsJoined row)
    (next : Identity) :
    IsJoined (Row.number next row) := by
  have hStarts :
      ∀ (row : Row ι) next,
        (Row.number next row).startsInRun =
          row.startsInRun := by
    intro row next
    cases row with
    | nil => rfl
    | cons node row => exact isRun_number node next
  induction row generalizing next with
  | nil => exact isJoined_nil
  | cons node row ih =>
      rw [isJoined_cons] at hJoined
      rw [Row.number, isJoined_cons, isRun_number, hStarts]
      exact ⟨hJoined.1, ih hJoined.2 _⟩

/- No two runs meet in a tree that has been numbered. -/
theorem everywhere_isJoined_number
    {row : Row ι}
    (hJoined : row.Everywhere IsJoined)
    (next : Identity) :
    (Row.number next row).Everywhere IsJoined :=
  everywhere_number isJoined_number hJoined next

end Row

end FormulaEditor
