import FormulaEditor.Editing.Cursor
import FormulaEditor.Proofs.Formula.Everywhere

/-
  This file views a row as a sequence of cells, in which
  every character stands for itself, and proves what each
  edit at a cursor does to the cells before and after it.

  Key definitions include:
    * `Row.cells`
    * `Node.IsCellwise`
    * `Node.isAtom`
    * `Cursor.before`
    * `Cursor.after`
    * `Cursor.ahead`
    * `Cursor.IsPlaced`
    * `Cursor.unlink?`

  Key theorems include:
    * `Row.throughout_cells`
    * `Cursor.cells_row`
    * `Cursor.before_type`
    * `Cursor.before_insert`
    * `Cursor.eraseBack_of_unlink?_some`
    * `Cursor.eraseBack_of_unlink?_none`
-/

namespace FormulaEditor

variable {ι : Type}

------------------------------------------------------------
-- Cells
------------------------------------------------------------

/- The characters of a run, each in a run of its own. -/
def Row.chars
    (run : Text) :
    Row ι :=
  run.map fun c => .text [c]

/- The cells of a node: its characters, or the node. -/
def Node.cells : Node ι → Row ι
  | .text run => Row.chars run
  | node => [node]

/- The cells of a row. -/
def Row.cells
    (row : Row ι) :
    Row ι :=
  row.flatMap Node.cells

/- All cells but continuations count as atoms. -/
def Node.isAtom : Node ι → Bool
  | .continuation _ _ => false
  | _ => true

namespace Row

section Cells

variable (node : Node ι) (row other : Row ι)

@[simp] theorem cells_nil :
    cells ([] : Row ι) = [] :=
  rfl

@[simp] theorem cells_cons :
    cells (node :: row) = node.cells ++ cells row :=
  List.flatMap_cons

@[simp] theorem cells_append :
    cells (row ++ other) = cells row ++ cells other :=
  List.flatMap_append

@[simp] theorem chars_nil :
    (chars [] : Row ι) = [] :=
  rfl

@[simp] theorem chars_cons
    (c : Char)
    (run : Text) :
    (chars (c :: run) : Row ι) = .text [c] :: chars run :=
  rfl

@[simp] theorem chars_append
    (run run' : Text) :
    (chars (run ++ run') : Row ι) = chars run ++ chars run' :=
  List.map_append

@[simp] theorem cells_text
    (run : Text) :
    (Node.text run : Node ι).cells = chars run :=
  rfl

@[simp] theorem cells_construct
    (kind : Kind)
    (id : ι)
    (first second : Row ι) :
    (Node.construct kind id first second).cells =
      [.construct kind id first second] :=
  rfl

@[simp] theorem cells_continuation
    (id : ι)
    (content : Text) :
    (Node.continuation id content).cells =
      [.continuation id content] :=
  rfl

end Cells

/- Characters have no identities. -/
@[simp] theorem ids_chars
    (run : Text) :
    Row.ids (chars run : Row ι) = [] := by
  induction run with
  | nil => rfl
  | cons c run ih =>
      rw [chars_cons, Row.ids, ih]
      rfl

/- The cells of a node have its identities. -/
theorem ids_cells_node
    (node : Node ι) :
    Row.ids node.cells = node.ids := by
  cases node with
  | text run => exact ids_chars run
  | construct kind id first second =>
      rw [cells_construct, Row.ids, Row.ids, List.append_nil]
  | continuation id content => rfl

/- The cells of a row have its identities. -/
theorem ids_cells
    (row : Row ι) :
    Row.ids (cells row) = Row.ids row := by
  induction row with
  | nil => rfl
  | cons node row ih =>
      rw [cells_cons, ids_append, Row.ids, ih, ids_cells_node]

/- Fewer nodes have fewer cells. -/
theorem cells_sublist
    {row other : Row ι}
    (hSublist : row.Sublist other) :
    (cells row).Sublist (cells other) := by
  induction hSublist with
  | slnil => exact List.Sublist.refl _
  | cons node _ ih =>
      exact ih.trans (List.sublist_append_right _ _)
  | cons_cons node _ ih => exact ih.append_left _

/- A part of a run has fewer cells. -/
theorem chars_sublist
    {run run' : Text}
    (hSublist : run.Sublist run') :
    (chars run : Row ι).Sublist (chars run') :=
  hSublist.map _

end Row

------------------------------------------------------------
-- What Is Said of Cells
------------------------------------------------------------

/- The constructs of a row are cells of it. -/
theorem Row.mem_cells_iff_of_region?
    {row : Row ι}
    {node : Node ι}
    {slot : Slot}
    {below : Row ι}
    (hRegion : node.region? slot = some below) :
    node ∈ Row.cells row ↔ node ∈ row := by
  have hNode :
      ∀ other : Node ι, node ∈ other.cells ↔ node = other := by
    intro other
    cases other with
    | text run =>
        constructor
        · intro hMem
          rcases List.mem_map.mp hMem with ⟨c, _, rfl⟩
          cases hRegion
        · rintro rfl
          cases hRegion
    | construct => exact List.mem_singleton
    | continuation => exact List.mem_singleton
  simp [Row.cells, List.mem_flatMap, hNode]

/-
  What is said of a node looks at the characters of a run
  one by one, and not at what the slots hold.
-/
structure Node.IsCellwise
    (holds : Node ι → Prop) :
    Prop where
  text :
    ∀ run, holds (.text run) ↔ ∀ c ∈ run, holds (.text [c])
  slot :
    ∀ (slot : Slot) id below below' other,
      holds (slot.node id below other) →
        holds (slot.node id below' other)

/- What is said cell by cell holds of a row if of its cells. -/
theorem Row.throughout_cells
    {holds : Node ι → Prop}
    (hCellwise : Node.IsCellwise holds)
    (row : Row ι) :
    Row.Throughout holds (Row.cells row) ↔
      row.Throughout holds := by
  have hNone :
      ∀ run slot below,
        (Node.text run : Node ι).region? slot = some below →
          Row.Throughout holds below := by
    intro run slot below hRegion
    cases hRegion
  have hChars :
      ∀ run, Row.Throughout holds (Row.chars run) ↔
        holds (.text run) := by
    intro run
    rw [hCellwise.text, throughout_iff]
    simp only [Row.chars, List.forall_mem_map]
    exact forall₂_congr fun c _ =>
      ⟨And.left, fun hChar => ⟨hChar, hNone [c]⟩⟩
  induction row with
  | nil => exact Iff.rfl
  | cons node row ih =>
      rw [cells_cons, throughout_append, throughout_cons]
      refine and_congr ?_ ih
      cases node with
      | text run =>
          rw [cells_text, hChars]
          exact ⟨fun hRun => ⟨hRun, hNone run⟩, And.left⟩
      | construct =>
          rw [cells_construct, throughout_iff,
            List.forall_mem_singleton]
      | continuation =>
          rw [cells_continuation, throughout_iff,
            List.forall_mem_singleton]

/- A cursor is a place in the row that it is opened in. -/
theorem Row.cursor?_eq_some_iff
    {row : Row ι}
    {index offset : Nat}
    {cursor : Cursor ι} :
    row.cursor? index offset = some cursor ↔
      cursor.row = row ∧ cursor.index = index ∧
        cursor.offset = offset := by
  rcases cursor with ⟨left, right, place⟩
  rw [Row.cursor?, Cursor.row, Cursor.index]
  constructor
  · intro hCursor
    split at hCursor
    · next hIndex =>
        rcases Option.some.inj hCursor with ⟨⟩
        refine ⟨?_, ?_, rfl⟩
        · rw [List.reverse_reverse, List.take_append_drop]
        · rw [List.length_reverse, List.length_take_of_le hIndex]
    · cases hCursor
  · rintro ⟨rfl, rfl, rfl⟩
    have hIndex :
        left.length ≤ (left.reverse ++ right).length := by
      rw [List.length_append, List.length_reverse]
      exact Nat.le_add_right _ _
    rw [if_pos hIndex, List.take_left' List.length_reverse,
      List.drop_left' List.length_reverse,
      List.reverse_reverse]

namespace Cursor

section Opening

variable (cursor : Cursor ι)

/- The nodes before a place. -/
theorem take_row :
    cursor.row.take cursor.index = cursor.left.reverse :=
  List.take_left' List.length_reverse

/- The nodes after a place. -/
theorem drop_row :
    cursor.row.drop cursor.index = cursor.right :=
  List.drop_left' List.length_reverse

/- The nodes after the one at a place. -/
theorem drop_succ_row :
    cursor.row.drop (cursor.index + 1) =
      cursor.right.drop 1 := by
  rw [← List.drop_drop, drop_row]

/- The node at a place. -/
theorem getElem?_row :
    cursor.row[cursor.index]? = cursor.right[0]? := by
  rw [row, index, ← List.length_reverse,
    List.getElem?_append_right (Nat.le_refl _), Nat.sub_self]

/- Going over a node stays in the row. -/
theorem row_cons_left
    (left : Row ι)
    (node : Node ι)
    (right : Row ι)
    (offset offset' : Nat) :
    row ⟨node :: left, right, offset⟩ =
      row ⟨left, node :: right, offset'⟩ := by
  rw [row, row, List.reverse_cons, List.append_assoc]
  rfl

end Opening

end Cursor

------------------------------------------------------------
-- The Cells Around a Cursor
------------------------------------------------------------

namespace Cursor

open Row

/- The cells before the place of a cursor. -/
def before
    (cursor : Cursor ι) :
    Row ι :=
  match cursor.right with
  | .text run :: _ =>
      cells cursor.left.reverse ++
        chars (run.take cursor.offset)
  | _ => cells cursor.left.reverse

/- The cells after the place of a cursor. -/
def after
    (cursor : Cursor ι) :
    Row ι :=
  match cursor.right with
  | .text run :: right =>
      chars (run.drop cursor.offset) ++ cells right
  | right => cells right

/- The cells after a continuation that a cursor is on. -/
def ahead
    (cursor : Cursor ι) :
    Row ι :=
  match cursor.right with
  | .continuation _ _ :: right => cells right
  | _ => cursor.after

/- A row has the cells before and after any place in it. -/
theorem cells_row
    (cursor : Cursor ι) :
    cells cursor.row = cursor.before ++ cursor.after := by
  rcases cursor with ⟨left, right, offset⟩
  cases right with
  | nil => simp [row, before, after]
  | cons node right =>
      cases node with
      | text run =>
          have hRun :
              (chars run : Row ι) =
                chars (run.take offset) ++
                  chars (run.drop offset) := by
            rw [← chars_append, List.take_append_drop]
          simp [row, before, after, hRun]
      | construct => simp [row, before, after]
      | continuation => simp [row, before, after]

/- Without a continuation under it nothing is skipped. -/
theorem ahead_sublist_after
    (cursor : Cursor ι) :
    cursor.ahead.Sublist cursor.after := by
  rcases cursor with ⟨left, right, offset⟩
  cases right with
  | nil => exact List.Sublist.refl _
  | cons node right =>
      cases node with
      | text run => exact List.Sublist.refl _
      | construct => exact List.Sublist.refl _
      | continuation id content =>
          exact List.sublist_cons_self _ _

------------------------------------------------------------
-- Joining, Typing and Inserting
------------------------------------------------------------

/- Joining runs moves no cell. -/
theorem before_join
    (left right : Row ι) :
    (join left right).before = cells left.reverse := by
  unfold join
  split
  · simp [before]
  · simp [before]
  · cases right with
    | nil => rfl
    | cons node right => cases node <;> simp [before]

/- Joining runs moves no cell. -/
theorem after_join
    (left right : Row ι) :
    (join left right).after = cells right := by
  unfold join
  split
  · simp [after]
  · simp [after]
  · cases right with
    | nil => rfl
    | cons node right => cases node <;> simp [after]

/- Joining runs moves no cell. -/
theorem cells_join
    (left right : Row ι) :
    cells (join left right).row =
      cells left.reverse ++ cells right := by
  rw [cells_row, before_join, after_join]

/- A character that is typed into a run ends what is before. -/
theorem take_typed
    (run : Text)
    (offset : Nat)
    (c : Char) :
    (run.take offset ++ c :: run.drop offset).take
        (offset + 1) =
      run.take offset ++ [c] := by
  induction run generalizing offset with
  | nil => simp
  | cons d run ih =>
      cases offset with
      | zero => rfl
      | succ offset => simp [ih]

/- A character that is typed into a run takes nothing after. -/
theorem drop_typed
    (run : Text)
    (offset : Nat)
    (c : Char) :
    (run.take offset ++ c :: run.drop offset).drop
        (offset + 1) =
      run.drop offset := by
  induction run generalizing offset with
  | nil => simp
  | cons d run ih =>
      cases offset with
      | zero => rfl
      | succ offset => simp [ih]

/- A character that is typed after a run ends that run. -/
theorem take_snoc
    (run : Text)
    (c : Char) :
    (run ++ [c]).take (run.length + 1) = run ++ [c] := by
  apply List.take_of_length_le
  rw [List.length_append, List.length_singleton]

/- The character that is typed comes before the place. -/
theorem before_type
    (cursor : Cursor ι)
    (c : Char) :
    (cursor.type c).before = cursor.before ++ [.text [c]] := by
  rcases cursor with ⟨left, right, offset⟩
  cases right with
  | nil =>
      cases left with
      | nil => rfl
      | cons node left =>
          cases node <;> simp [type, before, take_snoc]
  | cons node right =>
      cases node with
      | text run => simp [type, before, take_typed]
      | construct =>
          cases left with
          | nil => rfl
          | cons node left =>
              cases node <;> simp [type, before, take_snoc]
      | continuation =>
          cases right with
          | nil => simp [type, before]
          | cons node right => cases node <;> simp [type, before]

/- Typing leaves what is ahead of the place as it is. -/
theorem after_type
    (cursor : Cursor ι)
    (c : Char) :
    (cursor.type c).after = cursor.ahead := by
  rcases cursor with ⟨left, right, offset⟩
  cases right with
  | nil =>
      cases left with
      | nil => rfl
      | cons node left =>
          cases node <;> simp [type, after, ahead]
  | cons node right =>
      cases node with
      | text run => simp [type, after, ahead, drop_typed]
      | construct =>
          cases left with
          | nil => simp [type, after, ahead]
          | cons node left =>
              cases node <;> simp [type, after, ahead]
      | continuation =>
          cases right with
          | nil => simp [type, after, ahead]
          | cons node right =>
              cases node <;> simp [type, after, ahead]

/- A construct that is inserted comes after the place. -/
theorem before_insert
    (cursor : Cursor ι)
    {node : Node ι}
    (hConstruct : node.isConstruct = true) :
    (cursor.insert node).before = cursor.before := by
  rcases cursor with ⟨left, right, offset⟩
  cases node with
  | text run => cases hConstruct
  | continuation => cases hConstruct
  | construct =>
      cases right with
      | nil => rfl
      | cons next right =>
          cases next with
          | construct => rfl
          | continuation => rfl
          | text run =>
              simp only [insert, List.isEmpty_iff]
              by_cases hStart : run.take offset = []
              · rw [if_pos hStart]
                simp [before, hStart]
              · rw [if_neg hStart]
                by_cases hEnd : run.drop offset = []
                · have hWhole :=
                    List.take_append_drop offset run
                  rw [hEnd, List.append_nil] at hWhole
                  rw [if_pos hEnd]
                  simp [before, hWhole]
                · rw [if_neg hEnd]
                  simp [before]

/- A construct that is inserted is right after the place. -/
theorem after_insert
    (cursor : Cursor ι)
    {node : Node ι}
    (hConstruct : node.isConstruct = true) :
    (cursor.insert node).after = node :: cursor.ahead := by
  rcases cursor with ⟨left, right, offset⟩
  cases node with
  | text run => cases hConstruct
  | continuation => cases hConstruct
  | construct =>
      cases right with
      | nil => simp [insert, after, ahead]
      | cons next right =>
          cases next with
          | construct => simp [insert, after, ahead]
          | continuation => simp [insert, after, ahead]
          | text run =>
              simp only [insert, List.isEmpty_iff]
              by_cases hStart : run.take offset = []
              · have hWhole := List.take_append_drop offset run
                rw [hStart, List.nil_append] at hWhole
                rw [if_pos hStart]
                simp [after, ahead, hWhole]
              · rw [if_neg hStart]
                by_cases hEnd : run.drop offset = []
                · rw [if_pos hEnd]
                  simp [after, ahead, hEnd]
                · rw [if_neg hEnd]
                  simp [after, ahead]

------------------------------------------------------------
-- Deleting
------------------------------------------------------------

/- What is left of a run is around the place. -/
theorem before_keepRun
    (left : Row ι)
    (run : Text)
    (right : Row ι)
    (offset : Nat) :
    (keepRun left run right offset).before =
      cells left.reverse ++ chars (run.take offset) := by
  cases run with
  | nil => simp [keepRun, before_join]
  | cons c run => rfl

/- What is left of a run is around the place. -/
theorem after_keepRun
    (left : Row ι)
    (run : Text)
    (right : Row ι)
    (offset : Nat) :
    (keepRun left run right offset).after =
      chars (run.drop offset) ++ cells right := by
  cases run with
  | nil => simp [keepRun, after_join]
  | cons c run => rfl

/- A run that is put back has its cells. -/
theorem cells_keepRun
    (left right : Row ι)
    (run : Text)
    (offset : Nat) :
    cells (keepRun left run right offset).row =
      cells left.reverse ++ (chars run ++ cells right) := by
  rw [cells_row, before_keepRun, after_keepRun,
    List.append_assoc, ← List.append_assoc (chars _),
    ← chars_append, List.take_append_drop]

/- A run that is put back has its cells. -/
theorem cells_withRun
    (left right : Row ι)
    (run : Text)
    (offset : Nat) :
    cells (withRun left run right offset).row =
      cells left.reverse ++ (chars run ++ cells right) := by
  cases run <;> simp [withRun, row]

/- Delete the last cell of a node before the place. -/
def eraseNode
    (left : Row ι)
    (node : Node ι)
    (right : Row ι) :
    Cursor ι :=
  match node with
  | .text run =>
      keepRun left run.dropLast right (run.length - 1)
  | _ => join left right

/- Deleting from a node takes its last cell. -/
theorem exists_eraseNode
    (left : Row ι)
    {node : Node ι}
    (hSolid : node ≠ .text [])
    (right : Row ι) :
    ∃ cell : Node ι,
      cell.isAtom = node.isAtom ∧
        cells (node :: left).reverse =
          (eraseNode left node right).before ++ [cell] ∧
        (eraseNode left node right).after = cells right := by
  cases node with
  | text run =>
      have hNe : run ≠ [] := by
        rintro rfl
        exact hSolid rfl
      have hLength :
          run.dropLast.length ≤ run.length - 1 := by
        rw [List.length_dropLast]
      refine ⟨.text [run.getLast hNe], rfl, ?_, ?_⟩
      · rw [eraseNode, before_keepRun,
          List.take_of_length_le hLength, List.reverse_cons,
          cells_append, cells_cons, cells_text, cells_nil,
          List.append_nil, List.append_assoc]
        have hLast :
            (chars run : Row ι) =
              chars (run.dropLast ++ [run.getLast hNe]) := by
          rw [List.dropLast_concat_getLast]
        rw [hLast, chars_append]
        rfl
      · rw [eraseNode, after_keepRun,
          List.drop_of_length_le hLength]
        rfl
  | construct kind id first second =>
      refine ⟨.construct kind id first second, rfl, ?_, ?_⟩
      · simp [eraseNode, before_join]
      · exact after_join left right
  | continuation id content =>
      refine ⟨.continuation id content, rfl, ?_, ?_⟩
      · simp [eraseNode, before_join]
      · exact after_join left right

/-
  The place of a cursor is in its row: no run is empty, and
  the place lies within the run it is in.
-/
structure IsPlaced
    (cursor : Cursor ι) :
    Prop where
  solid : IsSolid cursor.row
  inRun :
    ∀ run right, cursor.right = .text run :: right →
      cursor.offset ≤ run.length

/-
  Remove the continuation that deleting backwards takes: the
  one at the place, or else the one right before it.
-/
def unlink? : Cursor ι → Option (Cursor ι)
  | ⟨left, .continuation _ _ :: right, _⟩ =>
      some (join left right)
  | ⟨_, .text _ :: _, _ + 1⟩ => none
  | ⟨.continuation _ _ :: left, right, _⟩ =>
      some (join left right)
  | _ => none

/- Continuations are deleted before anything else is. -/
theorem eraseBack_of_unlink?_some
    {cursor unlinked : Cursor ι}
    (hUnlink : cursor.unlink? = some unlinked) :
    cursor.eraseBack = .ok unlinked := by
  unfold unlink? at hUnlink
  split at hUnlink
  · rcases Option.some.inj hUnlink with rfl
    rfl
  · cases hUnlink
  · next left right offset hOn hIn =>
      rcases Option.some.inj hUnlink with rfl
      cases right with
      | nil => rfl
      | cons node right =>
          cases node with
          | text run =>
              cases offset with
              | zero => rfl
              | succ offset =>
                  exact (hIn run right offset rfl rfl).elim
          | construct => rfl
          | continuation id content =>
              exact (hOn id content right rfl).elim
  · cases hUnlink

/- Removing a continuation leaves every atom. -/
theorem filter_unlink?
    {cursor unlinked : Cursor ι}
    (hUnlink : cursor.unlink? = some unlinked) :
    unlinked.before.filter Node.isAtom =
        cursor.before.filter Node.isAtom ∧
      unlinked.after.filter Node.isAtom =
        cursor.after.filter Node.isAtom := by
  unfold unlink? at hUnlink
  split at hUnlink
  · rcases Option.some.inj hUnlink with rfl
    rw [before_join, after_join]
    exact ⟨rfl, rfl⟩
  · cases hUnlink
  · next id content left right offset hOn hIn =>
      rcases Option.some.inj hUnlink with rfl
      rw [before_join, after_join]
      have hLeft :
          (cells (.continuation id content ::
              left).reverse).filter Node.isAtom =
            (cells left.reverse).filter Node.isAtom := by
        simp [Node.isAtom]
      cases right with
      | nil => exact ⟨hLeft.symm, rfl⟩
      | cons node right =>
          cases node with
          | text run =>
              cases offset with
              | zero =>
                  refine ⟨?_, by simp [after]⟩
                  rw [← hLeft]
                  simp [before]
              | succ offset =>
                  exact (hIn run right offset rfl rfl).elim
          | construct => exact ⟨hLeft.symm, rfl⟩
          | continuation => exact ⟨hLeft.symm, rfl⟩
  · cases hUnlink

/- Deleting inside a run takes the character before. -/
theorem exists_eraseInRun
    (left right : Row ι)
    {run : Text}
    {offset : Nat}
    (hLess : offset < run.length) :
    ∃ erased cell,
      eraseBack ⟨left, .text run :: right, offset + 1⟩ =
          .ok erased ∧
        cell.isAtom = true ∧
        before ⟨left, .text run :: right, offset + 1⟩ =
          erased.before ++ [cell] ∧
        erased.after =
          after ⟨left, .text run :: right, offset + 1⟩ := by
  have hLength : (run.take offset).length = offset :=
    List.length_take_of_le (Nat.le_of_lt hLess)
  refine ⟨keepRun left (run.eraseIdx offset) right offset,
    .text [run[offset]], ?_, rfl, ?_, ?_⟩
  · simp [eraseBack, hLess]
  · rw [before_keepRun, List.eraseIdx_eq_take_drop_succ,
      List.take_left' hLength]
    simp only [before]
    rw [List.take_succ_eq_append_getElem hLess,
      chars_append, List.append_assoc]
    rfl
  · rw [after_keepRun, List.eraseIdx_eq_take_drop_succ,
      List.drop_left' hLength]
    rfl

/-
  Deleting from the node on the left takes the last cell
  before the place, unless there is no such node.
-/
theorem eraseLeft_cases
    {left right : Row ι}
    (hSolid : IsSolid left)
    {cursor : Cursor ι}
    (hBefore : cursor.before = cells left.reverse)
    (hAfter : cursor.after = cells right)
    (hNil :
      left = [] → cursor.eraseBack = .error .nothingBefore)
    (hCons :
      ∀ node rest, left = node :: rest →
        node.isAtom = true ∧
          cursor.eraseBack =
            .ok (eraseNode rest node right)) :
    (∃ erased cell,
      cursor.eraseBack = .ok erased ∧
        cell.isAtom = true ∧
        cursor.before = erased.before ++ [cell] ∧
        erased.after = cursor.after) ∨
      cursor.before = [] ∧
        cursor.eraseBack = .error .nothingBefore := by
  cases left with
  | nil => exact .inr ⟨hBefore, hNil rfl⟩
  | cons node rest =>
      rcases hCons node rest rfl with ⟨hAtom, hErase⟩
      rcases exists_eraseNode rest
          (isSolid_cons.mp hSolid).1 right with
        ⟨cell, hCell, hLast, hRest⟩
      refine .inl ⟨_, cell, hErase, hCell.trans hAtom, ?_, ?_⟩
      · rw [hBefore, hLast]
      · rw [hAfter, hRest]

/-
  If no continuation is deleted, the last cell before the
  place is, unless there is none.
-/
theorem eraseBack_of_unlink?_none
    {cursor : Cursor ι}
    (hPlaced : cursor.IsPlaced)
    (hUnlink : cursor.unlink? = none) :
    (∃ erased cell,
      cursor.eraseBack = .ok erased ∧
        cell.isAtom = true ∧
        cursor.before = erased.before ++ [cell] ∧
        erased.after = cursor.after) ∨
      cursor.before = [] ∧
        cursor.eraseBack = .error .nothingBefore := by
  rcases cursor with ⟨left, right, offset⟩
  rcases hPlaced with ⟨hSolid, hInRun⟩
  rw [row, isSolid_append, isSolid_reverse] at hSolid
  rcases hSolid with ⟨hLeft, hRight⟩
  cases right with
  | nil =>
      refine eraseLeft_cases hLeft rfl rfl ?_ ?_
      · rintro rfl
        rfl
      · rintro node rest rfl
        cases node with
        | continuation => cases hUnlink
        | text => exact ⟨rfl, rfl⟩
        | construct => exact ⟨rfl, rfl⟩
  | cons next right =>
      cases next with
      | continuation => cases hUnlink
      | construct kind id first second =>
          refine eraseLeft_cases hLeft rfl rfl ?_ ?_
          · rintro rfl
            rfl
          · rintro node rest rfl
            cases node with
            | continuation => cases hUnlink
            | text => exact ⟨rfl, rfl⟩
            | construct => exact ⟨rfl, rfl⟩
      | text run =>
          cases offset with
          | succ offset =>
              have hLess : offset < run.length :=
                hInRun run right rfl
              exact .inl (exists_eraseInRun left right hLess)
          | zero =>
              have hBefore :
                  before ⟨left, .text run :: right, 0⟩ =
                    cells left.reverse := by
                simp [before]
              have hAfter :
                  after ⟨left, .text run :: right, 0⟩ =
                    cells (.text run :: right) := by
                simp [after]
              refine eraseLeft_cases hLeft hBefore hAfter ?_ ?_
              · rintro rfl
                rfl
              · rintro node rest rfl
                cases node with
                | continuation => cases hUnlink
                | text => exact ⟨rfl, rfl⟩
                | construct => exact ⟨rfl, rfl⟩

------------------------------------------------------------
-- Runs After an Edit
------------------------------------------------------------

section Solid

variable {left right : Row ι} {run : Text} {offset : Nat}

/- Joining runs empties none. -/
theorem isSolid_join
    (hLeft : IsSolid left)
    (hRight : IsSolid right) :
    IsSolid (join left right).row := by
  unfold join
  split <;> simp_all [row]

/- A run that is left of another is kept if not empty. -/
theorem isSolid_keepRun
    (hLeft : IsSolid left)
    (hRight : IsSolid right) :
    IsSolid (keepRun left run right offset).row := by
  cases run with
  | nil => exact isSolid_join hLeft hRight
  | cons c run => simp_all [keepRun, row]

/- A run that is left of another is kept if not empty. -/
theorem isSolid_withRun
    (hLeft : IsSolid left)
    (hRight : IsSolid right) :
    IsSolid (withRun left run right offset).row := by
  cases run with
  | nil => simp_all [withRun, row]
  | cons c run => simp_all [withRun, row]

end Solid

/- Typing empties no run. -/
theorem isSolid_type
    {cursor : Cursor ι}
    (hSolid : IsSolid cursor.row)
    (c : Char) :
    IsSolid (cursor.type c).row := by
  unfold type
  split <;> simp_all [row]

/- Inserting a construct empties no run. -/
theorem isSolid_insert
    {cursor : Cursor ι}
    (hSolid : IsSolid cursor.row)
    {node : Node ι}
    (hConstruct : node.isConstruct = true) :
    IsSolid (cursor.insert node).row := by
  have hNode : node ≠ .text [] := by
    rintro rfl
    cases hConstruct
  unfold insert
  split
  · simp_all [row]
  · split
    · simp_all [row]
    · split <;> simp_all [row]
  · simp_all [row]

/- Deleting backwards leaves no run empty. -/
theorem isSolid_eraseBack
    {cursor erased : Cursor ι}
    (hSolid : IsSolid cursor.row)
    (hErase : cursor.eraseBack = .ok erased) :
    IsSolid erased.row := by
  rcases cursor with ⟨left, right, offset⟩
  rw [row, isSolid_append, isSolid_reverse] at hSolid
  rcases hSolid with ⟨hLeft, hRight⟩
  unfold eraseBack at hErase
  split at hErase
  · split at hErase
    · rcases Except.ok.inj hErase with rfl
      exact isSolid_keepRun (by simp_all) (by simp_all)
    · cases hErase
  · rcases Except.ok.inj hErase with rfl
    exact isSolid_join (by simp_all) (by simp_all)
  · rcases Except.ok.inj hErase with rfl
    exact isSolid_keepRun (by simp_all) (by simp_all)
  · rcases Except.ok.inj hErase with rfl
    exact isSolid_join (by simp_all) (by simp_all)
  · cases hErase

/- Removing the word `lim` leaves no run empty. -/
theorem isSolid_takeLim?
    {cursor taken : Cursor ι}
    (hSolid : IsSolid cursor.row)
    (hTake : cursor.takeLim? = some taken) :
    IsSolid taken.row := by
  rcases cursor with ⟨left, right, offset⟩
  rw [row, isSolid_append, isSolid_reverse] at hSolid
  rcases hSolid with ⟨hLeft, hRight⟩
  unfold takeLim? at hTake
  split at hTake
  · rcases Option.map_eq_some_iff.mp hTake with
      ⟨kept, _, rfl⟩
    exact isSolid_withRun (by simp_all) (by simp_all)
  · rcases Option.map_eq_some_iff.mp hTake with
      ⟨kept, _, rfl⟩
    exact isSolid_withRun (by simp_all) (by simp_all)
  · cases hTake

end Cursor

end FormulaEditor
