import FormulaEditor.Proofs.Formula.Agreement
import FormulaEditor.Proofs.Formula.Everywhere
import FormulaEditor.Proofs.Formula.Legibility

/-
  This file defines the tidied form of a row, in which there
  are no continuations and no blanks at the ends of slots,
  and proves that a row of ordinary characters is read back
  in its tidied form once it has been written.

  Key definitions include:
    * `isOrdinary`
    * `Node.isDraft`
    * `Row.merged`
    * `Row.tidied`
    * `Row.limitsLast`

  Key theorems include:
    * `Row.toText_merged`
    * `Row.legible_merged`
    * `Row.ofText_toText_of_draft`
-/

namespace FormulaEditor

open Text

variable {ι : Type}

------------------------------------------------------------
-- Merged Rows
------------------------------------------------------------

namespace Row

/-
  Put a node in front of a row: a continuation is left out,
  and a run is joined with the run that it meets.
-/
def push : Node ι → Row ι → Row ι
  | .continuation _ _, row => row
  | .text run, .text run' :: rest =>
      .text (run ++ run') :: rest
  | node, row => node :: row

end Row

mutual

/- A node with its rows merged. -/
def Node.merged : Node ι → Node ι
  | .construct kind id first second =>
      .construct kind id (Row.merged first)
        (Row.merged second)
  | node => node

/-
  A row without its continuations, in which the runs that
  meet are joined, and so in every row further down.
-/
def Row.merged : Row ι → Row ι
  | [] => []
  | node :: rest => Row.push node.merged (Row.merged rest)

end

/-
  A row that is merged and has no blanks at the ends of any
  slot.  The ends of the row itself stay as they are.
-/
def Row.tidied
    (row : Row ι) :
    Row ι :=
  row.merged.trimmed false false

mutual

/-
  Whether no limit is followed by anything in its row, where
  `last` tells whether the node itself is the last one.
-/
def Node.limitsLast
    (last : Bool) :
    Node ι → Bool
  | .construct kind _ first second =>
      (decide (kind = .fraction) || last) &&
        (Row.limitsLast first && Row.limitsLast second)
  | _ => true

/- Whether every limit is the last node of its row. -/
def Row.limitsLast : Row ι → Bool
  | [] => true
  | node :: rest =>
      node.limitsLast rest.isEmpty && Row.limitsLast rest

end

------------------------------------------------------------
-- Drafts
------------------------------------------------------------

/-
  A character that means nothing to reading: no brace, no
  placeholder and no line break.
-/
def isOrdinary
    (c : Char) :
    Bool :=
  !(c == '\x7b' || c == '\x7d' || isPlaceholder c ||
    isLineBreak c)

/- A run of ordinary characters. -/
def Text.IsOrdinary
    (run : Text) :
    Prop :=
  ∀ c ∈ run, isOrdinary c = true

/-
  Whether a node may stand in a draft: runs are made of
  ordinary characters, and continuations are not written.
-/
def Node.isDraft : Node ι → Bool
  | .text run => run.all isOrdinary
  | .construct _ _ _ _ => true
  | .continuation _ content => content.all isPlaceholder

/- There is no brace in an ordinary run. -/
theorem not_mem_of_isOrdinary
    {run : Text}
    (hOrdinary : run.IsOrdinary) :
    '\x7b' ∉ run ∧ '\x7d' ∉ run := by
  constructor <;>
    · intro hMem
      have hBrace := hOrdinary _ hMem
      revert hBrace
      decide

/- Ordinary runs are legible. -/
theorem isLegible_of_isOrdinary
    {run : Text}
    (hOrdinary : run.IsOrdinary) :
    run.IsLegible where
  paired := by
    rcases not_mem_of_isOrdinary hOrdinary with
      ⟨hOpen, hClose⟩
    exact pairedFrom_of_not_mem hOpen hClose 0
  plain := by
    rintro kind u v rfl
    exact (not_mem_of_isOrdinary hOrdinary).1 (by simp)
  visible := by
    rw [placeholderCount, List.countP_eq_zero]
    intro c hMem hPlaceholder
    have hOrdinary := hOrdinary c hMem
    simp [isOrdinary, hPlaceholder] at hOrdinary

/- Ordinary runs break no line. -/
theorem not_isLineBreak_of_isOrdinary
    (run : Text)
    (hOrdinary : run.IsOrdinary) :
    ∀ c ∈ run, isLineBreak c = false := by
  intro c hMem
  have hChar := hOrdinary c hMem
  simp_all [isOrdinary]

namespace Row

section Merged

variable (row : Row ι)

@[simp] theorem merged_text_cons
    (run : Text) :
    merged (.text run :: row) = push (.text run) row.merged :=
  rfl

@[simp] theorem merged_construct_cons
    (kind : Kind)
    (id : ι)
    (first second : Row ι) :
    merged (.construct kind id first second :: row) =
      .construct kind id first.merged second.merged ::
        row.merged :=
  rfl

@[simp] theorem merged_continuation_cons
    (id : ι)
    (content : Text) :
    merged (.continuation id content :: row) = row.merged :=
  rfl

end Merged

/- What is put in front of a row is written in front of it. -/
theorem toText_push
    {node : Node ι}
    (hDraft : node.isDraft = true)
    (row : Row ι) :
    (push node row).toText = node.toText ++ row.toText := by
  cases node with
  | construct => rfl
  | continuation id content =>
      have hNone : withoutPlaceholders content = [] := by
        rw [Node.isDraft, List.all_eq_true] at hDraft
        simpa [withoutPlaceholders] using hDraft
      simp [push, Node.toText, hNone]
  | text run =>
      cases row with
      | nil => rfl
      | cons next rest =>
          cases next with
          | text run' => simp [push, Row.toText, Node.toText]
          | construct => rfl
          | continuation => rfl

/- Merging a draft does not change what it is written as. -/
theorem toText_merged
    {row : Row ι}
    (hDraft : row.Throughout (·.isDraft = true)) :
    row.merged.toText = row.toText := by
  induction row using tree_induction with
  | nil => rfl
  | text run rest ih =>
      rw [throughout_text_cons] at hDraft
      rcases hDraft with ⟨hRun, hRest⟩
      rw [merged_text_cons, toText_push hRun, ih hRest,
        Row.toText]
  | construct kind id first second rest
      ihFirst ihSecond ihRest =>
      rw [throughout_construct_cons] at hDraft
      rcases hDraft with ⟨_, hFirst, hSecond, hRest⟩
      rw [merged_construct_cons, Row.toText, Row.toText,
        toText_construct, toText_construct, ihFirst hFirst,
        ihSecond hSecond, ihRest hRest]
  | continuation id content rest ih =>
      rw [throughout_continuation_cons] at hDraft
      rcases hDraft with ⟨hNode, hRest⟩
      have hPush := toText_push hNode rest.merged
      rw [merged_continuation_cons, Row.toText, ← ih hRest]
      exact hPush

------------------------------------------------------------
-- Merged Drafts Are Legible
------------------------------------------------------------

/- A run that is put in front of a legible row is joined. -/
theorem Legible.push_text
    {row : Row ι}
    (hLegible : row.Legible IsOrdinary)
    {run : Text}
    (hRun : run.IsOrdinary)
    (hNe : run ≠ []) :
    Legible IsOrdinary (push (.text run) row) := by
  have hAppend :
      ∀ {run' : Text}, run'.IsOrdinary →
        Text.IsOrdinary (run ++ run') := by
    intro run' hRun' c hMem
    rcases List.mem_append.mp hMem with hMem | hMem
    · exact hRun c hMem
    · exact hRun' c hMem
  have hOf :
      ∀ run' : Text, (ofRun (run ++ run') : Row ι) =
        [.text (run ++ run')] := by
    intro run'
    cases run with
    | nil => exact absurd rfl hNe
    | cons c run => rfl
  cases hLegible with
  | @run run' hRun' =>
      have hJoined :=
        @Legible.run ι IsOrdinary _ (hAppend hRun')
      rw [hOf] at hJoined
      cases run' with
      | nil => simpa [push, ofRun] using hJoined
      | cons c run' => exact hJoined
  | @construct run' kind id first second rest
      hRun' hFirst hSecond hRest hLine =>
      have hJoined :=
        @Legible.construct ι IsOrdinary _ kind id _ _ _
          (hAppend hRun') hFirst hSecond hRest hLine
      rw [hOf] at hJoined
      cases run' with
      | nil => simpa [push, ofRun] using hJoined
      | cons c run' => exact hJoined

/- A run that is put in front moves no limit. -/
theorem limitsLast_push_text
    (run : Text)
    (row : Row ι) :
    (push (.text run) row).limitsLast = row.limitsLast := by
  cases row with
  | nil => rfl
  | cons node rest => cases node <;> rfl

/-
  A draft is legible when it is merged, if every limit is
  the last node of its row then.
-/
theorem legible_merged
    {row : Row ι}
    (hSolid : row.Throughout (· ≠ .text []))
    (hDraft : row.Throughout (·.isDraft = true))
    (hLast : row.merged.limitsLast = true) :
    row.merged.Legible IsOrdinary := by
  have hNil : Text.IsOrdinary [] := by
    intro c hMem
    cases hMem
  induction row using tree_induction with
  | nil => exact .run hNil
  | text run rest ih =>
      rw [throughout_text_cons] at hSolid hDraft
      rw [merged_text_cons, limitsLast_push_text] at hLast
      refine (ih hSolid.2 hDraft.2 hLast).push_text
        (List.all_eq_true.mp hDraft.1) ?_
      rintro rfl
      exact hSolid.1 rfl
  | construct kind id first second rest
      ihFirst ihSecond ihRest =>
      rw [throughout_construct_cons] at hSolid hDraft
      rcases hSolid with
        ⟨_, hSolidFirst, hSolidSecond, hSolidRest⟩
      rcases hDraft with
        ⟨_, hDraftFirst, hDraftSecond, hDraftRest⟩
      simp only [merged_construct_cons, limitsLast,
        Node.limitsLast, Bool.and_eq_true, Bool.or_eq_true,
        decide_eq_true_eq, List.isEmpty_iff] at hLast
      rcases hLast with ⟨⟨hKind, hFirst, hSecond⟩, hRest⟩
      have hLegible :=
        ihSecond hSolidSecond hDraftSecond hSecond
      refine @Legible.construct ι _ [] kind id _ _ _ hNil
        (ihFirst hSolidFirst hDraftFirst hFirst) hLegible
        (ihRest hSolidRest hDraftRest hRest) ?_
      rintro rfl
      refine ⟨hLegible.not_isLineBreak
        not_isLineBreak_of_isOrdinary, ?_⟩
      rcases hKind with hKind | hEmpty
      · cases hKind
      · rw [hEmpty]
        simp [Row.toText, StartsLine]
  | continuation id content rest ih =>
      rw [throughout_continuation_cons] at hSolid hDraft
      exact ih hSolid.2 hDraft.2 hLast

/-
  A draft is read back in its tidied form once it has been
  written, if nothing follows a limit in it.
-/
theorem ofText_toText_of_draft
    {row : Row ι}
    (hSolid : row.Throughout (· ≠ .text []))
    (hDraft : row.Throughout (·.isDraft = true))
    (hLast : row.merged.limitsLast = true) :
    ofText row.toText = row.tidied.content := by
  have hLegible :=
    (legible_merged hSolid hDraft hLast).mono
      fun _ hRun => isLegible_of_isOrdinary hRun
  have hRead := hLegible.ofText_cut_toText false false
  rwa [cut_false_false, toText_merged hDraft] at hRead

end Row

end FormulaEditor
