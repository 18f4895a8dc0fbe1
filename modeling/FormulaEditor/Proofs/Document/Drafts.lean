import FormulaEditor.Proofs.Editing.Reachability
import FormulaEditor.Proofs.Formula.Merging

/-
  This file proves what is left of a document that has been
  written from scratch, saved and opened again: everything
  but the continuations and the blanks at the ends of slots,
  as long as nothing follows a limit in its row.

  Key definitions include:
    * `Document.Drafted`
    * `Editor.run`

  Key theorems include:
    * `Document.Drafted.isDraft`
    * `Document.sameContent_tidied_of_drafted`
-/

namespace FormulaEditor

------------------------------------------------------------
-- Drafts
------------------------------------------------------------

namespace Node

variable {ι : Type}

/- Whether a node is a draft is seen cell by cell. -/
theorem isCellwise_isDraft :
    IsCellwise fun node : Node ι => node.isDraft = true where
  text run := by simp [isDraft]
  slot slot _ _ _ _ _ := by
    rcases slot with ⟨_, _ | _⟩ <;> rfl

/- Identities do not matter to whether a node is a draft. -/
theorem isDraft_number
    (next : Identity)
    (node : Node ι) :
    (node.number next).isDraft = node.isDraft := by
  cases node <;> rfl

end Node

/- Nor do they further down. -/
theorem Row.throughout_isDraft_number
    {ι : Type}
    {row : Row ι}
    (hDraft : row.Throughout (·.isDraft = true))
    (next : Identity) :
    (Row.number next row).Throughout (·.isDraft = true) := by
  intro steps inner hAt node hMem
  rcases Row.exists_of_at?_number hAt with
    ⟨start, below, hBelow, rfl⟩
  rcases List.getElem?_of_mem hMem with ⟨index, hNode⟩
  rcases Row.exists_of_getElem?_number hNode with
    ⟨first, content, hContent, rfl⟩
  rw [Node.isDraft_number]
  exact hDraft steps below hBelow content
    (List.mem_of_getElem? hContent)

/- An ordinary limit has a run and a fraction. -/
theorem LimitTemplate.node_standard :
    LimitTemplate.standard.node =
      .construct .limit ()
        [.text "x \\to -\\infty".toList]
        [.construct .fraction ()
          [.text "x".toList] [.text "2x-3".toList]] := by
  have hFraction :
      firstSpelled? (Text.trim standard.expression) =
        some ([], ⟨.fraction, "x".toList, "2x-3".toList, []⟩) :=
    rfl
  rw [node, Row.ofText_of_some hFraction]
  simp only
  rw [@Row.ofText_of_none (Text.trim standard.subscript) rfl,
    @Row.ofText_of_none (Text.trim "x".toList) rfl,
    @Row.ofText_of_none (Text.trim "2x-3".toList) rfl,
    @Row.ofText_of_none [] rfl]
  rfl

/- Whatever an intent adds to a draft is a draft. -/
theorem isDraft_additions
    {intent : Intent}
    (hTyped :
      ∀ c, intent = .type c → isOrdinary c = true) :
    ∀ node ∈ intent.additions .standard,
      Row.Throughout (·.isDraft = true) [node] := by
  refine Intent.forall_mem_additions ?_ ?_ ?_ ?_
  · simp [Node.emptyFraction, Row.throughout_construct_cons,
      Row.throughout_nil, Node.isDraft]
  · change Row.Throughout _ [LimitTemplate.standard.node]
    simp only [LimitTemplate.node_standard,
      Row.throughout_construct_cons,
      Row.throughout_text_cons, Row.throughout_nil]
    decide
  · simp only [Row.throughout_continuation_cons,
      Row.throughout_nil]
    decide
  · intro c hType
    simpa [Row.throughout_text_cons, Row.throughout_nil,
      Node.isDraft] using hTyped c hType

------------------------------------------------------------
-- Documents Written From Scratch
------------------------------------------------------------

namespace Document

/-
  The documents that are written from scratch in an ordinary
  editor, where only some characters are typed.
-/
inductive Drafted
    (typed : Char → Bool) :
    Document → Prop where
  | empty : Drafted typed .empty
  | apply
      {document : Document}
      (caret : Caret)
      (intent : Intent) :
      (∀ c, intent = .type c → typed c = true) →
        Drafted typed document →
        Drafted typed
          (Editor.apply .standard ⟨document, caret⟩
            intent).1.document

namespace Drafted

variable {typed : Char → Bool} {document : Document}

/- What is written from scratch is reached by editing. -/
theorem reachable
    (hDrafted : document.Drafted typed) :
    document.Reachable := by
  induction hDrafted with
  | empty => exact .empty
  | apply caret intent _ _ ih =>
      exact ih.apply .standard caret intent

/- Its runs are ordinary if the characters typed are. -/
theorem isDraft
    (hTyped : ∀ c, typed c = true → isOrdinary c = true)
    (hDrafted : document.Drafted typed) :
    document.root.Throughout (·.isDraft = true) := by
  induction hDrafted with
  | empty => exact Row.throughout_nil
  | apply caret intent hIntent _ ih =>
      refine (Editor.edits_apply .standard ⟨_, caret⟩
        intent).throughout Node.isCellwise_isDraft ?_ ih
      intro node hMem next
      exact Row.throughout_isDraft_number
        (isDraft_additions
          (fun c hType => hTyped c (hIntent c hType))
          node hMem)
        next

end Drafted

/- Letters and digits are ordinary. -/
theorem isOrdinary_of_isAlphanum
    {c : Char}
    (hTyped : c.isAlphanum = true) :
    isOrdinary c = true := by
  rw [isOrdinary, Bool.not_eq_true', Bool.eq_false_iff]
  intro hSpecial
  simp only [Bool.or_eq_true, beq_iff_eq, isPlaceholder,
    placeholders, isLineBreak, List.contains_cons,
    List.contains_nil, Bool.or_false] at hSpecial
  rcases hSpecial with ((rfl | rfl) | rfl | rfl) | rfl | rfl <;>
    exact absurd hTyped (by decide)

end Document

------------------------------------------------------------
-- Runs of an Editor
------------------------------------------------------------

namespace Editor

/- Apply intents one after the other, each at the caret. -/
def run
    (settings : Settings)
    (editor : Editor)
    (intents : List Intent) :
    Editor :=
  intents.foldl
    (fun editor intent => (editor.apply settings intent).1)
    editor

/- A run leads to a document that is reached by editing. -/
theorem reachable_run
    {editor : Editor}
    (hReachable : editor.document.Reachable)
    (settings : Settings)
    (intents : List Intent) :
    (run settings editor intents).document.Reachable := by
  induction intents generalizing editor with
  | nil => exact hReachable
  | cons intent intents ih =>
      exact ih (.apply settings editor.caret intent hReachable)

/- A run writes a document from scratch. -/
theorem drafted_run
    {typed : Char → Bool}
    {editor : Editor}
    (hDrafted : editor.document.Drafted typed)
    (intents : List Intent)
    (hTyped : ∀ c, .type c ∈ intents → typed c = true) :
    (run .standard editor intents).document.Drafted typed := by
  induction intents generalizing editor with
  | nil => exact hDrafted
  | cons intent intents ih =>
      have hIntent :
          ∀ c, intent = .type c → typed c = true := by
        rintro c rfl
        exact hTyped c (List.mem_cons_self ..)
      exact ih
        (Document.Drafted.apply editor.caret intent hIntent
          hDrafted)
        (fun c hMem =>
          hTyped c (List.mem_cons_of_mem intent hMem))

end Editor

------------------------------------------------------------
-- Saving and Opening Again
------------------------------------------------------------

namespace Document

/- The document that intents write from scratch. -/
def written
    (intents : List Intent) :
    Document :=
  (Editor.run .standard (.atEnd .empty) intents).document

/- What intents write is written from scratch. -/
theorem drafted_written
    {typed : Char → Bool}
    (intents : List Intent)
    (hTyped : ∀ c, .type c ∈ intents → typed c = true) :
    (written intents).Drafted typed :=
  Editor.drafted_run .empty intents hTyped

/-
  What is written from scratch with letters and digits,
  saved and opened again is the same but for continuations
  and for blanks at the ends of slots, if nothing follows a
  limit in its row.
-/
theorem sameContent_tidied_of_drafted
    {document : Document}
    (hDrafted : document.Drafted Char.isAlphanum)
    (hLast : document.root.merged.limitsLast = true) :
    (ofText document.toText).root.sameContent
      document.root.tidied = true := by
  have hRead :=
    Row.ofText_toText_of_draft hDrafted.reachable.sound.solid
      (hDrafted.isDraft fun _ => isOrdinary_of_isAlphanum)
      hLast
  rw [Row.sameContent_iff, ← hRead]
  exact Row.content_number 0 _

/-
  Two runs are left on both sides of a continuation when the
  fraction before it is removed, and the first character of
  a subscript is deleted, so that a blank comes first in it.
-/
theorem sameContent_tidied_of_leading_blank :
    let document :=
      written
        [.type 'a', .fraction, .forward, .forward, .type 'c',
          .focus ⟨.slot 0 .denominator, 0, 0, false⟩,
          .forward,
          .focus ⟨.slot 0 .numerator, 0, 0, false⟩,
          .backspace, .focus ⟨.root, 3, 0, false⟩, .limit,
          .focus ⟨.slot 3 .subscript, 0, 1, false⟩,
          .backspace, .forward, .forward]
    document.Drafted Char.isAlphanum ∧
      document.root.merged.limitsLast = true ∧
      (ofText document.toText).root.sameContent
        document.root.tidied = true := by
  intro document
  have hDrafted : document.Drafted Char.isAlphanum :=
    drafted_written _ (by simp)
  have hLast : document.root.merged.limitsLast = true := by
    decide +kernel
  exact ⟨hDrafted, hLast,
    sameContent_tidied_of_drafted hDrafted hLast⟩

/-
  Dropping the continuations and joining runs is not enough:
  a blank that comes first in a subscript is cut, and what
  follows a limit is read as a part of its expression.
-/
theorem not_sameContent_merged :
    let blank :=
      written
        [.limit, .focus ⟨.slot 0 .subscript, 0, 1, false⟩,
          .backspace]
    let beyond :=
      written [.limit, .forward, .forward, .type 'a']
    (blank.Drafted Char.isAlphanum ∧
        (ofText blank.toText).root.sameContent
          blank.root.merged = false) ∧
      beyond.Drafted Char.isAlphanum ∧
        (ofText beyond.toText).root.sameContent
          beyond.root.merged = false := by
  refine ⟨⟨drafted_written _ (by simp), ?_⟩,
    drafted_written _ (by simp), ?_⟩
  · decide +kernel
  · decide +kernel

end Document

end FormulaEditor
