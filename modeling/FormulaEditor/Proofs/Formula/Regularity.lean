import FormulaEditor.Document.Basic
import FormulaEditor.Proofs.Formula.Agreement
import FormulaEditor.Proofs.Formula.Everywhere
import FormulaEditor.Proofs.Formula.Legibility

/-
  This file defines the regular rows, which say nothing that
  reading could take for something else, and proves that a
  regular row is read back as it is once it is written.

  Key definitions include:
    * `Text.isRegular`
    * `Node.mayPrecede`
    * `Row.hasSolidEnds`
    * `Row.isRegular`

  Key theorems include:
    * `Row.legible_of_isRegular`
    * `Row.trimmed_of_isRegular`
    * `Document.sameContent_ofText_toText`
-/

namespace FormulaEditor

open Text

variable {ι : Type}

------------------------------------------------------------
-- Regular Rows
------------------------------------------------------------

/-
  Whether a run is regular: its braces are balanced, and it
  has neither an escape nor a placeholder.  Where `line` is
  set, as in the expression of a limit, it has no line break
  either.
-/
def Text.isRegular
    (line : Bool)
    (run : Text) :
    Bool :=
  isBalanced run && !run.contains '\\' &&
    run.all fun c =>
      !isPlaceholder c && !(line && isLineBreak c)

/-
  Whether a node may stand before what follows it in its
  row.  No run meets another, and a limit stands at the end
  of its row or of a line.
-/
def Node.mayPrecede : Node ι → Option (Node ι) → Bool
  | .text _, some (.text _) => false
  | .construct .limit _ _ _, some (.text run) =>
      run.head?.any isLineBreak
  | .construct .limit _ _ _, some _ => false
  | _, _ => true

namespace Node

/- Whether a node does not start with a blank. -/
def startsSolid : Node ι → Bool
  | .text run => run.head?.all (!isBlank ·)
  | _ => true

/- Whether a node does not end with a blank. -/
def endsSolid : Node ι → Bool
  | .text run => run.getLast?.all (!isBlank ·)
  | _ => true

end Node

/- Whether neither end of a row is a blank. -/
def Row.hasSolidEnds
    (row : Row ι) :
    Bool :=
  row.head?.all Node.startsSolid &&
    row.getLast?.all Node.endsSolid

mutual

/-
  Whether a node is regular.  Continuations and empty runs
  are not, and the rows of a construct have solid ends.
-/
def Node.isRegular
    (line : Bool) :
    Node ι → Bool
  | .text run => !run.isEmpty && run.isRegular line
  | .construct kind _ first second =>
      (Row.hasSolidEnds first && Row.isRegular line first) &&
        (Row.hasSolidEnds second &&
          Row.isRegular (line || decide (kind = .limit))
            second)
  | .continuation _ _ => false

/-
  Whether every node of a row is regular, at any depth, and
  may precede the next one.
-/
def Row.isRegular
    (line : Bool) :
    Row ι → Bool
  | [] => true
  | node :: rest =>
      node.isRegular line && node.mayPrecede rest.head? &&
        Row.isRegular line rest

end

------------------------------------------------------------
-- Regular Rows Are Legible
------------------------------------------------------------

section Runs

variable {line : Bool} {run : Text}

/- The empty run is regular, though no node may hold it. -/
theorem isRegular_nil :
    Text.isRegular line [] = true :=
  rfl

/- Regular runs are legible. -/
theorem isLegible_of_isRegular
    (hRegular : run.isRegular line = true) :
    run.IsLegible := by
  simp only [Text.isRegular, Bool.and_eq_true,
    List.all_eq_true, Bool.not_eq_true'] at hRegular
  rcases hRegular with ⟨⟨hBalanced, hEscape⟩, hChars⟩
  refine ⟨pairedFrom_of_balancedFrom hBalanced, ?_, ?_⟩
  · rintro kind u v rfl
    cases kind <;> simp [Kind.command] at hEscape
  · rw [placeholderCount, List.countP_eq_zero]
    intro c hMem hPlaceholder
    have hChar := (hChars c hMem).1
    rw [hPlaceholder] at hChar
    cases hChar

/- A regular run of a limit's expression is on one line. -/
theorem not_isLineBreak_of_isRegular
    (hRegular : run.isRegular true = true) :
    ∀ c ∈ run, isLineBreak c = false := by
  simp only [Text.isRegular, Bool.and_eq_true,
    List.all_eq_true, Bool.not_eq_true'] at hRegular
  intro c hMem
  simpa using (hRegular.2 c hMem).2

/- Whatever is regular on one line is regular. -/
theorem isRegular_of_true
    (hRegular : run.isRegular true = true) :
    run.isRegular line = true := by
  cases line with
  | true => exact hRegular
  | false =>
      simp only [Text.isRegular, Bool.and_eq_true,
        List.all_eq_true] at hRegular ⊢
      refine ⟨hRegular.1, ?_⟩
      intro c hMem
      exact ⟨(hRegular.2 c hMem).1, rfl⟩

end Runs

namespace Row

/- A run may stand in front of a row that starts with none. -/
theorem Legible.text_cons
    {isRun : Text → Prop}
    {row : Row ι}
    (hLegible : row.Legible isRun)
    {run : Text}
    (hRun : isRun run)
    (hNe : run ≠ [])
    (hApart : ∀ run', row.head? ≠ some (.text run')) :
    Legible isRun (.text run :: row) := by
  have hOf : (ofRun run : Row ι) = [.text run] := by
    cases run with
    | nil => exact absurd rfl hNe
    | cons c run => rfl
  cases hLegible with
  | @run run' _ =>
      cases run' with
      | nil =>
          have hAlone := @Legible.run ι isRun run hRun
          rwa [hOf] at hAlone
      | cons c run' => exact absurd rfl (hApart (c :: run'))
  | @construct run' kind id first second rest
      _ hFirst hSecond hRest hLine =>
      cases run' with
      | nil =>
          have hFront :=
            @Legible.construct ι isRun run kind id _ _ _
              hRun hFirst hSecond hRest hLine
          rwa [hOf] at hFront
      | cons c run' => exact absurd rfl (hApart (c :: run'))

/-
  What follows a regular limit in its row is nothing or
  starts a line.
-/
theorem startsLine_of_mayPrecede
    {id : ι}
    {first second rest : Row ι}
    (hNext :
      (Node.construct .limit id first second).mayPrecede
          rest.head? =
        true) :
    StartsLine rest.toText := by
  cases rest with
  | nil => simp [Row.toText, StartsLine]
  | cons node rest =>
      cases node with
      | construct => cases hNext
      | continuation => cases hNext
      | text run =>
          cases run with
          | nil => cases hNext
          | cons c run =>
              intro d hHead
              rcases Option.some.inj hHead with rfl
              exact hNext

/- The runs of a regular row are kept apart. -/
theorem ne_text_of_mayPrecede
    {run : Text}
    {rest : Row ι}
    (hNext :
      (Node.text run).mayPrecede rest.head? = true) :
    ∀ run', rest.head? ≠ some (.text run') := by
  intro run' hHead
  rw [hHead] at hNext
  cases hNext

/- Regular rows are legible. -/
theorem legible_of_isRegular
    {row : Row ι}
    {line : Bool}
    (hRegular : row.isRegular line = true) :
    row.Legible (·.isRegular line = true) := by
  induction row using tree_induction generalizing line with
  | nil => exact @Legible.run ι _ [] isRegular_nil
  | text run rest ih =>
      simp only [isRegular, Node.isRegular, Bool.and_eq_true,
        Bool.not_eq_true', List.isEmpty_eq_false_iff]
        at hRegular
      rcases hRegular with ⟨⟨⟨hNe, hRun⟩, hNext⟩, hRest⟩
      exact (ih hRest).text_cons hRun hNe
        (ne_text_of_mayPrecede hNext)
  | construct kind id first second rest
      ihFirst ihSecond ihRest =>
      simp only [isRegular, Node.isRegular, Bool.and_eq_true]
        at hRegular
      rcases hRegular with
        ⟨⟨⟨⟨_, hFirst⟩, _, hSecond⟩, hNext⟩, hRest⟩
      have hLine :
          kind = .limit →
            (∀ c ∈ second.toText, isLineBreak c = false) ∧
              StartsLine rest.toText := by
        rintro rfl
        simp only [decide_true, Bool.or_true] at hSecond
        exact ⟨(ihSecond hSecond).not_isLineBreak
            fun _ => not_isLineBreak_of_isRegular,
          startsLine_of_mayPrecede hNext⟩
      have hRuns :
          second.Legible (·.isRegular line = true) := by
        refine (ihSecond hSecond).mono ?_
        intro run hRun
        cases hLast : line || decide (kind = .limit) with
        | true =>
            rw [hLast] at hRun
            exact isRegular_of_true hRun
        | false =>
            rw [(Bool.or_eq_false_iff.mp hLast).1]
            rwa [hLast] at hRun
      exact @Legible.construct ι _ [] kind id _ _ _
        isRegular_nil (ihFirst hFirst) hRuns (ihRest hRest)
        hLine
  | continuation id content rest ih =>
      simp [isRegular, Node.isRegular] at hRegular

------------------------------------------------------------
-- Regular Rows Are Trimmed
------------------------------------------------------------

/- Nothing is cut from a run with solid ends. -/
theorem cut_of_solid
    {start stop : Bool}
    {run : Text}
    (hStart :
      start = true → (Node.text run : Node ι).startsSolid = true)
    (hStop :
      stop = true → (Node.text run : Node ι).endsSolid = true) :
    cut start stop run = run := by
  rw [cut_eq_iff]
  constructor
  · cases start with
    | false => cases run.head? <;> rfl
    | true => exact hStart rfl
  · cases stop with
    | false => cases run.getLast? <;> rfl
    | true => exact hStop rfl

/- Solid ends stay when a node is taken off in front. -/
theorem getLast?_of_cons
    {node : Node ι}
    {rest : Row ι}
    {p : Node ι → Bool}
    (hLast : (node :: rest).getLast?.all p = true) :
    rest.getLast?.all p = true := by
  cases rest with
  | nil => rfl
  | cons next rest =>
      rwa [List.getLast?_cons_cons] at hLast

/- Nothing is cut from a regular row with solid ends. -/
theorem trimmed_of_isRegular
    {row : Row ι}
    {line start stop : Bool}
    (hRegular : row.isRegular line = true)
    (hStart :
      start = true → row.head?.all Node.startsSolid = true)
    (hStop :
      stop = true → row.getLast?.all Node.endsSolid = true) :
    row.trimmed start stop = row := by
  induction row using tree_induction
    generalizing line start stop with
  | nil => rfl
  | text run rest ih =>
      simp only [isRegular, Node.isRegular, Bool.and_eq_true,
        Bool.not_eq_true', List.isEmpty_eq_false_iff]
        at hRegular
      rcases hRegular with ⟨⟨⟨hNe, _⟩, _⟩, hRest⟩
      have hRun :
          cut start (stop && rest.isEmpty) run = run := by
        refine @cut_of_solid ι _ _ _ hStart ?_
        intro hEnd
        simp only [Bool.and_eq_true, List.isEmpty_iff] at hEnd
        rcases hEnd with ⟨hEnd, rfl⟩
        exact hStop hEnd
      have hRows : rest.trimmed false stop = rest :=
        ih hRest (by simp)
          fun hEnd => getLast?_of_cons (hStop hEnd)
      rw [trimmed, Node.trimmed, hRun, hRows]
      cases run with
      | nil => exact absurd rfl hNe
      | cons c run => rfl
  | construct kind id first second rest
      ihFirst ihSecond ihRest =>
      simp only [isRegular, Node.isRegular, hasSolidEnds,
        Bool.and_eq_true] at hRegular
      rcases hRegular with
        ⟨⟨⟨⟨⟨hStartFirst, hStopFirst⟩, hFirst⟩,
          ⟨hStartSecond, hStopSecond⟩, hSecond⟩, _⟩, hRest⟩
      have hRows : rest.trimmed false stop = rest :=
        ihRest hRest (by simp)
          fun hEnd => getLast?_of_cons (hStop hEnd)
      rw [trimmed, Node.trimmed,
        ihFirst hFirst (fun _ => hStartFirst)
          fun _ => hStopFirst,
        ihSecond hSecond (fun _ => hStartSecond)
          fun _ => hStopSecond,
        hRows]
      rfl
  | continuation id content rest ih =>
      simp [isRegular, Node.isRegular] at hRegular

end Row

------------------------------------------------------------
-- Reading a Regular Row
------------------------------------------------------------

/- A regular row is read back as it is from its text. -/
theorem Document.sameContent_ofText_toText
    {row : Row ι}
    (hRegular : row.isRegular false = true) :
    (ofText row.toText).root.sameContent row = true := by
  have hLegible :=
    (Row.legible_of_isRegular hRegular).mono
      fun _ => isLegible_of_isRegular
  have hRead := hLegible.ofText_cut_toText false false
  rw [cut_false_false,
    Row.trimmed_of_isRegular hRegular (by simp) (by simp)]
    at hRead
  rw [Row.sameContent_iff, ← hRead]
  exact Row.content_number 0 _

/-
  A limit that ends its line, in a row with groups of its
  own, and one that ends its row.
-/
theorem Document.sameContent_ofText_toText_of_lines :
    let row : Row Unit :=
      [.text " a\x7bb\x7d".toList,
        .construct .fraction ()
          [.construct .limit () [] [],
            .text "\n+ \x7b\x7d".toList,
            .construct .limit () [.text "x".toList]
              [.construct .fraction () [] [.text "y".toList],
                .construct .limit () [] []]]
          [],
        .text "\n".toList]
    row.isRegular false = true ∧
      (ofText row.toText).root.sameContent row = true := by
  intro row
  have hRegular : row.isRegular false = true := by decide
  exact ⟨hRegular, sameContent_ofText_toText hRegular⟩

end FormulaEditor
