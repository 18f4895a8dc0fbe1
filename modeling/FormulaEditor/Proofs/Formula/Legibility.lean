import FormulaEditor.Proofs.Formula.Rereading

/-
  This file proves what is read from a row that has been
  written.  Reading finds the constructs of a legible row
  where they were written, and takes nothing but blanks from
  the ends of their rows.

  Key definitions include:
    * `Row.ofRun`
    * `Row.trimmed`
    * `Text.IsLegible`
    * `Row.Legible`

  Key theorems include:
    * `Row.Legible.pairedFrom_toText`
    * `Row.Legible.ofText_cut_toText`
-/

namespace FormulaEditor

open Text

variable {ι : Type}

------------------------------------------------------------
-- Trimmed Rows
------------------------------------------------------------

/- The row of one run, which is not there if it is empty. -/
def Row.ofRun : Text → Row ι
  | [] => []
  | c :: run => [.text (c :: run)]

mutual

/-
  A node without the blanks at the chosen ends, if it is a
  run, and without those at the ends of its rows.
-/
def Node.trimmed
    (start stop : Bool) :
    Node ι → Row ι
  | .text run => Row.ofRun (cut start stop run)
  | .construct kind id first second =>
      [.construct kind id (Row.trimmed true true first)
        (Row.trimmed true true second)]
  | .continuation id content => [.continuation id content]

/-
  A row without the blanks at the chosen ends, and without
  those at both ends of every row further down.
-/
def Row.trimmed
    (start stop : Bool) :
    Row ι → Row ι
  | [] => []
  | node :: rest =>
      node.trimmed start (stop && rest.isEmpty) ++
        Row.trimmed false stop rest

end

section Runs

variable (run : Text)

@[simp] theorem toText_ofRun :
    (Row.ofRun run : Row ι).toText = run := by
  cases run with
  | nil => rfl
  | cons c run => simp [Row.ofRun, Row.toText, Node.toText]

/- A plain text is read as one run. -/
theorem ofPlain_eq_ofRun
    (s : Text) :
    Row.ofPlain s = Row.ofRun (dropPlaceholders s) := by
  unfold Row.ofPlain
  cases dropPlaceholders s <;> rfl

/- A run is trimmed as its text is. -/
theorem trimmed_ofRun
    (start stop : Bool) :
    (Row.ofRun run : Row ι).trimmed start stop =
      Row.ofRun (cut start stop run) := by
  cases run with
  | nil => cases start <;> cases stop <;> rfl
  | cons c run =>
      simp [Row.ofRun, Row.trimmed, Node.trimmed]

/- A row is trimmed part by part around a construct. -/
theorem trimmed_ofRun_append
    (start stop : Bool)
    (kind : Kind)
    (id : ι)
    (first second rest : Row ι) :
    Row.trimmed start stop
        (Row.ofRun run ++
          .construct kind id first second :: rest) =
      Row.ofRun (cut start false run) ++
        .construct kind id (first.trimmed true true)
          (second.trimmed true true) ::
        rest.trimmed false stop := by
  cases run with
  | nil =>
      cases start <;>
        simp [Row.ofRun, Row.trimmed, Node.trimmed, cut,
          cutStart, cutEnd, trimStart]
  | cons c run =>
      simp [Row.ofRun, Row.trimmed, Node.trimmed]

@[simp] theorem content_ofRun :
    (Row.ofRun run : Row ι).content = Row.ofRun run := by
  cases run <;> rfl

end Runs

/- The content of a row is that of its nodes. -/
theorem content_append
    (row other : Row ι) :
    (row ++ other).content = row.content ++ other.content := by
  induction row with
  | nil => rfl
  | cons node row ih =>
      simp only [Row.content] at ih
      simp only [Row.content, List.cons_append, Row.mapIds, ih]

@[simp] theorem content_construct_cons
    (kind : Kind)
    (id : ι)
    (first second rest : Row ι) :
    Row.content (.construct kind id first second :: rest) =
      .construct kind () first.content second.content ::
        rest.content :=
  rfl

------------------------------------------------------------
-- Legible Runs
------------------------------------------------------------

/-
  A run is legible when its braces are paired, no construct
  starts in it, and it has no placeholder.
-/
structure Text.IsLegible
    (run : Text) :
    Prop where
  paired : pairedFrom 0 run = true
  plain :
    ∀ (kind : Kind) u v,
      run ≠ u ++ (kind.command ++ '\x7b' :: v)
  visible : placeholderCount run = 0

/-
  No construct starts in a legible run once it is cut, and
  once a command follows it.
-/
theorem spelled?_of_cut_legible
    {run u v t : Text}
    (hLegible : run.IsLegible)
    {start stop : Bool}
    (hStart : StartsCommand t)
    (hSplit : cut start stop run = u ++ v)
    (hNe : v ≠ []) :
    spelled? (v ++ t) = none := by
  cases hFound : spelled? (v ++ t) with
  | none => rfl
  | some spelled =>
      rcases exists_spells_iff.mp
          ⟨spelled, spelled?_eq_some_iff.mp hFound⟩ with
        ⟨kind, content, hHead, _⟩
      rcases exists_append_of_command hNe hStart hHead with
        ⟨within, rfl, _⟩
      rcases exists_append_cut_append start stop run with
        ⟨lead, tail, _, _, hRun⟩
      apply absurd _
        (hLegible.plain kind (lead ++ u) (within ++ tail))
      rw [hRun, hSplit]
      simp only [List.append_assoc, List.cons_append]

/- A legible run is read as plain text when it is cut. -/
theorem ofPlain_cut_of_legible
    {run : Text}
    (hLegible : run.IsLegible)
    (start stop : Bool) :
    Row.ofPlain (cut start stop run) =
      Row.ofRun (cut start stop run) := by
  have hCount := placeholderCount_cut_le start stop run
  rw [hLegible.visible] at hCount
  rw [ofPlain_eq_ofRun,
    dropPlaceholders_of_placeholderCount_eq_zero
      (Nat.le_zero.mp hCount)]

------------------------------------------------------------
-- Legible Rows
------------------------------------------------------------

/-
  A row is legible when all of its runs are of a given kind,
  no two of them meet, and every limit stands on one line
  that nothing else is on.
-/
inductive Row.Legible
    (isRun : Text → Prop) :
    Row ι → Prop where
  | run {run : Text} :
      isRun run → Legible isRun (Row.ofRun run)
  | construct
      {run : Text}
      {kind : Kind}
      {id : ι}
      {first second rest : Row ι} :
      isRun run →
        Legible isRun first →
        Legible isRun second →
        Legible isRun rest →
        (kind = .limit →
          (∀ c ∈ second.toText, isLineBreak c = false) ∧
            StartsLine rest.toText) →
        Legible isRun
          (Row.ofRun run ++
            .construct kind id first second :: rest)

/- The text of a row with a construct. -/
theorem toText_ofRun_append
    (run : Text)
    (kind : Kind)
    (id : ι)
    (first second rest : Row ι) :
    Row.toText
        (Row.ofRun run ++
          .construct kind id first second :: rest) =
      run ++ (kind.write first.toText second.toText ++
        rest.toText) := by
  rw [toText_append, toText_ofRun, Row.toText,
    toText_construct]

/- Braces are paired after a construct if they are in it. -/
theorem pairedFrom_write_append
    (kind : Kind)
    {first second rest : Text}
    (hSecond :
      kind = .limit → pairedFrom 0 second = true)
    (hRest : kind = .limit → StartsLine rest) :
    pairedFrom 0 (kind.write first second ++ rest) =
      pairedFrom 0 rest := by
  have hGroup :
      ∀ s after, pairedFrom 0 (group s ++ after) =
        pairedFrom 0 after := by
    intro s after
    rw [group, List.append_assoc]
    exact isScan_pairedFrom.group_append
      (isBalanced_escapeLone _) 0 after
  cases kind with
  | fraction =>
      have hCommand :
          ∀ s, pairedFrom 0 (Kind.fraction.command ++ s) =
            pairedFrom 0 s :=
        fun s => rfl
      rw [Kind.write, List.append_assoc, List.append_assoc,
        hCommand, hGroup, hGroup]
  | limit =>
      have hCommand :
          ∀ s, pairedFrom 0 (Kind.limit.command ++ s) =
            pairedFrom 0 s :=
        fun s => rfl
      have hLine :
          pairedFrom (0 + 0) (trim second ++ rest) =
            pairedFrom 0 rest :=
        isScan_pairedFrom.append_of_pairedFrom
          (fun _ => rfl)
          (by rw [pairedFrom_trim]; exact hSecond rfl)
          (shielded_of_startsLine (hRest rfl)) 0
      rw [Kind.write, List.append_assoc, List.append_assoc,
        hCommand, hGroup]
      exact hLine

------------------------------------------------------------
-- Line Breaks
------------------------------------------------------------

/- A group breaks no line that its content does not break. -/
theorem not_isLineBreak_of_mem_group
    {c : Char}
    {s : Text}
    (hMem : c ∈ group s) :
    c ∈ s ∨ isLineBreak c = false := by
  simp only [group, List.cons_append, List.mem_cons,
    List.mem_append, List.not_mem_nil, or_false] at hMem
  rcases hMem with rfl | hContent | rfl
  · exact .inr (by decide)
  · rcases mem_escapeLoneFrom hContent with hMem | rfl | rfl
    · exact .inl (mem_of_mem_trim hMem)
    · exact .inr (by decide)
    · exact .inr (by decide)
  · exact .inr (by decide)

/- Nor does a construct. -/
theorem not_isLineBreak_of_mem_write
    {c : Char}
    {kind : Kind}
    {first second : Text}
    (hMem : c ∈ kind.write first second) :
    (c ∈ first ∨ c ∈ second) ∨ isLineBreak c = false := by
  have hCommand :
      ∀ kind : Kind, ∀ d ∈ kind.command,
        isLineBreak d = false := by
    intro kind
    cases kind <;> simp [Kind.command, isLineBreak]
  cases kind with
  | fraction =>
      simp only [Kind.write, List.mem_append] at hMem
      rcases hMem with (hMem | hMem) | hMem
      · exact .inr (hCommand _ c hMem)
      · exact (not_isLineBreak_of_mem_group hMem).imp_left
          .inl
      · exact (not_isLineBreak_of_mem_group hMem).imp_left
          .inr
  | limit =>
      simp only [Kind.write, List.mem_append, List.mem_cons]
        at hMem
      rcases hMem with (hMem | hMem) | rfl | hMem
      · exact .inr (hCommand _ c hMem)
      · exact (not_isLineBreak_of_mem_group hMem).imp_left
          .inl
      · exact .inr (by decide)
      · exact .inl (.inr (mem_of_mem_trim hMem))

------------------------------------------------------------
-- Reading a Legible Row
------------------------------------------------------------

namespace Row

variable {row : Row ι}

/- Only the runs of a legible row are of a given kind. -/
theorem Legible.mono
    {isRun isRun' : Text → Prop}
    (hRuns : ∀ run, isRun run → isRun' run)
    (hLegible : row.Legible isRun) :
    row.Legible isRun' := by
  induction hLegible with
  | run hRun => exact .run (hRuns _ hRun)
  | construct hRun _ _ _ hLine ihFirst ihSecond ihRest =>
      exact .construct (hRuns _ hRun) ihFirst ihSecond ihRest
        hLine

/- A legible row breaks no line that its runs do not break. -/
theorem Legible.not_isLineBreak
    {isRun : Text → Prop}
    (hRuns :
      ∀ run, isRun run → ∀ c ∈ run, isLineBreak c = false)
    (hLegible : row.Legible isRun) :
    ∀ c ∈ row.toText, isLineBreak c = false := by
  induction hLegible with
  | run hRun =>
      rw [toText_ofRun]
      exact hRuns _ hRun
  | construct hRun _ _ _ _ ihFirst ihSecond ihRest =>
      intro c hMem
      rw [toText_ofRun_append, List.mem_append,
        List.mem_append] at hMem
      rcases hMem with hMem | hMem | hMem
      · exact hRuns _ hRun c hMem
      · rcases not_isLineBreak_of_mem_write hMem with
          (hFirst | hSecond) | hNew
        · exact ihFirst c hFirst
        · exact ihSecond c hSecond
        · exact hNew
      · exact ihRest c hMem

/- The braces of a legible row are paired when it is written. -/
theorem Legible.pairedFrom_toText
    (hLegible : row.Legible IsLegible) :
    pairedFrom 0 row.toText = true := by
  induction hLegible with
  | run hRun =>
      rw [toText_ofRun]
      exact hRun.paired
  | @construct run kind id first second rest
      hRun _ _ _ hLine _ ihSecond ihRest =>
      have hWrite :
          pairedFrom 0
              (kind.write first.toText second.toText ++
                rest.toText) =
            pairedFrom 0 rest.toText :=
        pairedFrom_write_append kind (fun _ => ihSecond)
          (fun hKind => (hLine hKind).2)
      rw [toText_ofRun_append]
      rw [← ihRest, ← hWrite]
      exact isScan_pairedFrom.append_of_pairedFrom
        (fun _ => rfl) hRun.paired (shielded_write ..) 0

/- A group is read as the row that it was written for. -/
theorem Legible.trim_escapeLone
    (hLegible : row.Legible IsLegible) :
    trim (escapeLone (trim row.toText)) = trim row.toText := by
  have hPaired : pairedFrom 0 (trim row.toText) = true := by
    rw [pairedFrom_trim]
    exact hLegible.pairedFrom_toText
  rw [escapeLone_of_paired hPaired, trim_finished_trim]

/- So is the second row of a construct. -/
theorem Legible.trim_writeSecond
    (hLegible : row.Legible IsLegible)
    (kind : Kind) :
    trim (kind.writeSecond row.toText) = trim row.toText := by
  cases kind with
  | fraction => exact hLegible.trim_escapeLone
  | limit => exact trim_trim _

/-
  The leftmost construct of a legible row is found where it
  is written.
-/
theorem firstSpelled?_cut_write
    {run first second rest : Text}
    (hRun : run.IsLegible)
    (start stop : Bool)
    (kind : Kind)
    (hLine :
      kind = .limit →
        (∀ c ∈ second, isLineBreak c = false) ∧
          StartsLine rest) :
    firstSpelled?
        (cut start stop
          (run ++ (kind.write first second ++ rest))) =
      some (cut start false run,
        ⟨kind, escapeLone (trim first),
          kind.writeSecond second, cutEnd stop rest⟩) := by
  have hSpells :=
    @spells_cutEnd_write kind stop first second rest
      (fun hKind c hMem =>
        (hLine hKind).1 c (mem_of_mem_trim hMem))
      (fun hKind => (hLine hKind).2)
  have hStart :
      StartsCommand
        (cutEnd stop (kind.write first second ++ rest)) := by
    intro c hHead
    rw [head?_of_spells hSpells] at hHead
    exact (Option.some.inj hHead).symm
  refine firstSpelled?_eq_some_iff.mpr
    ⟨_, cut_append_write .., hSpells, ?_⟩
  intro u v hSplit hNe
  exact spelled?_of_cut_legible hRun hStart hSplit hNe

/-
  Reading a legible row that has been written leads back to
  that row without its outer blanks.
-/
theorem Legible.ofText_cut_toText
    (hLegible : row.Legible IsLegible)
    (start stop : Bool) :
    Row.ofText (cut start stop row.toText) =
      (row.trimmed start stop).content := by
  induction hLegible generalizing start stop with
  | @run run hRun =>
      have hNone :
          firstSpelled? (cut start stop run) = none := by
        refine firstSpelled?_eq_none_iff.mpr ?_
        intro u v hSplit hNe
        have hHere :=
          @spelled?_of_cut_legible run u v [] hRun start stop
            (by simp [StartsCommand]) hSplit hNe
        rwa [List.append_nil] at hHere
      rw [toText_ofRun, Row.ofText_of_none hNone,
        ofPlain_cut_of_legible hRun, trimmed_ofRun,
        content_ofRun]
  | @construct run kind id first second rest
      hRun hFirst hSecond hRest hLine
      ihFirst ihSecond ihRest =>
      have hFirstRow := ihFirst true true
      have hSecondRow := ihSecond true true
      have hRestRow := ihRest false stop
      rw [cut_true_true] at hFirstRow hSecondRow
      rw [toText_ofRun_append,
        Row.ofText_of_some
          (firstSpelled?_cut_write hRun start stop kind hLine),
        trimmed_ofRun_append, content_append, content_ofRun,
        content_construct_cons,
        ofPlain_cut_of_legible hRun]
      simp only
      rw [hFirst.trim_escapeLone, hSecond.trim_writeSecond,
        hFirstRow, hSecondRow, ← hRestRow]
      rfl

end Row

end FormulaEditor
