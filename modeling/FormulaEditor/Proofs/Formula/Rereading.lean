import FormulaEditor.Proofs.Formula.Canonical

/-
  This file proves what is read from a text that has been
  written: the same constructs at the same places, around
  runs and lines from which at most blanks and placeholders
  have gone.

  Key definitions include:
    * `HasGroups`
    * `Spelled.rewritten`

  Key theorems include:
    * `exists_spells_iff`
    * `Text.firstSpelled?_cut_of_none`
    * `Text.firstSpelled?_cut_canonical`
-/

namespace FormulaEditor

open Text

------------------------------------------------------------
-- Groups of a Construct
------------------------------------------------------------

/-
  Whether the groups of a construct close, where the first
  one has just been opened.
-/
def HasGroups
    (kind : Kind)
    (content : Text) :
    Prop :=
  ∃ after, afterGroup? 0 content = some after ∧
    (kind = .fraction →
      ∃ second, after = '\x7b' :: second ∧
        (afterGroup? 0 second).isSome = true)

/- What follows a group that has been read. -/
theorem afterGroup?_eq_some_iff
    {s after : Text} :
    afterGroup? 0 s = some after ↔
      ∃ content, s = content ++ '\x7d' :: after ∧
        isBalanced content = true := by
  simp only [afterGroup?, Option.map_eq_some_iff]
  constructor
  · rintro ⟨⟨content, rest⟩, hRead, rfl⟩
    exact ⟨content, readGroup_eq_some_iff.mp hRead⟩
  · rintro ⟨content, hRead⟩
    exact ⟨(content, after), readGroup_eq_some_iff.mpr hRead,
      rfl⟩

/- A group closes after balanced content. -/
theorem isSome_afterGroup?_append
    {content : Text}
    (hBalanced : isBalanced content = true)
    (after : Text) :
    (afterGroup? 0 (content ++ '\x7d' :: after)).isSome =
      true := by
  rw [afterGroup?_eq_some_iff.mpr ⟨content, rfl, hBalanced⟩]
  rfl

/- A construct is spelled where its groups close. -/
theorem exists_spells_iff
    {s : Text} :
    (∃ spelled, Spells s spelled) ↔
      ∃ kind content,
        s = kind.command ++ '\x7b' :: content ∧
          HasGroups kind content := by
  constructor
  · rintro ⟨spelled, hSpells⟩
    cases hSpells with
    | @fraction first second rest hFirst hSecond =>
        refine ⟨.fraction, _, rfl, _,
          afterGroup?_eq_some_iff.mpr ⟨first, rfl, hFirst⟩,
          fun _ => ⟨_, rfl, ?_⟩⟩
        exact isSome_afterGroup?_append hSecond rest
    | @limit subscript gap line rest hSubscript =>
        exact ⟨.limit, _, rfl, _,
          afterGroup?_eq_some_iff.mpr
            ⟨subscript, rfl, hSubscript⟩,
          fun hKind => by cases hKind⟩
  · rintro ⟨kind, content, rfl, after, hAfter, hGroup⟩
    rcases afterGroup?_eq_some_iff.mp hAfter with
      ⟨first, rfl, hFirst⟩
    cases kind with
    | fraction =>
        rcases hGroup rfl with ⟨opened, rfl, hSome⟩
        rcases Option.isSome_iff_exists.mp hSome with
          ⟨rest, hRest⟩
        rcases afterGroup?_eq_some_iff.mp hRest with
          ⟨second, rfl, hSecond⟩
        exact ⟨_, .fraction hFirst hSecond⟩
    | limit => exact ⟨_, spells_limit_of_group hFirst after⟩

------------------------------------------------------------
-- Groups of Tidied Texts
------------------------------------------------------------

/- A group that is opened in a tidied text was so before. -/
theorem isSome_afterGroup?_of_tidied
    {s t : Text}
    (hTidied : Tidied ('\x7b' :: s) ('\x7b' :: t))
    (hSome : (afterGroup? 0 t).isSome = true) :
    (afterGroup? 0 s).isSome = true := by
  generalize hS : '\x7b' :: s = s' at hTidied
  generalize hT : '\x7b' :: t = t' at hTidied
  cases hTidied with
  | nil => cases hS
  | plain hPlain =>
      rw [← (List.cons.inj hS).1] at hPlain
      exact absurd rfl hPlain.2.1
  | opening hRest =>
      rcases List.cons.inj hS with ⟨_, rfl⟩
      rcases List.cons.inj hT with ⟨_, rfl⟩
      rcases Option.isSome_iff_exists.mp hSome with
        ⟨after, hAfter⟩
      rcases hRest.afterGroup?_eq_some hAfter with
        ⟨before, hBefore, _⟩
      rw [hBefore]
      rfl
  | closing => exact absurd (List.cons.inj hS).1 (by decide)
  | escape => exact absurd (List.cons.inj hS).1 (by decide)
  | bare => exact absurd (List.cons.inj hS).1 (by decide)
  | expose => exact absurd (List.cons.inj hS).1 (by decide)
  | drop hHidden =>
      rw [← (List.cons.inj hS).1] at hHidden
      exact absurd hHidden (by decide)
  | space => exact absurd (List.cons.inj hT).1 (by decide)
  | @group u v rest rest' hBalanced =>
      rcases List.cons.inj hS with ⟨_, rfl⟩
      exact isSome_afterGroup?_append hBalanced rest

/- Groups that close in a tidied text closed before. -/
theorem HasGroups.of_tidied
    {kind : Kind}
    {s t : Text}
    (hTidied : Tidied s t)
    (hGroups : HasGroups kind t) :
    HasGroups kind s := by
  rcases hGroups with ⟨after, hAfter, hSecond⟩
  rcases hTidied.afterGroup?_eq_some hAfter with
    ⟨before, hBefore, hRest, hOpens⟩
  refine ⟨before, hBefore, fun hKind => ?_⟩
  rcases hSecond hKind with ⟨second, rfl, hSome⟩
  have hOpened : OpensGroup before := hOpens rfl
  cases before with
  | nil => cases hOpened
  | cons c rest =>
      rcases Option.some.inj hOpened with rfl
      exact ⟨rest, rfl,
        isSome_afterGroup?_of_tidied hRest hSome⟩

------------------------------------------------------------
-- No Construct Appears
------------------------------------------------------------

/- A text is empty or starts with a backslash. -/
def StartsCommand
    (s : Text) :
    Prop :=
  ∀ c ∈ s.head?, c = '\\'

/-
  The head of a construct lies within the text it starts in,
  when what follows that text starts with a backslash.
-/
theorem exists_append_of_command
    {v t content : Text}
    {kind : Kind}
    (hNe : v ≠ [])
    (hStart : StartsCommand t)
    (hSplit : v ++ t = kind.command ++ '\x7b' :: content) :
    ∃ within, v = kind.command ++ '\x7b' :: within ∧
      content = within ++ t := by
  have hHead :
      v ++ t = (kind.command ++ ['\x7b']) ++ content := by
    rw [hSplit, List.append_assoc]
    rfl
  rcases List.append_eq_append_iff.mp hHead with
    ⟨beyond, hBeyond, hRest⟩ | ⟨within, hWithin, hRest⟩
  · cases beyond with
    | nil =>
        rw [List.append_nil] at hBeyond
        refine ⟨[], hBeyond.symm, ?_⟩
        rw [List.nil_append]
        exact hRest.symm
    | cons c beyond =>
        -- The head would go on with the backslash of `t`.
        have hEscape : c = '\\' := by
          apply hStart c
          rw [hRest]
          rfl
        have hNone :
            '\\' ∉ (kind.command ++ ['\x7b']).tail := by
          cases kind <;> decide
        cases v with
        | nil => exact absurd rfl hNe
        | cons d v =>
            rw [hBeyond] at hNone
            apply absurd _ hNone
            simp [hEscape]
  · refine ⟨within, ?_, hRest⟩
    rw [hWithin, List.append_assoc]
    rfl

/- No construct appears where text after it is tidied. -/
theorem spelled?_eq_none_of_tidied
    {v tail s t : Text}
    (hNe : v ≠ [])
    (hHidden : IsHidden tail)
    (hShieldedS : Shielded s)
    (hShieldedT : Shielded t)
    (hStart : StartsCommand t)
    (hTidied : Tidied s t)
    (hNone : spelled? (v ++ (tail ++ s)) = none) :
    spelled? (v ++ t) = none := by
  cases hFound : spelled? (v ++ t) with
  | none => rfl
  | some spelled =>
      have hSpells :
          ∃ spelled, Spells (v ++ t) spelled :=
        ⟨spelled, spelled?_eq_some_iff.mp hFound⟩
      rcases exists_spells_iff.mp hSpells with
        ⟨kind, content, hSplit, hGroups⟩
      rcases exists_append_of_command hNe hStart hSplit with
        ⟨within, rfl, rfl⟩
      have hKept :
          Tidied (within ++ (tail ++ s)) (within ++ t) :=
        Tidied.kept_append within hHidden hShieldedS
          hShieldedT hTidied
      have hBefore :
          ∃ spelled,
            Spells
              ((kind.command ++ '\x7b' :: within) ++
                (tail ++ s)) spelled := by
        refine exists_spells_iff.mpr
          ⟨kind, within ++ (tail ++ s), ?_,
            hGroups.of_tidied hKept⟩
        rw [List.append_assoc]
        rfl
      rcases hBefore with ⟨before, hBefore⟩
      rw [spelled?_eq_some_iff.mpr hBefore] at hNone
      cases hNone

/- What is cut and dropped at both ends cannot be seen. -/
theorem exists_append_cut_dropPlaceholders
    (start stop : Bool)
    (s : Text) :
    ∃ lead tail, IsHidden tail ∧
      s = lead ++
        (cut start stop (dropPlaceholders s) ++ tail) := by
  rcases exists_append_dropPlaceholders_append s with
    ⟨lead, tail, _, hTail, hDrop⟩
  rcases exists_append_cut_append start stop
      (dropPlaceholders s) with
    ⟨lead', tail', _, hTail', hCut⟩
  refine ⟨lead ++ lead', tail' ++ tail, ?_, ?_⟩
  · intro c hMem
    rcases List.mem_append.mp hMem with hMem | hMem
    · exact isHidden_of_isAllBlank hTail' c hMem
    · exact hTail c hMem
  · rw [List.append_assoc, ← List.append_assoc _ tail',
      ← List.append_assoc lead', ← hCut]
    exact hDrop

/-
  A text with no construct before tidied text still has none
  once its ends are cut.
-/
theorem spelled?_eq_none_of_cut
    {before s t : Text}
    (start stop : Bool)
    (hShieldedS : Shielded s)
    (hShieldedT : Shielded t)
    (hStart : StartsCommand t)
    (hTidied : Tidied s t)
    (hNone :
      ∀ u v, before = u ++ v → v ≠ [] →
        spelled? (v ++ s) = none)
    {u v : Text}
    (hSplit :
      cut start stop (dropPlaceholders before) = u ++ v)
    (hNe : v ≠ []) :
    spelled? (v ++ t) = none := by
  rcases exists_append_cut_dropPlaceholders start stop
      before with
    ⟨lead, tail, hTail, hParts⟩
  apply spelled?_eq_none_of_tidied hNe hTail hShieldedS
    hShieldedT hStart hTidied
  rw [← List.append_assoc]
  apply hNone (lead ++ u) (v ++ tail)
  · rw [hParts, hSplit]
    simp only [List.append_assoc]
  · intro hNil
    exact hNe (List.append_eq_nil_iff.mp hNil).1

/- A text with no construct has none once its ends are cut. -/
theorem firstSpelled?_cut_of_none
    {s : Text}
    (hNone : firstSpelled? s = none)
    (start stop : Bool) :
    firstSpelled? (cut start stop (dropPlaceholders s)) =
      none := by
  rw [firstSpelled?_eq_none_iff] at hNone ⊢
  intro u v hSplit hNe
  have hCut :=
    spelled?_eq_none_of_cut start stop .nil .nil
      (by simp [StartsCommand]) .nil
      (fun u v hSplit hNe => by
        rw [List.append_nil]
        exact hNone u v hSplit hNe)
      hSplit hNe
  rwa [List.append_nil] at hCut

/- The leftmost construct stays so when text is tidied. -/
theorem firstSpelled?_cut_append
    {before s t : Text}
    {spelled : Spelled}
    (start stop : Bool)
    (hShieldedS : Shielded s)
    (hShieldedT : Shielded t)
    (hTidied : Tidied s t)
    (hNone :
      ∀ u v, before = u ++ v → v ≠ [] →
        spelled? (v ++ s) = none)
    (hSpells : Spells t spelled) :
    firstSpelled?
        (cut start stop (dropPlaceholders before) ++ t) =
      some
        (cut start stop (dropPlaceholders before), spelled) := by
  refine firstSpelled?_eq_some_iff.mpr ⟨t, rfl, hSpells, ?_⟩
  have hStart : StartsCommand t := by
    intro c hHead
    rw [head?_of_spells hSpells] at hHead
    exact (Option.some.inj hHead).symm
  intro u v hSplit hNe
  exact spelled?_eq_none_of_cut start stop hShieldedS
    hShieldedT hStart hTidied hNone hSplit hNe

------------------------------------------------------------
-- Constructs That Have Been Written
------------------------------------------------------------

/- How the second row of a construct is written. -/
def Kind.writeSecond : Kind → Text → Text
  | .fraction, second => escapeLone (trim second)
  | .limit, second => trim second

/- A text that starts a line still does when it is cut. -/
theorem startsLine_cutEnd
    (stop : Bool)
    {s : Text}
    (hLine : StartsLine s) :
    StartsLine (cutEnd stop s) := by
  cases stop with
  | false => exact hLine
  | true =>
      cases s with
      | nil => exact hLine
      | cons c rest =>
          simp only [cutEnd, if_true]
          rw [trimEnd_cons]
          split
          · simp [StartsLine]
          · exact hLine

/- The space before a line goes only if nothing is left. -/
theorem exists_gap_cutEnd
    (stop : Bool)
    {line : Text}
    (hSolid : trimEnd line = line)
    (rest : Text) :
    ∃ gap, (∀ c ∈ gap, isGap c = true) ∧
      cutEnd stop (' ' :: (line ++ rest)) =
        gap ++ (line ++ cutEnd stop rest) := by
  have hLine := cutEnd_append stop hSolid rest
  cases stop with
  | false =>
      exact ⟨[' '], List.forall_mem_singleton.mpr rfl, rfl⟩
  | true =>
      simp only [cutEnd, if_true] at hLine ⊢
      by_cases hNil : trimEnd (line ++ rest) = []
      · refine ⟨[], by simp, ?_⟩
        rw [trimEnd_cons, if_pos ⟨hNil, by decide⟩, ← hLine,
          hNil]
        rfl
      · refine
          ⟨[' '], List.forall_mem_singleton.mpr rfl, ?_⟩
        rw [trimEnd_cons_of_ne_nil ' ' hNil, hLine]
        rfl

/- What starts with a line is not a gap. -/
theorem not_isGap_of_line
    (line : Text)
    {rest : Text}
    (hRest : StartsLine rest) :
    ∀ c ∈ (trim line ++ rest).head?, isGap c = false := by
  intro c hHead
  have hSolid := startsSolid_trim line
  cases hTrim : trim line with
  | nil =>
      rw [hTrim, List.nil_append] at hHead
      exact not_isGap_of_isLineBreak (hRest c hHead)
  | cons d line =>
      rw [hTrim] at hHead hSolid
      rcases Option.some.inj hHead with rfl
      cases hGap : isGap d with
      | false => rfl
      | true =>
          have hBlank := isBlank_of_isGap hGap
          rw [hSolid d rfl] at hBlank
          cases hBlank

/- A construct is spelled again where it is written. -/
theorem spells_cutEnd_write
    (kind : Kind)
    (stop : Bool)
    {first second rest : Text}
    (hLine :
      kind = .limit →
        ∀ c ∈ trim second, isLineBreak c = false)
    (hRest : kind = .limit → StartsLine rest) :
    Spells (cutEnd stop (kind.write first second ++ rest))
      ⟨kind, escapeLone (trim first),
        kind.writeSecond second, cutEnd stop rest⟩ := by
  cases kind with
  | fraction =>
      have hWrite :
          Kind.fraction.write first second ++ rest =
            (Kind.fraction.command ++
                ('\x7b' :: escapeLone (trim first) ++ '\x7d' ::
                  '\x7b' :: escapeLone (trim second))) ++
              '\x7d' :: rest := by
        simp [Kind.write, group]
      have hSpells :=
        @Spells.fraction _ _ (cutEnd stop rest)
          (isBalanced_escapeLone (trim first))
          (isBalanced_escapeLone (trim second))
      rw [hWrite, cutEnd_append_cons_of_solid stop _
        (by decide)]
      simpa [Kind.writeSecond] using hSpells
  | limit =>
      have hWrite :
          Kind.limit.write first second ++ rest =
            (Kind.limit.command ++
                '\x7b' :: escapeLone (trim first)) ++
              '\x7d' :: (' ' :: (trim second ++ rest)) := by
        simp [Kind.write, group]
      rcases exists_gap_cutEnd stop (trimEnd_trim second)
          rest with
        ⟨gap, hGap, hCut⟩
      have hStartsLine := startsLine_cutEnd stop (hRest rfl)
      have hSpells :=
        Spells.limit (isBalanced_escapeLone (trim first))
          hGap (not_isGap_of_line second hStartsLine)
          (hLine rfl) hStartsLine
      rw [hWrite, cutEnd_append_cons_of_solid stop _
        (by decide), hCut]
      simpa [Kind.writeSecond] using hSpells

/- How a construct is spelled once it has been written. -/
def Spelled.rewritten
    (stop : Bool)
    (spelled : Spelled) :
    Spelled :=
  ⟨spelled.kind,
    escapeLone (trim (canonical (trim spelled.first))),
    spelled.kind.writeSecond
      (canonical (trim spelled.second)),
    cutEnd stop (canonical spelled.rest)⟩

/- A limit runs up to the next line. -/
theorem line_of_spells
    {s : Text}
    {spelled : Spelled}
    (hSpells : Spells s spelled)
    (hKind : spelled.kind = .limit) :
    (∀ c ∈ spelled.second, isLineBreak c = false) ∧
      StartsLine spelled.rest := by
  cases hSpells with
  | fraction => cases hKind
  | limit _ _ _ hLine hRest => exact ⟨hLine, hRest⟩

/- Trimming takes characters out only. -/
theorem mem_of_mem_trim
    {c : Char}
    {s : Text}
    (hMem : c ∈ trim s) :
    c ∈ s := by
  rcases exists_append_trim_append s with
    ⟨lead, tail, _, _, hSplit⟩
  rw [hSplit]
  exact List.mem_append_left _ (List.mem_append_right _ hMem)

/- No line is broken when a line is written again. -/
theorem not_isLineBreak_of_mem_trim_canonical
    {line : Text}
    (hLine : ∀ c ∈ line, isLineBreak c = false) :
    ∀ c ∈ trim (canonical (trim line)),
      isLineBreak c = false := by
  intro c hMem
  have hCleaned := (tidied_canonical (trim line)).cleaned
  rcases hCleaned.mem_or_eq_space c (mem_of_mem_trim hMem) with
    hOld | rfl
  · exact hLine c (mem_of_mem_trim hOld)
  · decide

/- A tidied text may be cut at its end. -/
theorem tidied_cutEnd
    (stop : Bool)
    {s t : Text}
    (hTidied : Tidied s t) :
    Tidied s (cutEnd stop t) := by
  cases stop with
  | false => exact hTidied
  | true => exact hTidied.trimEnd

/- Shielded text stays so when its end is cut. -/
theorem shielded_cutEnd
    (stop : Bool)
    {s : Text}
    (hShielded : Shielded s) :
    Shielded (cutEnd stop s) := by
  cases stop with
  | false => exact hShielded
  | true => exact hShielded.trimEnd

section Written

variable {s before : Text} {spelled : Spelled}

/- A text that has been written is cut around constructs. -/
theorem cut_append_write
    (start stop : Bool)
    (kind : Kind)
    (before first second rest : Text) :
    cut start stop
        (before ++ (kind.write first second ++ rest)) =
      cut start false before ++
        cutEnd stop (kind.write first second ++ rest) := by
  apply cut_append_of_startsSolid
  · cases kind <;>
      · intro c hHead
        rcases Option.some.inj hHead with rfl
        decide
  · cases kind <;>
      · intro hNil
        have hBlank := trimEnd_eq_nil_iff.mp hNil '\\'
          (List.mem_cons_self ..)
        exact absurd hBlank (by decide)

/-
  The leftmost construct of a text is the leftmost one again
  once the text has been written and its ends are cut.
-/
theorem firstSpelled?_cut_canonical
    (hFirst : firstSpelled? s = some (before, spelled))
    (start stop : Bool) :
    firstSpelled? (cut start stop (canonical s)) =
      some
        (cut start false (dropPlaceholders before),
          spelled.rewritten stop) := by
  rcases firstSpelled?_eq_some_iff.mp hFirst with
    ⟨t, rfl, hSpells, hNone⟩
  rw [canonical_of_some hFirst, cut_append_write]
  have hTidied :=
    tidied_write_append hSpells
      (.of_trim (tidied_canonical (trim spelled.first)))
      (.of_trim (tidied_canonical (trim spelled.second)))
      (tidied_canonical spelled.rest) startsLine_canonical
  refine firstSpelled?_cut_append start false
    (shielded_of_spells hSpells)
    (shielded_cutEnd stop (shielded_write ..))
    (tidied_cutEnd stop hTidied) hNone
    (spells_cutEnd_write spelled.kind stop ?_ ?_)
  · intro hKind
    exact not_isLineBreak_of_mem_trim_canonical
      (line_of_spells hSpells hKind).1
  · intro hKind
    exact startsLine_canonical (line_of_spells hSpells hKind).2

/- A group is read as the row that it was written for. -/
theorem trim_escapeLone_canonical
    {u : Text}
    (hBalanced : isBalanced u = true) :
    trim (escapeLone (trim (canonical (trim u)))) =
      trim (canonical (trim u)) := by
  have hTidied : Tidied u (canonical (trim u)) :=
    .of_trim (tidied_canonical (trim u))
  rw [escapeLone_trim_of_tidied hBalanced hTidied,
    trim_finished_trim]

theorem trim_rewritten_first
    {t : Text}
    (hSpells : Spells t spelled)
    (stop : Bool) :
    trim (spelled.rewritten stop).first =
      trim (canonical (trim spelled.first)) :=
  trim_escapeLone_canonical (isBalanced_of_spells hSpells).1

theorem trim_rewritten_second
    {t : Text}
    (hSpells : Spells t spelled)
    (stop : Bool) :
    trim (spelled.rewritten stop).second =
      trim (canonical (trim spelled.second)) := by
  cases hSpells with
  | fraction _ hSecond => exact trim_escapeLone_canonical hSecond
  | limit => exact trim_trim _

/- What is read from a text with no construct once written. -/
theorem ofText_cut_canonical_of_none
    (hNone : firstSpelled? s = none)
    (start stop : Bool) :
    Row.ofText (cut start stop (canonical s)) =
      Row.ofPlain (cut start stop (dropPlaceholders s)) := by
  rw [canonical_of_none hNone]
  exact Row.ofText_of_none
    (firstSpelled?_cut_of_none hNone start stop)

/- What is read from a text that has been written. -/
theorem ofText_cut_canonical_of_some
    (hFirst : firstSpelled? s = some (before, spelled))
    (start stop : Bool) :
    Row.ofText (cut start stop (canonical s)) =
      Row.ofPlain (cut start false (dropPlaceholders before)) ++
        .construct spelled.kind ()
          (Row.ofText (trim (canonical (trim spelled.first))))
          (Row.ofText
            (trim (canonical (trim spelled.second)))) ::
        Row.ofText (cutEnd stop (canonical spelled.rest)) := by
  rcases firstSpelled?_eq_some_iff.mp hFirst with
    ⟨t, _, hSpells, _⟩
  rw [Row.ofText_of_some
    (firstSpelled?_cut_canonical hFirst start stop),
    trim_rewritten_first hSpells,
    trim_rewritten_second hSpells]
  rfl

end Written

end FormulaEditor
