import FormulaEditor.Formula.Reading
import FormulaEditor.Proofs.Text.Grouping

/-
  This file proves which texts spell a construct, where the
  leftmost construct of a text is found, and what a text is
  read as by it.

  Key definitions include:
    * `Text.StartsLine`
    * `Spells`

  Key theorems include:
    * `spelled?_eq_some_iff`
    * `spells_limit_of_group`
    * `firstSpelled?_eq_some_iff`
    * `firstSpelled?_eq_none_iff`
    * `Row.reading_induction`
-/

namespace FormulaEditor

------------------------------------------------------------
-- Parts of a Construct
------------------------------------------------------------

/- What follows a leading text. -/
theorem after?_eq_some_iff
    {lead s rest : Text} :
    after? lead s = some rest ↔ s = lead ++ rest := by
  fun_induction after? lead s with
  | case1 s => simp [eq_comm]
  | case2 c lead => simp
  | case3 lead c s ih => simp [ih]
  | case4 c lead d s hNe =>
      simp [Ne.symm hNe]

/- A group is opened where its whole text stands. -/
theorem openGroup?_eq_some_iff
    {s content rest : Text} :
    openGroup? s = some (content, rest) ↔
      s = '\x7b' :: content ++ '\x7d' :: rest ∧
        Text.isBalanced content = true := by
  unfold openGroup?
  split
  · simp [Text.readGroup_eq_some_iff]
  · next hNoBrace =>
      constructor
      · intro hNone
        simp at hNone
      · rintro ⟨rfl, _⟩
        exact absurd rfl (hNoBrace _)

/- Gap characters are blank. -/
theorem isBlank_of_isGap
    {c : Char}
    (hGap : isGap c = true) :
    isBlank c = true := by
  simp only [isGap, Bool.or_eq_true, beq_iff_eq] at hGap
  rcases hGap with rfl | rfl <;> decide

/- Line breaks are blank. -/
theorem isBlank_of_isLineBreak
    {c : Char}
    (hBreak : isLineBreak c = true) :
    isBlank c = true := by
  simp only [isLineBreak, Bool.or_eq_true, beq_iff_eq]
    at hBreak
  rcases hBreak with rfl | rfl <;> decide

/- Line breaks are no gap characters. -/
theorem not_isGap_of_isLineBreak
    {c : Char}
    (hBreak : isLineBreak c = true) :
    isGap c = false := by
  simp only [isLineBreak, Bool.or_eq_true, beq_iff_eq]
    at hBreak
  rcases hBreak with rfl | rfl <;> decide

/- A text is empty or starts with a line break. -/
def Text.StartsLine
    (s : Text) :
    Prop :=
  ∀ c ∈ s.head?, isLineBreak c = true

------------------------------------------------------------
-- One Construct
------------------------------------------------------------

/-
  The texts that spell a construct: a fraction as two groups
  and a limit as one group, a gap and the rest of the line.
-/
inductive Spells : Text → Spelled → Prop where
  | fraction {first second rest : Text} :
      Text.isBalanced first = true →
        Text.isBalanced second = true →
        Spells
          (Kind.fraction.command ++
            ('\x7b' :: first ++ '\x7d' ::
              ('\x7b' :: second ++ '\x7d' :: rest)))
          ⟨.fraction, first, second, rest⟩
  | limit {subscript gap line rest : Text} :
      Text.isBalanced subscript = true →
        (∀ c ∈ gap, isGap c = true) →
        (∀ c ∈ (line ++ rest).head?, isGap c = false) →
        (∀ c ∈ line, isLineBreak c = false) →
        rest.StartsLine →
        Spells
          (Kind.limit.command ++
            ('\x7b' :: subscript ++ '\x7d' ::
              (gap ++ (line ++ rest))))
          ⟨.limit, subscript, line, rest⟩

/- What a search stops at is not what it passes over. -/
theorem head?_dropWhile_false
    (p : Char → Bool)
    (s : Text) :
    ∀ c ∈ (s.dropWhile p).head?, p c = false := by
  intro c hHead
  have hStop := List.head?_dropWhile_not p s
  rw [hHead] at hStop
  simpa using hStop

/- A gap is dropped up to where it ends. -/
theorem dropWhile_isGap_append
    {gap s : Text}
    (hGap : ∀ c ∈ gap, isGap c = true)
    (hStart : ∀ c ∈ s.head?, isGap c = false) :
    (gap ++ s).dropWhile isGap = s := by
  rw [List.dropWhile_append_of_pos hGap]
  cases s with
  | nil => rfl
  | cons c rest => simp [hStart c rfl]

/- A line is taken up to the line break after it. -/
theorem span_isLineBreak_append
    {line rest : Text}
    (hLine : ∀ c ∈ line, isLineBreak c = false)
    (hRest : rest.StartsLine) :
    (line ++ rest).takeWhile (!isLineBreak ·) = line ∧
      (line ++ rest).dropWhile (!isLineBreak ·) = rest := by
  have hAll : ∀ c ∈ line, (!isLineBreak c) = true := by
    intro c hMem
    simp [hLine c hMem]
  rw [List.takeWhile_append_of_pos hAll,
    List.dropWhile_append_of_pos hAll]
  cases rest with
  | nil => simp
  | cons c rest => simp [hRest c rfl]

/- A fraction is read where two groups stand. -/
theorem spelledFraction?_eq_some_iff
    {s : Text}
    {spelled : Spelled} :
    spelledFraction? s = some spelled ↔
      spelled.kind = .fraction ∧ Spells s spelled := by
  simp only [spelledFraction?, Option.bind_eq_bind,
    Option.bind_eq_some_iff, Option.pure_def,
    Option.some.injEq]
  constructor
  · rintro ⟨_, hCommand, ⟨first, _⟩, hOpenFirst,
      ⟨second, rest⟩, hOpenSecond, rfl⟩
    rcases after?_eq_some_iff.mp hCommand with rfl
    rcases openGroup?_eq_some_iff.mp hOpenFirst with
      ⟨rfl, hFirst⟩
    rcases openGroup?_eq_some_iff.mp hOpenSecond with
      ⟨hSplit, hSecond⟩
    simp only at hSplit
    subst hSplit
    exact ⟨rfl, .fraction hFirst hSecond⟩
  · rintro ⟨hKind, hSpells⟩
    cases hSpells with
    | @fraction first second rest hFirst hSecond =>
        exact ⟨_, after?_eq_some_iff.mpr rfl, ⟨first, _⟩,
          openGroup?_eq_some_iff.mpr ⟨rfl, hFirst⟩,
          ⟨second, rest⟩,
          openGroup?_eq_some_iff.mpr ⟨rfl, hSecond⟩, rfl⟩
    | limit => cases hKind

/- A limit is read where a group and a line stand. -/
theorem spelledLimit?_eq_some_iff
    {s : Text}
    {spelled : Spelled} :
    spelledLimit? s = some spelled ↔
      spelled.kind = .limit ∧ Spells s spelled := by
  simp only [spelledLimit?, Option.bind_eq_bind,
    Option.bind_eq_some_iff, Option.pure_def,
    Option.some.injEq]
  constructor
  · rintro ⟨_, hCommand, ⟨subscript, after⟩, hOpen, rfl⟩
    rcases after?_eq_some_iff.mp hCommand with rfl
    rcases openGroup?_eq_some_iff.mp hOpen with
      ⟨rfl, hSubscript⟩
    refine ⟨rfl, ?_⟩
    have hLine :=
      List.takeWhile_append_dropWhile
        (p := (!isLineBreak ·))
        (l := after.dropWhile isGap)
    have hSplit :=
      List.takeWhile_append_dropWhile
        (p := isGap) (l := after)
    have hSpells :=
      @Spells.limit subscript
        (after.takeWhile isGap)
        ((after.dropWhile isGap).takeWhile (!isLineBreak ·))
        ((after.dropWhile isGap).dropWhile (!isLineBreak ·))
        hSubscript
        (fun c hMem => List.mem_takeWhile_imp hMem)
        (by
          rw [hLine]
          exact head?_dropWhile_false isGap after)
        (fun c hMem => by
          simpa using List.mem_takeWhile_imp hMem)
        (fun c hHead => by
          simpa using
            head?_dropWhile_false (!isLineBreak ·) _ c hHead)
    rw [hLine, hSplit] at hSpells
    exact hSpells
  · rintro ⟨hKind, hSpells⟩
    cases hSpells with
    | fraction => cases hKind
    | @limit subscript gap line rest
        hSubscript hGap hStart hLine hRest =>
        refine ⟨_, after?_eq_some_iff.mpr rfl,
          ⟨subscript, _⟩,
          openGroup?_eq_some_iff.mpr ⟨rfl, hSubscript⟩, ?_⟩
        have hSpan := span_isLineBreak_append hLine hRest
        simp only [dropWhile_isGap_append hGap hStart,
          hSpan]

/- A construct is read exactly where one is spelled. -/
theorem spelled?_eq_some_iff
    {s : Text}
    {spelled : Spelled} :
    spelled? s = some spelled ↔ Spells s spelled := by
  simp only [spelled?, Option.orElse_eq_orElse,
    Option.orElse_eq_or, Option.or_eq_some_iff,
    spelledFraction?_eq_some_iff,
    spelledLimit?_eq_some_iff]
  constructor
  · rintro (⟨_, hSpells⟩ | ⟨_, _, hSpells⟩) <;>
      exact hSpells
  · intro hSpells
    cases hSpells with
    | fraction hFirst hSecond =>
        exact .inl ⟨rfl, .fraction hFirst hSecond⟩
    | limit hSubscript hGap hStart hLine hRest =>
        exact .inr
          ⟨rfl, rfl,
            .limit hSubscript hGap hStart hLine hRest⟩

/- A group can always be followed by the rest of a limit. -/
theorem spells_limit_of_group
    {subscript : Text}
    (hBalanced : Text.isBalanced subscript = true)
    (after : Text) :
    Spells
      (Kind.limit.command ++
        ('\x7b' :: subscript ++ '\x7d' :: after))
      ⟨.limit, subscript,
        (after.dropWhile isGap).takeWhile (!isLineBreak ·),
        (after.dropWhile isGap).dropWhile
          (!isLineBreak ·)⟩ := by
  refine (spelledLimit?_eq_some_iff.mp ?_).2
  have hOpen :
      openGroup? ('\x7b' :: subscript ++ '\x7d' :: after) =
        some (subscript, after) :=
    openGroup?_eq_some_iff.mpr ⟨rfl, hBalanced⟩
  rw [spelledLimit?, after?_eq_some_iff.mpr rfl]
  simp only [Option.bind_eq_bind, Option.bind_some, hOpen]
  rfl

------------------------------------------------------------
-- The Leftmost Construct
------------------------------------------------------------

/-
  The leftmost construct is spelled after a text with no
  place where a construct is spelled.
-/
theorem firstSpelled?_eq_some_iff
    {s before : Text}
    {spelled : Spelled} :
    firstSpelled? s = some (before, spelled) ↔
      ∃ t, s = before ++ t ∧ Spells t spelled ∧
        ∀ u v, before = u ++ v → v ≠ [] →
          spelled? (v ++ t) = none := by
  induction s generalizing before with
  | nil =>
      simp only [firstSpelled?, reduceCtorEq, false_iff]
      rintro ⟨t, hSplit, hSpells, _⟩
      rcases List.append_eq_nil_iff.mp hSplit.symm with
        ⟨rfl, rfl⟩
      cases hSpells
  | cons c s ih =>
      rw [firstSpelled?]
      split
      · next found hFound =>
          simp only [Option.some.injEq, Prod.mk.injEq]
          constructor
          · rintro ⟨rfl, rfl⟩
            refine ⟨c :: s, rfl,
              spelled?_eq_some_iff.mp hFound, ?_⟩
            intro u v hSplit hNe
            exact absurd
              (List.append_eq_nil_iff.mp hSplit.symm).2 hNe
          · rintro ⟨t, hSplit, hSpells, hNone⟩
            cases before with
            | nil =>
                rw [List.nil_append] at hSplit
                rw [hSplit,
                  spelled?_eq_some_iff.mpr hSpells] at hFound
                exact ⟨rfl, (Option.some.inj hFound).symm⟩
            | cons d before =>
                have hHere := hNone [] _ rfl (by simp)
                rw [← hSplit, hFound] at hHere
                cases hHere
      · next hHere =>
          rw [Option.map_eq_some_iff]
          constructor
          · rintro ⟨⟨inner, found⟩, hInner, hEq⟩
            rcases Prod.mk.inj hEq with ⟨rfl, rfl⟩
            rcases ih.mp hInner with ⟨t, rfl, hSpells, hNone⟩
            refine ⟨t, rfl, hSpells, ?_⟩
            intro u v hSplit hNe
            cases u with
            | nil =>
                rw [List.nil_append] at hSplit
                rw [← hSplit]
                exact hHere
            | cons d u =>
                exact hNone u v (List.cons.inj hSplit).2 hNe
          · rintro ⟨t, hSplit, hSpells, hNone⟩
            cases before with
            | nil =>
                rw [List.nil_append] at hSplit
                rw [hSplit,
                  spelled?_eq_some_iff.mpr hSpells] at hHere
                cases hHere
            | cons d before =>
                rcases List.cons.inj hSplit with ⟨rfl, rfl⟩
                refine ⟨(before, spelled), ih.mpr ?_, rfl⟩
                refine ⟨t, rfl, hSpells, ?_⟩
                intro u v hParts hNe
                exact hNone (c :: u) v (by rw [hParts]; rfl) hNe

/- A text with no construct spells none anywhere. -/
theorem firstSpelled?_eq_none_iff
    {s : Text} :
    firstSpelled? s = none ↔
      ∀ u v, s = u ++ v → v ≠ [] → spelled? v = none := by
  constructor
  · intro hNone u v hSplit hNe
    induction u generalizing s with
    | nil =>
        rw [List.nil_append] at hSplit
        subst hSplit
        cases s with
        | nil => exact absurd rfl hNe
        | cons c s =>
            rw [firstSpelled?] at hNone
            split at hNone
            · cases hNone
            · next hHere => exact hHere
    | cons c u ih =>
        subst hSplit
        rw [List.cons_append, firstSpelled?] at hNone
        split at hNone
        · cases hNone
        · exact ih (Option.map_eq_none_iff.mp hNone) rfl
  · intro hNone
    cases hFirst : firstSpelled? s with
    | none => rfl
    | some found =>
        rcases found with ⟨before, spelled⟩
        rcases firstSpelled?_eq_some_iff.mp hFirst with
          ⟨t, hSplit, hSpells, _⟩
        have hNe : t ≠ [] := by
          rintro rfl
          cases hSpells
        have hHere := hNone before t hSplit hNe
        rw [spelled?_eq_some_iff.mpr hSpells] at hHere
        cases hHere

------------------------------------------------------------
-- Reading a Row
------------------------------------------------------------

namespace Row

/- A text with no construct is read as plain text. -/
theorem ofText_of_none
    {s : Text}
    (hNone : firstSpelled? s = none) :
    ofText s = ofPlain s := by
  rw [ofText]
  split
  · rfl
  · next hSome => rw [hNone] at hSome; cases hSome

/- An empty text is read as an empty row. -/
theorem ofText_nil :
    ofText [] = [] := by
  rw [ofText_of_none rfl]
  rfl

/- A text is read around its leftmost construct. -/
theorem ofText_of_some
    {s before : Text}
    {spelled : Spelled}
    (hFirst : firstSpelled? s = some (before, spelled)) :
    ofText s =
      ofPlain before ++
        .construct spelled.kind ()
          (ofText (Text.trim spelled.first))
          (ofText (Text.trim spelled.second)) ::
        ofText spelled.rest := by
  rw [ofText]
  split
  · next hNone => rw [hNone] at hFirst; cases hFirst
  · next hSome =>
      rw [hFirst] at hSome
      rcases Prod.mk.inj (Option.some.inj hSome) with
        ⟨rfl, rfl⟩
      rfl

/- A plain text holds no rows. -/
theorem region?_of_mem_ofPlain
    {s : Text}
    {node : Node Unit}
    (hMem : node ∈ ofPlain s)
    (slot : Slot) :
    node.region? slot = none := by
  unfold ofPlain at hMem
  split at hMem
  · cases hMem
  · rcases List.mem_singleton.mp hMem with rfl
    rfl

/-
  Induction along the reading of a row, which reads both
  rows of the leftmost construct and whatever follows it.
-/
@[elab_as_elim]
theorem reading_induction
    {motive : Text → Prop}
    (plain : ∀ s, firstSpelled? s = none → motive s)
    (construct :
      ∀ s before spelled,
        firstSpelled? s = some (before, spelled) →
        motive (Text.trim spelled.first) →
        motive (Text.trim spelled.second) →
        motive spelled.rest → motive s)
    (s : Text) :
    motive s := by
  cases hFirst : firstSpelled? s with
  | none => exact plain s hFirst
  | some found =>
      rcases found with ⟨before, spelled⟩
      have hLength := length_firstSpelled? hFirst
      have hTrimFirst := Text.length_trim_le spelled.first
      have hTrimSecond := Text.length_trim_le spelled.second
      exact construct s before spelled hFirst
        (reading_induction plain construct _)
        (reading_induction plain construct _)
        (reading_induction plain construct _)
termination_by s.length
decreasing_by
  all_goals omega

end Row

end FormulaEditor
