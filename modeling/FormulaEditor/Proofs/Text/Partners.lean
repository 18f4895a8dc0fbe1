import FormulaEditor.Formula.Writing
import FormulaEditor.Proofs.Formula.Address
import FormulaEditor.Proofs.Text.Grouping
import Mathlib.Data.List.DropRight

/-
  This file defines which braces of a text are partners, and
  proves that the scans for braces agree on it: a text is
  balanced exactly if it is read back from a group, exactly
  if it is written into one as it is, and what is written
  into a group has a backslash before just those braces that
  have no partner.

  Key definitions include:
    * `Text.EndsInEscape`
    * `Text.ArePartners`
    * `Text.IsLone`
    * `Text.loneEscaped`
    * `Text.waitingFrom`

  Key theorems include:
    * `Text.endsBare_iff`
    * `Text.arePartners_iff`
    * `Text.waitingFrom_pos_iff`
    * `Text.escapeLone_eq`
    * `Text.scans_agree`
-/

namespace FormulaEditor

namespace Text

------------------------------------------------------------
-- Partners
------------------------------------------------------------

/-
  A text ends in a backslash that is not escaped itself: the
  number of backslashes at its end is odd.
-/
def EndsInEscape
    (s : Text) :
    Prop :=
  (s.rtakeWhile (· == '\\')).length % 2 = 1

instance
    (s : Text) :
    Decidable (EndsInEscape s) :=
  inferInstanceAs (Decidable (_ = _))

/-
  An opening and a closing brace are partners when neither
  is escaped and the text between them is balanced.
-/
def ArePartners
    (s : Text)
    (i j : Nat) :
    Prop :=
  i < j ∧
    s[i]? = some '\x7b' ∧ ¬ EndsInEscape (s.take i) ∧
    s[j]? = some '\x7d' ∧ ¬ EndsInEscape (s.take j) ∧
    isBalanced ((s.take j).drop (i + 1)) = true

instance
    (s : Text)
    (i j : Nat) :
    Decidable (ArePartners s i j) :=
  inferInstanceAs (Decidable (_ ∧ _))

/- A brace is lone if it is not escaped and has no partner. -/
def IsLone
    (s : Text)
    (i : Nat) :
    Prop :=
  (s[i]? = some '\x7b' ∨ s[i]? = some '\x7d') ∧
    ¬ EndsInEscape (s.take i) ∧
    ∀ j < s.length, ¬ ArePartners s i j ∧ ¬ ArePartners s j i

instance
    (s : Text)
    (i : Nat) :
    Decidable (IsLone s i) :=
  inferInstanceAs (Decidable (_ ∧ _))

/- A text with a backslash before each of its lone braces. -/
def loneEscaped
    (s : Text) :
    Text :=
  s.zipIdx.flatMap fun entry =>
    if IsLone s entry.2 then
      ['\\', entry.1]
    else
      [entry.1]

------------------------------------------------------------
-- Escapes
------------------------------------------------------------

theorem endsBare_concat
    (s : Text)
    (c : Char) :
    endsBare (s ++ [c]) = (c == '\\' && !endsBare s) := by
  induction s using escape_induction with
  | nil => by_cases hEscape : c = '\\' <;> simp [endsBare, hEscape]
  | bare => simp [endsBare]
  | escape d s ih => exact ih
  | cons d s hNe ih =>
      rw [List.cons_append, endsBare_cons_of_ne hNe, ih,
        endsBare_cons_of_ne hNe]

/- An escape is bare after an odd number of backslashes. -/
theorem endsBare_iff
    {s : Text} :
    endsBare s = true ↔ EndsInEscape s := by
  induction s using List.reverseRecOn with
  | nil => simp [endsBare, EndsInEscape]
  | append_singleton s c ih =>
      rw [endsBare_concat, EndsInEscape, List.rtakeWhile_concat]
      by_cases hEscape : c = '\\'
      · simp only [hEscape, beq_self_eq_true, if_true,
          Bool.true_and, List.length_append,
          List.length_singleton]
        rw [EndsInEscape] at ih
        cases hBare : endsBare s <;> simp [hBare] at ih ⊢ <;> omega
      · simp [hEscape]

/- What follows a text that ends no escape stands alone. -/
theorem endsBare_append
    {s : Text}
    (hBare : endsBare s = false)
    (t : Text) :
    endsBare (s ++ t) = endsBare t := by
  induction s using escape_induction with
  | nil => rfl
  | bare => simp [endsBare] at hBare
  | escape c s ih => exact ih hBare
  | cons c s hNe ih =>
      rw [endsBare_cons_of_ne hNe] at hBare
      rw [List.cons_append, endsBare_cons_of_ne hNe, ih hBare]

/- A balanced text leaves no escape without its character. -/
theorem endsBare_of_balancedFrom
    {depth : Nat}
    {s : Text}
    (hBalanced : balancedFrom depth s = true) :
    endsBare s = false := by
  induction depth, s using scan_induction with
  | nil depth => rfl
  | bare depth => simp [balancedFrom] at hBalanced
  | escape depth c s ih => exact ih hBalanced
  | opening depth s ih => exact ih hBalanced
  | stray s ih => simp [balancedFrom] at hBalanced
  | closing depth s ih => exact ih hBalanced
  | plain depth c s hPlain ih =>
      rw [balancedFrom_cons_of_isPlain hPlain] at hBalanced
      rw [endsBare_cons_of_ne hPlain.1]
      exact ih hBalanced

------------------------------------------------------------
-- Waiting Braces
------------------------------------------------------------

/-
  How many opening braces wait for their partners after a
  text, where `depth` of them wait before it.
-/
def waitingFrom : Nat → Text → Nat
  | depth, [] => depth
  | depth, ['\\'] => depth
  | depth, '\\' :: _ :: rest => waitingFrom depth rest
  | depth, '\x7b' :: rest => waitingFrom (depth + 1) rest
  | 0, '\x7d' :: rest => waitingFrom 0 rest
  | depth + 1, '\x7d' :: rest => waitingFrom depth rest
  | depth, _ :: rest => waitingFrom depth rest

theorem waitingFrom_cons_of_isPlain
    {c : Char}
    (hPlain : IsPlain c)
    (depth : Nat)
    (s : Text) :
    waitingFrom depth (c :: s) = waitingFrom depth s := by
  rcases hPlain with ⟨hEscape, hOpen, hClose⟩
  rw [waitingFrom] <;> simp_all

theorem isScan_waitingFrom :
    IsScan waitingFrom where
  escape _ _ _ := rfl
  opening _ _ := rfl
  closing _ _ := rfl
  plain _ _ _ hPlain :=
    waitingFrom_cons_of_isPlain hPlain _ _

/- Texts one after the other are scanned in turn. -/
theorem waitingFrom_append
    {s : Text}
    (hBare : endsBare s = false)
    (depth : Nat)
    (t : Text) :
    waitingFrom depth (s ++ t) =
      waitingFrom (waitingFrom depth s) t := by
  induction depth, s using scan_induction with
  | nil depth => rfl
  | bare depth => simp [endsBare] at hBare
  | escape depth c s ih => exact ih hBare
  | opening depth s ih => exact ih hBare
  | stray s ih => exact ih hBare
  | closing depth s ih => exact ih hBare
  | plain depth c s hPlain ih =>
      rw [endsBare_cons_of_ne hPlain.1] at hBare
      rw [List.cons_append, waitingFrom_cons_of_isPlain hPlain,
        waitingFrom_cons_of_isPlain hPlain, ih hBare]

/-
  If a brace waits after a text, it stands in the text with
  a balanced text after it, or it waited before a text that
  only closes some of those that wait further in.
-/
theorem exists_of_waitingFrom_pos
    {depth : Nat}
    {s : Text}
    (hBare : endsBare s = false)
    (hWaits : 0 < waitingFrom depth s) :
    (∃ closed < depth, balancedFrom closed s = true) ∨
      ∃ lead between, s = lead ++ '\x7b' :: between ∧
        endsBare lead = false ∧ isBalanced between = true := by
  induction depth, s using scan_induction with
  | nil depth => exact .inl ⟨0, hWaits, rfl⟩
  | bare depth => simp [endsBare] at hBare
  | escape depth c s ih =>
      rcases ih hBare hWaits with
        hClosed | ⟨lead, between, rfl, hLead, hBetween⟩
      · exact .inl hClosed
      · exact .inr
          ⟨'\\' :: c :: lead, between, rfl, hLead, hBetween⟩
  | opening depth s ih =>
      rcases ih hBare hWaits with
        ⟨closed, hLess, hClosed⟩ |
          ⟨lead, between, rfl, hLead, hBetween⟩
      · cases closed with
        | zero => exact .inr ⟨[], s, rfl, rfl, hClosed⟩
        | succ closed =>
            exact .inl
              ⟨closed, Nat.lt_of_succ_lt_succ hLess, hClosed⟩
      · refine .inr
          ⟨'\x7b' :: lead, between, rfl, ?_, hBetween⟩
        rwa [endsBare_cons_of_ne (by decide)]
  | stray s ih =>
      rcases ih hBare hWaits with
        ⟨closed, hLess, _⟩ |
          ⟨lead, between, rfl, hLead, hBetween⟩
      · exact absurd hLess (Nat.not_lt_zero closed)
      · refine .inr
          ⟨'\x7d' :: lead, between, rfl, ?_, hBetween⟩
        rwa [endsBare_cons_of_ne (by decide)]
  | closing depth s ih =>
      rcases ih hBare hWaits with
        ⟨closed, hLess, hClosed⟩ |
          ⟨lead, between, rfl, hLead, hBetween⟩
      · exact .inl
          ⟨closed + 1, Nat.succ_lt_succ hLess, hClosed⟩
      · refine .inr
          ⟨'\x7d' :: lead, between, rfl, ?_, hBetween⟩
        rwa [endsBare_cons_of_ne (by decide)]
  | plain depth c s hPlain ih =>
      rw [endsBare_cons_of_ne hPlain.1] at hBare
      rw [waitingFrom_cons_of_isPlain hPlain] at hWaits
      rcases ih hBare hWaits with
        ⟨closed, hLess, hClosed⟩ |
          ⟨lead, between, rfl, hLead, hBetween⟩
      · refine .inl ⟨closed, hLess, ?_⟩
        rwa [balancedFrom_cons_of_isPlain hPlain]
      · refine .inr ⟨c :: lead, between, rfl, ?_, hBetween⟩
        rwa [endsBare_cons_of_ne hPlain.1]

/-
  A brace waits after a text exactly if one stands in it
  with nothing but a balanced text after it.
-/
theorem waitingFrom_pos_iff
    {s : Text}
    (hBare : endsBare s = false) :
    0 < waitingFrom 0 s ↔
      ∃ lead between, s = lead ++ '\x7b' :: between ∧
        endsBare lead = false ∧ isBalanced between = true := by
  constructor
  · intro hWaits
    rcases exists_of_waitingFrom_pos hBare hWaits with
      ⟨closed, hLess, _⟩ | hFound
    · exact absurd hLess (Nat.not_lt_zero closed)
    · exact hFound
  · rintro ⟨lead, between, rfl, hLead, hBetween⟩
    have hPassed :=
      isScan_waitingFrom.append_of_balancedFrom hBetween
        (waitingFrom 0 lead + 1) []
    rw [List.append_nil] at hPassed
    rw [waitingFrom_append hLead, isScan_waitingFrom.opening]
    exact hPassed ▸ Nat.succ_pos _

/-
  A text that leaves no escape without its character leaves
  a number of opening braces waiting.
-/
structure Leaves
    (s : Text)
    (waiting : Nat) :
    Prop where
  bare : endsBare s = false
  waits : waitingFrom 0 s = waiting

/- What follows is scanned with those braces waiting. -/
theorem Leaves.append
    {s t : Text}
    {waiting : Nat}
    (hLeaves : Leaves s waiting)
    (hBare : endsBare t = false) :
    Leaves (s ++ t) (waitingFrom waiting t) where
  bare := by rw [endsBare_append hLeaves.bare, hBare]
  waits := by rw [waitingFrom_append hLeaves.bare, hLeaves.waits]

/-
  The brace that is the `depth`-th of those that wait gets
  its partner from a text that closes a group around it.
-/
theorem lt_snd_escapeLoneFrom_iff
    {depth waiting : Nat}
    {s : Text} :
    depth < (escapeLoneFrom waiting s).2 ↔
      depth < waiting ∧ (readGroupFrom depth s).isSome := by
  induction waiting, s using scan_induction
    generalizing depth with
  | nil waiting => simp [escapeLoneFrom, readGroupFrom]
  | bare waiting => simp [escapeLoneFrom, readGroupFrom]
  | escape waiting c s ih =>
      simpa [escapeLoneFrom, readGroupFrom] using ih
  | opening waiting s ih =>
      have hInner := @ih (depth + 1)
      rw [Nat.add_lt_add_iff_right] at hInner
      rw [escapeLoneFrom_open, readGroupFrom,
        Option.isSome_map, ← hInner]
      split
      · next hWritten => simp [hWritten]
      · next hWritten => simp [hWritten]
  | stray s ih =>
      simpa [escapeLoneFrom] using ih
  | closing waiting s ih =>
      rw [escapeLoneFrom_close]
      cases depth with
      | zero => simp [readGroupFrom]
      | succ depth => simp [readGroupFrom, ih]
  | plain waiting c s hPlain ih =>
      rw [escapeLoneFrom_cons_of_isPlain hPlain, ih,
        readGroupFrom_cons_of_isPlain hPlain,
        Option.isSome_map]

/- An opening brace gets no partner if no group is read. -/
theorem snd_escapeLoneFrom_eq_zero_iff
    {waiting : Nat}
    {s : Text} :
    (escapeLoneFrom (waiting + 1) s).2 = 0 ↔
      readGroup s = none := by
  have hFirst := @lt_snd_escapeLoneFrom_iff 0 (waiting + 1) s
  rw [← Option.not_isSome_iff_eq_none, readGroup]
  simp only [Nat.zero_lt_succ, true_and] at hFirst
  rw [← hFirst, Nat.not_lt, Nat.le_zero]

------------------------------------------------------------
-- Lone Braces
------------------------------------------------------------

/- Partners are the ends of a group with balanced text. -/
theorem arePartners_iff
    {s : Text}
    {i j : Nat} :
    ArePartners s i j ↔
      ∃ lead between rest,
        s = lead ++ '\x7b' :: between ++ '\x7d' :: rest ∧
          lead.length = i ∧
          (lead ++ '\x7b' :: between).length = j ∧
          endsBare lead = false ∧
          isBalanced between = true := by
  simp only [ArePartners, ← endsBare_iff, Bool.not_eq_true]
  constructor
  · rintro ⟨hLess, hOpen, hFirst, hClose, _, hBetween⟩
    rcases exists_append_of_getElem? hClose with
      ⟨left, rest, rfl, rfl, _⟩
    rw [List.getElem?_append_left hLess] at hOpen
    rcases exists_append_of_getElem? hOpen with
      ⟨lead, between, rfl, rfl, _⟩
    refine ⟨lead, between, rest, rfl, rfl, rfl, ?_, ?_⟩
    · simpa using hFirst
    · rw [List.take_left] at hBetween
      simpa using hBetween
  · rintro ⟨lead, between, rest, rfl, rfl, rfl, hLead, hBetween⟩
    rw [List.take_left, endsBare_append hLead,
      endsBare_cons_of_ne (by decide),
      endsBare_of_balancedFrom hBetween]
    refine ⟨by simp, by simp, ?_, by simp, rfl, ?_⟩
    · simpa using hLead
    · simpa using hBetween

/- Partners stand inside of their text, in their order. -/
theorem ArePartners.lt
    {s : Text}
    {i j : Nat}
    (hPartners : ArePartners s i j) :
    i < j ∧ j < s.length := by
  rcases hPartners with ⟨hLess, _, _, hClose, _⟩
  rcases List.getElem?_eq_some_iff.mp hClose with ⟨hInside, _⟩
  exact ⟨hLess, hInside⟩

section Lone

variable {before after : Text}

/- Only braces are lone. -/
theorem not_isLone_of_ne
    {c : Char}
    (hOpen : c ≠ '\x7b')
    (hClose : c ≠ '\x7d')
    (before after : Text) :
    ¬ IsLone (before ++ c :: after) before.length := by
  rintro ⟨hBrace, _⟩
  simp [hOpen, hClose] at hBrace

variable (hBare : endsBare before = false)

include hBare

/- No character that is escaped is lone. -/
theorem not_isLone_of_escaped
    (c : Char) :
    ¬ IsLone (before ++ ['\\'] ++ c :: after)
        (before ++ ['\\']).length := by
  rintro ⟨_, hEscape, _⟩
  apply hEscape
  rw [List.take_left, ← endsBare_iff, endsBare_append hBare]
  rfl

/- What follows a text that ends no escape is not escaped. -/
theorem not_endsInEscape_take
    (c : Char)
    (after : Text) :
    ¬ EndsInEscape
        ((before ++ c :: after).take before.length) := by
  rw [List.take_left, ← endsBare_iff, hBare]
  decide

/- An opening brace is lone if no group is read after it. -/
theorem isLone_opening_iff :
    IsLone (before ++ '\x7b' :: after) before.length ↔
      readGroup after = none := by
  constructor
  · rintro ⟨_, _, hAlone⟩
    cases hRead : readGroup after with
    | none => rfl
    | some parts =>
        rcases readGroup_eq_some_iff.mp hRead with
          ⟨rfl, hBalanced⟩
        have hPartners :
            ArePartners
              (before ++ '\x7b' ::
                (parts.1 ++ '\x7d' :: parts.2))
              before.length
              (before ++ '\x7b' :: parts.1).length :=
          arePartners_iff.mpr
            ⟨before, parts.1, parts.2, by simp, rfl, rfl,
              hBare, hBalanced⟩
        exact absurd hPartners
          (hAlone _ hPartners.lt.2).1
  · intro hNone
    refine ⟨.inl (by simp),
      not_endsInEscape_take hBare _ after, ?_⟩
    intro j _
    constructor
    · intro hPartners
      rcases arePartners_iff.mp hPartners with
        ⟨lead, between, rest, hSplit, hLength, _, _,
          hBalanced⟩
      rw [List.append_assoc] at hSplit
      rcases List.append_inj hSplit hLength.symm with
        ⟨_, hAfter⟩
      have hRead :=
        readGroup_eq_some_iff.mpr
          ⟨(List.cons.inj hAfter).2, hBalanced⟩
      rw [hNone] at hRead
      cases hRead
    · rintro ⟨_, _, _, hClose, _⟩
      simp at hClose

/- A closing brace is lone if no brace waits before it. -/
theorem isLone_closing_iff :
    IsLone (before ++ '\x7d' :: after) before.length ↔
      waitingFrom 0 before = 0 := by
  constructor
  · rintro ⟨_, _, hAlone⟩
    by_contra hWaits
    rcases (waitingFrom_pos_iff hBare).mp
        (Nat.pos_of_ne_zero hWaits) with
      ⟨lead, between, rfl, hLead, hBetween⟩
    have hPartners :
        ArePartners
          (lead ++ '\x7b' :: between ++ '\x7d' :: after)
          lead.length
          (lead ++ '\x7b' :: between).length :=
      arePartners_iff.mpr
        ⟨lead, between, after, rfl, rfl, rfl, hLead, hBetween⟩
    have hInside :=
      Nat.lt_trans hPartners.lt.1 hPartners.lt.2
    exact (hAlone _ hInside).2 hPartners
  · intro hNone
    refine ⟨.inr (by simp),
      not_endsInEscape_take hBare _ after, ?_⟩
    intro j _
    constructor
    · rintro ⟨_, hOpen, _⟩
      simp at hOpen
    · intro hPartners
      rcases arePartners_iff.mp hPartners with
        ⟨lead, between, rest, hSplit, _, hLength, hLead,
          hBetween⟩
      rcases List.append_inj hSplit hLength.symm with
        ⟨rfl, _⟩
      have hWaits :=
        (waitingFrom_pos_iff hBare).mpr
          ⟨lead, between, rfl, hLead, hBetween⟩
      omega

end Lone

------------------------------------------------------------
-- Writing a Group
------------------------------------------------------------

/- The end of a text with its lone braces escaped. -/
def loneEscapedAfter
    (before s : Text) :
    Text :=
  (s.zipIdx before.length).flatMap fun entry =>
    if IsLone (before ++ s) entry.2 then
      ['\\', entry.1]
    else
      [entry.1]

/- The first character may be lone, the others follow. -/
theorem loneEscapedAfter_cons
    (before : Text)
    (c : Char)
    (s : Text) :
    loneEscapedAfter before (c :: s) =
      (if IsLone (before ++ c :: s) before.length then
          ['\\', c]
        else
          [c]) ++
        loneEscapedAfter (before ++ [c]) s := by
  rw [loneEscapedAfter, loneEscapedAfter, List.zipIdx_cons,
    List.flatMap_cons, ← List.append_cons,
    List.length_append, List.length_singleton]

/- A character that is not lone is written as it is. -/
theorem loneEscapedAfter_cons_of_not
    {before s : Text}
    {c : Char}
    (hNot : ¬ IsLone (before ++ c :: s) before.length) :
    loneEscapedAfter before (c :: s) =
      c :: loneEscapedAfter (before ++ [c]) s := by
  rw [loneEscapedAfter_cons, if_neg hNot]
  rfl

/- A lone brace is written after a backslash. -/
theorem loneEscapedAfter_cons_of_isLone
    {before s : Text}
    {c : Char}
    (hLone : IsLone (before ++ c :: s) before.length) :
    loneEscapedAfter before (c :: s) =
      '\\' :: c :: loneEscapedAfter (before ++ [c]) s := by
  rw [loneEscapedAfter_cons, if_pos hLone]
  rfl

/-
  The end of a text is written as its lone braces ask for,
  where as many braces wait for it as the text before leaves
  waiting.
-/
theorem fst_escapeLoneFrom
    {waiting : Nat}
    {before s : Text}
    (hLeaves : Leaves before waiting) :
    (escapeLoneFrom waiting s).1 =
      loneEscapedAfter before s ++
        if endsBare s then [' '] else [] := by
  induction waiting, s using scan_induction
    generalizing before with
  | nil waiting => rfl
  | bare waiting =>
      rw [loneEscapedAfter_cons_of_not
        (not_isLone_of_ne (by decide) (by decide) _ _)]
      rfl
  | escape waiting c s ih =>
      have hNext :
          Leaves (before ++ ['\\'] ++ [c]) waiting := by
        rw [List.append_assoc]
        exact hLeaves.append rfl
      rw [loneEscapedAfter_cons_of_not
          (not_isLone_of_ne (by decide) (by decide) _ _),
        loneEscapedAfter_cons_of_not
          (not_isLone_of_escaped hLeaves.bare c)]
      exact congrArg ('\\' :: c :: ·) (ih hNext)
  | opening waiting s ih =>
      have hNext :
          Leaves (before ++ ['\x7b']) (waiting + 1) :=
        hLeaves.append rfl
      have hRest := ih hNext
      -- The rest tells whether this brace gets a partner.
      have hLone :
          (escapeLoneFrom (waiting + 1) s).2 = 0 ↔
            IsLone (before ++ '\x7b' :: s) before.length := by
        rw [snd_escapeLoneFrom_eq_zero_iff,
          isLone_opening_iff hLeaves.bare]
      rw [escapeLoneFrom_open,
        endsBare_cons_of_ne (by decide)]
      split
      · next written hWritten =>
          rw [hWritten] at hRest hLone
          rw [loneEscapedAfter_cons_of_isLone (hLone.mp rfl)]
          exact congrArg ('\\' :: '\x7b' :: ·) hRest
      · next written closing hWritten =>
          rw [hWritten] at hRest hLone
          rw [loneEscapedAfter_cons_of_not
            fun h => Nat.succ_ne_zero closing (hLone.mpr h)]
          exact congrArg ('\x7b' :: ·) hRest
  | stray s ih =>
      have hNext : Leaves (before ++ ['\x7d']) 0 :=
        hLeaves.append rfl
      rw [loneEscapedAfter_cons_of_isLone
          ((isLone_closing_iff hLeaves.bare).mpr
            hLeaves.waits),
        endsBare_cons_of_ne (by decide)]
      exact congrArg ('\\' :: '\x7d' :: ·) (ih hNext)
  | closing waiting s ih =>
      have hNext : Leaves (before ++ ['\x7d']) waiting :=
        hLeaves.append rfl
      have hNot :
          ¬ IsLone (before ++ '\x7d' :: s) before.length := by
        rw [isLone_closing_iff hLeaves.bare, hLeaves.waits]
        exact Nat.succ_ne_zero waiting
      rw [loneEscapedAfter_cons_of_not hNot,
        endsBare_cons_of_ne (by decide)]
      exact congrArg ('\x7d' :: ·) (ih hNext)
  | plain waiting c s hPlain ih =>
      have hNext : Leaves (before ++ [c]) waiting := by
        have hStep :=
          hLeaves.append (endsBare_cons_of_ne hPlain.1 [])
        rwa [waitingFrom_cons_of_isPlain hPlain] at hStep
      rw [escapeLoneFrom_cons_of_isPlain hPlain,
        loneEscapedAfter_cons_of_not
          (not_isLone_of_ne hPlain.2.1 hPlain.2.2 _ _),
        endsBare_cons_of_ne hPlain.1]
      exact congrArg (c :: ·) (ih hNext)

/-
  What is written into a group is the text with a backslash
  before just its lone braces, and a space for an escape
  that it leaves bare.
-/
theorem escapeLone_eq
    (s : Text) :
    escapeLone s =
      loneEscaped s ++ if EndsInEscape s then [' '] else [] := by
  have hStart : Leaves [] 0 := ⟨rfl, rfl⟩
  rw [escapeLone, fst_escapeLoneFrom hStart]
  simp only [endsBare_iff]
  rfl

------------------------------------------------------------
-- The Scans Agree
------------------------------------------------------------

/- A balanced text is just what is written as it is. -/
theorem escapeLone_eq_self_iff
    {s : Text} :
    escapeLone s = s ↔ isBalanced s = true := by
  constructor
  · intro hSame
    rw [← hSame]
    exact isBalanced_escapeLone s
  · intro hBalanced
    rw [escapeLone_of_paired
        (pairedFrom_of_balancedFrom hBalanced),
      finished, endsBare_of_balancedFrom hBalanced]
    rfl

/- A balanced text is just what is read in any group. -/
theorem readGroup_append_iff
    {s : Text} :
    (∀ rest,
      readGroup (s ++ '\x7d' :: rest) = some (s, rest)) ↔
      isBalanced s = true := by
  constructor
  · intro hRead
    exact (readGroup_eq_some_iff.mp (hRead [])).2
  · intro hBalanced rest
    exact readGroup_eq_some_iff.mpr ⟨rfl, hBalanced⟩

/-
  The three scans for braces agree.  A text is balanced just
  if every group that it is put into is read back as it, and
  just if it is written into a group as it is when it has no
  blanks at its ends.  What is written into a group of a row
  is balanced, and is the trimmed text of the row with a
  backslash before each of its lone braces and no others,
  and with a space at its end if that is a bare escape.
-/
theorem scans_agree
    {ι : Type}
    (s : Text)
    (row : Row ι) :
    (isBalanced s = true ↔
      ∀ rest,
        readGroup (s ++ '\x7d' :: rest) = some (s, rest)) ∧
      (trim s = s →
        (isBalanced s = true ↔
          group (Row.toText [(.text s : Node ι)]) =
            '\x7b' :: s ++ ['\x7d'])) ∧
      ∃ written,
        group row.toText = '\x7b' :: written ++ ['\x7d'] ∧
          isBalanced written = true ∧
          written =
            loneEscaped (trim row.toText) ++
              if EndsInEscape (trim row.toText) then
                [' ']
              else
                [] := by
  refine ⟨readGroup_append_iff.symm, ?_, ?_⟩
  · intro hTrimmed
    have hText :
        Row.toText [(.text s : Node ι)] = s :=
      List.append_nil s
    rw [hText, group, hTrimmed, ← escapeLone_eq_self_iff]
    simp
  · exact ⟨_, rfl, isBalanced_escapeLone _, escapeLone_eq _⟩

/-
  A text with an escaped brace that is written as it is, and
  a row with two lone braces and a bare escape that is not.
-/
theorem scans_agree_on_lone_braces :
    let s := "\\\x7b\x7ba\x7d".toList
    let row : Row Nat :=
      [.text " \x7d\x7ba\x7d\x7b\\ ".toList]
    trim s = s ∧
      group (Row.toText [(.text s : Node Nat)]) =
        '\x7b' :: s ++ ['\x7d'] ∧
      ∃ written,
        group row.toText = '\x7b' :: written ++ ['\x7d'] ∧
          written = "\\\x7d\x7ba\x7d\\\x7b\\ ".toList := by
  intro s row
  have hTrimmed : trim s = s := by decide
  have hBalanced : isBalanced s = true := by decide
  rcases scans_agree s row with
    ⟨_, hGroup, written, hWritten, _, hEscaped⟩
  refine ⟨hTrimmed, (hGroup hTrimmed).mp hBalanced,
    written, hWritten, ?_⟩
  rw [hEscaped]
  decide

end Text

end FormulaEditor
