import FormulaEditor.Text.Placeholder
import FormulaEditor.Proofs.Text.Grouping

/-
  This file defines when one text is a tidied form of
  another.  Tidying takes out characters that cannot be seen
  and puts in spaces, but only where a scan for braces does
  not notice.  Tidied forms are what reading a text as a
  formula and writing it again leads to.

  Key definitions include:
    * `isVisible`
    * `Text.visible`
    * `Text.placeholderCount`
    * `Text.Cleaned`
    * `Text.Tidied`

  Key theorems include:
    * `Text.Tidied.cleaned`
    * `Text.Tidied.pairedFrom_of_balancedFrom`
    * `Text.Tidied.afterGroup?_eq_some`
    * `Text.Tidied.trim`
-/

namespace FormulaEditor

------------------------------------------------------------
-- Visible Characters
------------------------------------------------------------

/- A character that is neither blank nor a placeholder. -/
def isVisible
    (c : Char) :
    Bool :=
  !isBlank c && !isPlaceholder c

/- Placeholders are plain. -/
theorem isPlain_of_isPlaceholder
    {c : Char}
    (hPlaceholder : isPlaceholder c = true) :
    IsPlain c := by
  refine ⟨?_, ?_, ?_⟩ <;>
    · rintro rfl
      revert hPlaceholder
      decide

/- Whatever cannot be seen is plain. -/
theorem isPlain_of_not_isVisible
    {c : Char}
    (hHidden : isVisible c = false) :
    IsPlain c := by
  simp only [isVisible, Bool.and_eq_false_iff,
    Bool.not_eq_false'] at hHidden
  rcases hHidden with hBlank | hPlaceholder
  · exact isPlain_of_isBlank hBlank
  · exact isPlain_of_isPlaceholder hPlaceholder

/- Blank characters cannot be seen. -/
theorem not_isVisible_of_isBlank
    {c : Char}
    (hBlank : isBlank c = true) :
    isVisible c = false := by
  simp [isVisible, hBlank]

/- Placeholders cannot be seen. -/
theorem not_isVisible_of_isPlaceholder
    {c : Char}
    (hPlaceholder : isPlaceholder c = true) :
    isVisible c = false := by
  simp [isVisible, hPlaceholder]

namespace Text

/- What can be seen of a text. -/
def visible
    (s : Text) :
    Text :=
  s.filter isVisible

/- How many placeholders a text has. -/
def placeholderCount
    (s : Text) :
    Nat :=
  s.countP isPlaceholder

section Counting

variable (c : Char) (s t : Text)

theorem visible_cons :
    visible (c :: s) =
      if isVisible c then c :: visible s else visible s :=
  List.filter_cons

@[simp] theorem visible_append :
    visible (s ++ t) = visible s ++ visible t :=
  List.filter_append s t

@[simp] theorem placeholderCount_nil :
    placeholderCount [] = 0 :=
  rfl

theorem placeholderCount_cons :
    placeholderCount (c :: s) =
      placeholderCount s + if isPlaceholder c then 1 else 0 :=
  List.countP_cons

@[simp] theorem placeholderCount_append :
    placeholderCount (s ++ t) =
      placeholderCount s + placeholderCount t :=
  List.countP_append

end Counting

/- Nothing of a text can be seen. -/
def IsHidden
    (s : Text) :
    Prop :=
  ∀ c ∈ s, isVisible c = false

/- A blank text cannot be seen. -/
theorem isHidden_of_isAllBlank
    {s : Text}
    (hBlank : IsAllBlank s) :
    IsHidden s :=
  fun c hMem => not_isVisible_of_isBlank (hBlank c hMem)

/- What cannot be seen is shielded. -/
theorem shielded_of_isHidden
    {s : Text}
    (hHidden : IsHidden s) :
    Shielded s := by
  cases s with
  | nil => exact .nil
  | cons c rest =>
      exact .plain
        (isPlain_of_not_isVisible
          (hHidden c (List.mem_cons_self ..)))

------------------------------------------------------------
-- Cleaned Texts
------------------------------------------------------------

/-
  A text is cleaned when it still shows the same, has no
  placeholder more, and only spaces are new in it.
-/
structure Cleaned
    (s t : Text) :
    Prop where
  visible_eq : visible s = visible t
  placeholderCount_le :
    placeholderCount t ≤ placeholderCount s
  mem_or_eq_space : ∀ c ∈ t, c ∈ s ∨ c = ' '

namespace Cleaned

variable {s t u v : Text}

/- A text is cleaned as it is. -/
theorem refl
    (s : Text) :
    Cleaned s s :=
  ⟨rfl, Nat.le_refl _, fun _ hMem => .inl hMem⟩

/- Texts are cleaned part by part. -/
theorem append
    (hFirst : Cleaned s t)
    (hSecond : Cleaned u v) :
    Cleaned (s ++ u) (t ++ v) where
  visible_eq := by
    rw [visible_append, visible_append, hFirst.visible_eq,
      hSecond.visible_eq]
  placeholderCount_le := by
    rw [placeholderCount_append, placeholderCount_append]
    exact Nat.add_le_add hFirst.placeholderCount_le
      hSecond.placeholderCount_le
  mem_or_eq_space := by
    intro c hMem
    rcases List.mem_append.mp hMem with hMem | hMem
    · rcases hFirst.mem_or_eq_space c hMem with hOld | hNew
      · exact .inl (List.mem_append_left _ hOld)
      · exact .inr hNew
    · rcases hSecond.mem_or_eq_space c hMem with hOld | hNew
      · exact .inl (List.mem_append_right _ hOld)
      · exact .inr hNew

/- A character in front may stay. -/
theorem cons
    (c : Char)
    (hCleaned : Cleaned s t) :
    Cleaned (c :: s) (c :: t) :=
  (refl [c]).append hCleaned

/- A character that cannot be seen may go. -/
theorem drop
    {c : Char}
    (hHidden : isVisible c = false)
    (hCleaned : Cleaned s t) :
    Cleaned (c :: s) t where
  visible_eq := by
    simp [visible_cons, hHidden, hCleaned.visible_eq]
  placeholderCount_le := by
    have hCount := hCleaned.placeholderCount_le
    rw [placeholderCount_cons]
    omega
  mem_or_eq_space := by
    intro d hMem
    rcases hCleaned.mem_or_eq_space d hMem with hOld | hNew
    · exact .inl (List.mem_cons_of_mem c hOld)
    · exact .inr hNew

/- A space may be new. -/
theorem space
    (hCleaned : Cleaned s t) :
    Cleaned s (' ' :: t) where
  visible_eq := by
    rw [visible_cons, if_neg (by decide)]
    exact hCleaned.visible_eq
  placeholderCount_le := by
    rw [placeholderCount_cons, if_neg (by decide)]
    exact hCleaned.placeholderCount_le
  mem_or_eq_space := by
    intro c hMem
    rcases List.mem_cons.mp hMem with rfl | hMem
    · exact .inr rfl
    · exact hCleaned.mem_or_eq_space c hMem

/- A bare escape may be finished with a space. -/
theorem finished
    (hCleaned : Cleaned s t) :
    Cleaned s (Text.finished t) := by
  unfold Text.finished
  split
  · have hSpace := (refl []).space
    simpa using hCleaned.append hSpace
  · exact hCleaned

end Cleaned

------------------------------------------------------------
-- Tidied Texts
------------------------------------------------------------

/-
  A text is tidied when characters that cannot be seen are
  dropped, spaces put in and the contents of groups tidied,
  so that a scan for braces notices nothing.  A backslash
  may come to stand before shielded text, and nothing is
  taken out between a closing brace and a group after it.
-/
inductive Tidied : Text → Text → Prop where
  | nil : Tidied [] []
  | plain {c : Char} {s t : Text} :
      IsPlain c → Tidied s t → Tidied (c :: s) (c :: t)
  | opening {s t : Text} :
      Tidied s t → Tidied ('\x7b' :: s) ('\x7b' :: t)
  | closing {s t : Text} :
      (OpensGroup t → OpensGroup s) → Tidied s t →
        Tidied ('\x7d' :: s) ('\x7d' :: t)
  | escape (c : Char) {s t : Text} :
      Tidied s t → Tidied ('\\' :: c :: s) ('\\' :: c :: t)
  | bare {s t : Text} :
      Shielded s → Shielded t → Tidied s t →
        Tidied ('\\' :: s) ('\\' :: t)
  | expose {c : Char} {s t : Text} :
      isVisible c = false → Shielded t → Tidied s t →
        Tidied ('\\' :: c :: s) ('\\' :: t)
  | drop {c : Char} {s t : Text} :
      isVisible c = false → Tidied s t → Tidied (c :: s) t
  | space {s t : Text} :
      Tidied s t → Tidied s (' ' :: t)
  | group {u v s t : Text} :
      isBalanced u = true → isBalanced v = true →
        Cleaned u v → Tidied s t →
        Tidied ('\x7b' :: u ++ '\x7d' :: s)
          ('\x7b' :: v ++ '\x7d' :: t)

namespace Tidied

------------------------------------------------------------
-- What Tidying Keeps
------------------------------------------------------------

/- Tidying cleans a text. -/
theorem cleaned
    {s t : Text}
    (hTidied : Tidied s t) :
    Cleaned s t := by
  induction hTidied with
  | nil => exact .refl []
  | plain _ _ ih => exact ih.cons _
  | opening _ ih => exact ih.cons _
  | closing _ _ ih => exact ih.cons _
  | escape c _ ih => exact (ih.cons c).cons _
  | bare _ _ _ ih => exact ih.cons _
  | expose hHidden _ _ ih => exact (ih.drop hHidden).cons _
  | drop hHidden _ ih => exact ih.drop hHidden
  | space _ ih => exact ih.space
  | group _ _ hContent _ ih =>
      exact (hContent.cons _).append (ih.cons _)

/- The braces of tidied balanced text are still paired. -/
theorem pairedFrom_of_balancedFrom
    {s t : Text}
    (hTidied : Tidied s t)
    {depth : Nat}
    (hBalanced : balancedFrom depth s = true) :
    pairedFrom depth t = true := by
  induction hTidied generalizing depth with
  | nil => exact hBalanced
  | plain hPlain _ ih =>
      rw [isScan_balancedFrom.plain _ _ _ hPlain] at hBalanced
      rw [isScan_pairedFrom.plain _ _ _ hPlain]
      exact ih hBalanced
  | opening _ ih => exact ih hBalanced
  | closing _ _ ih =>
      cases depth with
      | zero => simp [balancedFrom] at hBalanced
      | succ depth => exact ih hBalanced
  | escape c _ ih => exact ih hBalanced
  | bare hShieldedS hShieldedT _ ih =>
      rw [isScan_pairedFrom.escape_shielded
        (fun _ => rfl) hShieldedT]
      exact ih (balancedFrom_of_escape hShieldedS hBalanced)
  | expose _ hShielded _ ih =>
      rw [isScan_pairedFrom.escape_shielded
        (fun _ => rfl) hShielded]
      exact ih hBalanced
  | drop hHidden _ ih =>
      rw [isScan_balancedFrom.plain _ _ _
        (isPlain_of_not_isVisible hHidden)] at hBalanced
      exact ih hBalanced
  | space _ ih =>
      rw [isScan_pairedFrom.plain _ _ _ (by decide)]
      exact ih hBalanced
  | group hFirst hSecond _ _ ih =>
      rw [isScan_balancedFrom.group_append hFirst]
        at hBalanced
      rw [isScan_pairedFrom.group_append hSecond]
      exact ih hBalanced

/-
  Where a group ends in a tidied text, one ends in the text
  itself, and what follows it there is tidied to what
  follows it here.
-/
theorem afterGroup?_eq_some
    {s t : Text}
    (hTidied : Tidied s t)
    {depth : Nat}
    {after : Text}
    (hAfter : afterGroup? depth t = some after) :
    ∃ before, afterGroup? depth s = some before ∧
      Tidied before after ∧
      (OpensGroup after → OpensGroup before) := by
  induction hTidied generalizing depth with
  | nil => simp [afterGroup?, readGroupFrom] at hAfter
  | plain hPlain _ ih =>
      rw [isScan_afterGroup?.plain _ _ _ hPlain] at hAfter ⊢
      exact ih hAfter
  | opening _ ih =>
      rw [isScan_afterGroup?.opening] at hAfter ⊢
      exact ih hAfter
  | closing hOpens hRest ih =>
      cases depth with
      | zero =>
          rcases Option.some.inj hAfter with rfl
          exact ⟨_, rfl, hRest, hOpens⟩
      | succ depth =>
          rw [isScan_afterGroup?.closing] at hAfter ⊢
          exact ih hAfter
  | escape c _ ih =>
      rw [isScan_afterGroup?.escape] at hAfter ⊢
      exact ih hAfter
  | bare hShieldedS hShieldedT _ ih =>
      rw [isScan_afterGroup?.escape_shielded
        (fun _ => rfl) hShieldedT] at hAfter
      rw [isScan_afterGroup?.escape_shielded
        (fun _ => rfl) hShieldedS]
      exact ih hAfter
  | expose _ hShielded _ ih =>
      rw [isScan_afterGroup?.escape_shielded
        (fun _ => rfl) hShielded] at hAfter
      rw [isScan_afterGroup?.escape]
      exact ih hAfter
  | drop hHidden _ ih =>
      rw [isScan_afterGroup?.plain _ _ _
        (isPlain_of_not_isVisible hHidden)]
      exact ih hAfter
  | space _ ih =>
      rw [isScan_afterGroup?.plain _ _ _ (by decide)]
        at hAfter
      exact ih hAfter
  | group hFirst hSecond _ _ ih =>
      rw [isScan_afterGroup?.group_append hSecond] at hAfter
      rw [isScan_afterGroup?.group_append hFirst]
      exact ih hAfter

------------------------------------------------------------
-- Putting Tidied Texts Together
------------------------------------------------------------

/- A character other than a backslash may be kept. -/
theorem keep
    {c : Char}
    {s t : Text}
    (hEscape : c ≠ '\\')
    (hOpens : OpensGroup t → OpensGroup s)
    (hTidied : Tidied s t) :
    Tidied (c :: s) (c :: t) := by
  by_cases hOpen : c = '\x7b'
  · subst hOpen
    exact opening hTidied
  · by_cases hClose : c = '\x7d'
    · subst hClose
      exact closing hOpens hTidied
    · exact plain ⟨hEscape, hOpen, hClose⟩ hTidied

/- What cannot be seen may be dropped in front. -/
theorem hidden_append
    {lead s t : Text}
    (hHidden : IsHidden lead)
    (hTidied : Tidied s t) :
    Tidied (lead ++ s) t := by
  induction lead with
  | nil => exact hTidied
  | cons c rest ih =>
      exact drop (hHidden c (List.mem_cons_self ..))
        (ih fun d hMem => hHidden d (List.mem_cons_of_mem c hMem))

/- What cannot be seen may be dropped at the end. -/
theorem append_hidden
    {s t tail : Text}
    (hTidied : Tidied s t)
    (hHidden : IsHidden tail) :
    Tidied (s ++ tail) t := by
  induction hTidied with
  | nil =>
      have hDropped := hidden_append hHidden .nil
      simpa using hDropped
  | plain hPlain _ ih => exact plain hPlain ih
  | opening _ ih => exact opening ih
  | closing hOpens _ ih =>
      exact closing (fun h => opensGroup_append (hOpens h) _) ih
  | escape c _ ih => exact escape c ih
  | bare hShieldedS hShieldedT _ ih =>
      exact bare
        (hShieldedS.append (shielded_of_isHidden hHidden))
        hShieldedT ih
  | expose hGone hShielded _ ih =>
      exact expose hGone hShielded ih
  | drop hGone _ ih => exact drop hGone ih
  | space _ ih => exact space ih
  | group hFirst hSecond hContent _ ih =>
      simpa using group hFirst hSecond hContent ih

/- A tidied text may be cut at the start. -/
theorem trimStart
    {s t : Text}
    (hTidied : Tidied s t) :
    Tidied s (Text.trimStart t) := by
  induction hTidied with
  | nil => exact nil
  | @plain c s t hPlain hRest ih =>
      cases hBlank : isBlank c with
      | true =>
          rw [trimStart_cons_of_blank hBlank]
          exact drop (not_isVisible_of_isBlank hBlank) ih
      | false =>
          rw [trimStart_cons_of_solid hBlank]
          exact plain hPlain hRest
  | opening hRest _ => exact opening hRest
  | closing hOpens hRest _ => exact closing hOpens hRest
  | escape c hRest _ => exact escape c hRest
  | bare hShieldedS hShieldedT hRest _ =>
      exact bare hShieldedS hShieldedT hRest
  | expose hGone hShielded hRest _ =>
      exact expose hGone hShielded hRest
  | drop hGone _ ih => exact drop hGone ih
  | space _ ih => exact ih
  | group hFirst hSecond hContent hRest _ =>
      exact group hFirst hSecond hContent hRest

/- A tidied text may be cut at the end. -/
theorem trimEnd
    {s t : Text}
    (hTidied : Tidied s t) :
    Tidied s (Text.trimEnd t) := by
  induction hTidied with
  | nil => exact nil
  | @plain c s t hPlain hRest ih =>
      rw [trimEnd_cons]
      split
      · next hCut =>
          rw [hCut.1] at ih
          exact drop (not_isVisible_of_isBlank hCut.2) ih
      · exact plain hPlain ih
  | opening _ ih =>
      rw [trimEnd_cons_of_solid (by decide)]
      exact opening ih
  | closing hOpens _ ih =>
      rw [trimEnd_cons_of_solid (by decide)]
      exact closing (fun h => hOpens (opensGroup_of_trimEnd h)) ih
  | @escape c s t _ ih =>
      rw [trimEnd_cons_of_solid (by decide), trimEnd_cons]
      split
      · next hCut =>
          rw [hCut.1] at ih
          exact expose (not_isVisible_of_isBlank hCut.2) .nil ih
      · exact escape c ih
  | bare hShieldedS hShieldedT _ ih =>
      rw [trimEnd_cons_of_solid (by decide)]
      exact bare hShieldedS hShieldedT.trimEnd ih
  | expose hGone hShielded _ ih =>
      rw [trimEnd_cons_of_solid (by decide)]
      exact expose hGone hShielded.trimEnd ih
  | drop hGone _ ih => exact drop hGone ih
  | @space s t _ ih =>
      rw [trimEnd_cons]
      split
      · next hCut =>
          rw [hCut.1] at ih
          exact ih
      · exact space ih
  | @group u v s t hFirst hSecond hContent _ ih =>
      have hCut :
          Text.trimEnd ('\x7b' :: v ++ '\x7d' :: t) =
            '\x7b' :: v ++ '\x7d' :: Text.trimEnd t := by
        have hClose := trimEnd_cons_of_solid
          (c := '\x7d') (by decide) t
        rw [trimEnd_append_of_ne_nil _ (by simp [hClose]),
          hClose]
      rw [hCut]
      exact group hFirst hSecond hContent ih

/- A tidied text may be trimmed. -/
theorem trim
    {s t : Text}
    (hTidied : Tidied s t) :
    Tidied s (Text.trim t) :=
  hTidied.trimStart.trimEnd

/- A text whose trimmed form is tidied is tidied itself. -/
theorem of_trim
    {s t : Text}
    (hTidied : Tidied (Text.trim s) t) :
    Tidied s t := by
  rcases exists_append_trim_append s with
    ⟨lead, tail, hLead, hTail, hSplit⟩
  rw [hSplit, List.append_assoc]
  exact hidden_append (isHidden_of_isAllBlank hLead)
    (append_hidden hTidied (isHidden_of_isAllBlank hTail))

/-
  Tidied texts may be put together in front of text that is
  shielded and opens no group.
-/
theorem append
    {s t u v : Text}
    (hFirst : Tidied s t)
    (hShieldedU : Shielded u)
    (hShieldedV : Shielded v)
    (hSecond : Tidied u v) :
    Tidied (s ++ u) (t ++ v) := by
  induction hFirst with
  | nil => exact hSecond
  | plain hPlain _ ih => exact plain hPlain ih
  | opening _ ih => exact opening ih
  | closing hOpens _ ih =>
      refine closing (fun h => ?_) ih
      exact opensGroup_append
        (hOpens (hShieldedV.opensGroup_of_append h)) _
  | escape c _ ih => exact escape c ih
  | bare hShieldedS hShieldedT _ ih =>
      exact bare (hShieldedS.append hShieldedU)
        (hShieldedT.append hShieldedV) ih
  | expose hGone hShielded _ ih =>
      exact expose hGone (hShielded.append hShieldedV) ih
  | drop hGone _ ih => exact drop hGone ih
  | space _ ih => exact space ih
  | group hBalancedU hBalancedV hContent _ ih =>
      simpa using group hBalancedU hBalancedV hContent ih

/- Text may be kept up to what is dropped from its end. -/
theorem kept_append
    (kept : Text)
    {tail s t : Text}
    (hHidden : IsHidden tail)
    (hShieldedS : Shielded s)
    (hShieldedT : Shielded t)
    (hTidied : Tidied s t) :
    Tidied (kept ++ (tail ++ s)) (kept ++ t) := by
  induction kept using escape_induction with
  | nil =>
      change Tidied (tail ++ s) t
      exact hidden_append hHidden hTidied
  | bare =>
      cases tail with
      | nil => exact bare hShieldedS hShieldedT hTidied
      | cons c rest =>
          refine expose (hHidden c (List.mem_cons_self ..))
            hShieldedT (hidden_append ?_ hTidied)
          exact fun d hMem =>
            hHidden d (List.mem_cons_of_mem c hMem)
  | escape c kept ih => exact escape c ih
  | cons c kept hEscape ih =>
      refine keep hEscape (fun h => ?_) ih
      exact opensGroup_append
        (hShieldedT.opensGroup_of_append h) _

end Tidied

end Text

end FormulaEditor
