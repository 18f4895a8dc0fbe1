import FormulaEditor.Text.Braces
import FormulaEditor.Proofs.Text.Trimming

/-
  This file proves how a text is scanned for braces, whether
  to read a group, to see if its braces balance or to pair
  them up.  All of these scans take the same steps, which is
  the shape of the inductions along them.

  Key definitions include:
    * `IsPlain`
    * `Text.pairedFrom`
    * `Text.afterGroup?`
    * `Text.Shielded`
    * `Text.IsScan`

  Key theorems include:
    * `Text.scan_induction`
    * `Text.IsScan.group_append`
    * `Text.IsScan.escape_shielded`
    * `Text.IsScan.append_of_pairedFrom`
    * `Text.pairedFrom_trim`
-/

namespace FormulaEditor

------------------------------------------------------------
-- Plain Characters
------------------------------------------------------------

/- A character that means nothing in a brace group. -/
def IsPlain
    (c : Char) :
    Prop :=
  c ≠ '\\' ∧ c ≠ '\x7b' ∧ c ≠ '\x7d'

instance
    (c : Char) :
    Decidable (IsPlain c) := by
  unfold IsPlain
  infer_instance

/- Blank characters are plain. -/
theorem isPlain_of_isBlank
    {c : Char}
    (hBlank : isBlank c = true) :
    IsPlain c := by
  refine ⟨?_, ?_, ?_⟩ <;>
    · rintro rfl
      revert hBlank
      decide

namespace Text

------------------------------------------------------------
-- Induction Along a Scan
------------------------------------------------------------

/-
  Induction along a scan of a text for braces, which looks
  at an escape together with its character.  A closing brace
  is a stray one when no opening brace waits for it.
-/
@[elab_as_elim]
theorem scan_induction
    {motive : Nat → Text → Prop}
    (nil : ∀ depth, motive depth [])
    (bare : ∀ depth, motive depth ['\\'])
    (escape :
      ∀ depth c s, motive depth s →
        motive depth ('\\' :: c :: s))
    (opening :
      ∀ depth s, motive (depth + 1) s →
        motive depth ('\x7b' :: s))
    (stray : ∀ s, motive 0 s → motive 0 ('\x7d' :: s))
    (closing :
      ∀ depth s, motive depth s →
        motive (depth + 1) ('\x7d' :: s))
    (plain :
      ∀ depth c s, IsPlain c → motive depth s →
        motive depth (c :: s)) :
    ∀ depth s, motive depth s
  | depth, [] => nil depth
  | depth, c :: s => by
      have ih :
          ∀ depth t, t.length < (c :: s).length →
            motive depth t :=
        fun depth t hLess =>
          scan_induction nil bare escape opening stray
            closing plain depth t
      by_cases hEscape : c = '\\'
      · subst hEscape
        cases s with
        | nil => exact bare depth
        | cons d s =>
            have hLess : s.length < ('\\' :: d :: s).length :=
              Nat.lt_succ_of_lt (Nat.lt_succ_self _)
            exact escape depth d s (ih depth s hLess)
      · by_cases hOpen : c = '\x7b'
        · subst hOpen
          exact opening depth s (ih (depth + 1) s (by simp))
        · by_cases hClose : c = '\x7d'
          · subst hClose
            cases depth with
            | zero => exact stray s (ih 0 s (by simp))
            | succ depth =>
                exact closing depth s (ih depth s (by simp))
          · exact plain depth c s ⟨hEscape, hOpen, hClose⟩
              (ih depth s (by simp))
termination_by _ s => s.length
decreasing_by exact hLess

/- Induction along a text that looks at escapes only. -/
@[elab_as_elim]
theorem escape_induction
    {motive : Text → Prop}
    (nil : motive [])
    (bare : motive ['\\'])
    (escape :
      ∀ c s, motive s → motive ('\\' :: c :: s))
    (cons :
      ∀ c s, c ≠ '\\' → motive s → motive (c :: s))
    (s : Text) :
    motive s :=
  scan_induction (motive := fun _ s => motive s)
    (fun _ => nil) (fun _ => bare)
    (fun _ c s => escape c s)
    (fun _ s => cons _ s (by decide))
    (fun s => cons _ s (by decide))
    (fun _ s => cons _ s (by decide))
    (fun _ c s hPlain => cons c s hPlain.1)
    0 s

------------------------------------------------------------
-- The Scans
------------------------------------------------------------

/-
  Whether every brace of a text finds its partner when
  `depth` opening braces before it are still unpaired.  An
  escape may be left without its character at the end.
-/
def pairedFrom : Nat → Text → Bool
  | depth, [] => depth == 0
  | depth, ['\\'] => depth == 0
  | depth, '\\' :: _ :: rest => pairedFrom depth rest
  | depth, '\x7b' :: rest => pairedFrom (depth + 1) rest
  | 0, '\x7d' :: _ => false
  | depth + 1, '\x7d' :: rest => pairedFrom depth rest
  | depth, _ :: rest => pairedFrom depth rest

/-
  The text after the closing brace that pairs with the
  opening brace `depth + 1` levels out.
-/
def afterGroup?
    (depth : Nat)
    (s : Text) :
    Option Text :=
  (readGroupFrom depth s).map Prod.snd

------------------------------------------------------------
-- One Step of Each Scanner
------------------------------------------------------------

section Steps

variable {c : Char}

theorem balancedFrom_cons_of_isPlain
    (hPlain : IsPlain c)
    (depth : Nat)
    (s : Text) :
    balancedFrom depth (c :: s) = balancedFrom depth s := by
  rcases hPlain with ⟨hEscape, hOpen, hClose⟩
  rw [balancedFrom] <;> simp_all

theorem pairedFrom_cons_of_isPlain
    (hPlain : IsPlain c)
    (depth : Nat)
    (s : Text) :
    pairedFrom depth (c :: s) = pairedFrom depth s := by
  rcases hPlain with ⟨hEscape, hOpen, hClose⟩
  rw [pairedFrom] <;> simp_all

theorem readGroupFrom_cons_of_isPlain
    (hPlain : IsPlain c)
    (depth : Nat)
    (s : Text) :
    readGroupFrom depth (c :: s) =
      (readGroupFrom depth s).map
        fun (content, after) => (c :: content, after) := by
  rcases hPlain with ⟨hEscape, hOpen, hClose⟩
  rw [readGroupFrom] <;> simp_all

end Steps

/- Whatever scans a text for braces takes the same steps. -/
structure IsScan
    {α : Type}
    (scan : Nat → Text → α) :
    Prop where
  escape :
    ∀ depth c s,
      scan depth ('\\' :: c :: s) = scan depth s
  opening :
    ∀ depth s, scan depth ('\x7b' :: s) = scan (depth + 1) s
  closing :
    ∀ depth s, scan (depth + 1) ('\x7d' :: s) = scan depth s
  plain :
    ∀ depth c s, IsPlain c →
      scan depth (c :: s) = scan depth s

theorem isScan_balancedFrom :
    IsScan balancedFrom where
  escape _ _ _ := rfl
  opening _ _ := rfl
  closing _ _ := rfl
  plain _ _ _ hPlain :=
    balancedFrom_cons_of_isPlain hPlain _ _

theorem isScan_pairedFrom :
    IsScan pairedFrom where
  escape _ _ _ := rfl
  opening _ _ := rfl
  closing _ _ := rfl
  plain _ _ _ hPlain :=
    pairedFrom_cons_of_isPlain hPlain _ _

theorem isScan_afterGroup? :
    IsScan afterGroup? where
  escape _ _ _ := by
    simp [afterGroup?, readGroupFrom, Function.comp_def]
  opening _ _ := by
    simp [afterGroup?, readGroupFrom, Function.comp_def]
  closing _ _ := by
    simp [afterGroup?, readGroupFrom, Function.comp_def]
  plain _ _ _ hPlain := by
    simp [afterGroup?, readGroupFrom_cons_of_isPlain hPlain,
      Function.comp_def]

------------------------------------------------------------
-- Shielded Texts
------------------------------------------------------------

/- A text begins with the opening brace of a group. -/
def OpensGroup
    (s : Text) :
    Prop :=
  s.head? = some '\x7b'

/- A group that is open stays so when text follows. -/
theorem opensGroup_append
    {s : Text}
    (hOpens : OpensGroup s)
    (t : Text) :
    OpensGroup (s ++ t) := by
  cases s with
  | nil => simp [OpensGroup] at hOpens
  | cons c rest => exact hOpens

/- A group that is left open by a cut was so before. -/
theorem opensGroup_of_trimEnd
    {s : Text}
    (hOpens : OpensGroup (trimEnd s)) :
    OpensGroup s := by
  cases s with
  | nil => exact hOpens
  | cons c rest =>
      rw [trimEnd_cons] at hOpens
      split at hOpens
      · simp [OpensGroup] at hOpens
      · exact hOpens

/-
  A text from which a backslash in front takes nothing that
  a scan for braces looks at.
-/
inductive Shielded : Text → Prop where
  | nil : Shielded []
  | plain {c : Char} {s : Text} :
      IsPlain c → Shielded (c :: s)
  | escape {c : Char} {s : Text} :
      IsPlain c → isBlank c = false →
        Shielded ('\\' :: c :: s)

/- Shielded text stays so before shielded text. -/
theorem Shielded.append
    {s t : Text}
    (hFirst : Shielded s)
    (hSecond : Shielded t) :
    Shielded (s ++ t) := by
  cases hFirst with
  | nil => exact hSecond
  | plain hPlain => exact .plain hPlain
  | escape hPlain hSolid => exact .escape hPlain hSolid

/- Shielded text stays so when its end is cut. -/
theorem Shielded.trimEnd
    {s : Text}
    (hShielded : Shielded s) :
    Shielded (Text.trimEnd s) := by
  cases hShielded with
  | nil => exact .nil
  | plain hPlain =>
      rw [trimEnd_cons]
      split
      · exact .nil
      · exact .plain hPlain
  | escape hPlain hSolid =>
      rw [trimEnd_cons_of_solid (by decide),
        trimEnd_cons_of_solid hSolid]
      exact .escape hPlain hSolid

/- Shielded text opens no group. -/
theorem Shielded.opensGroup_of_append
    {s t : Text}
    (hShielded : Shielded t)
    (hOpens : OpensGroup (s ++ t)) :
    OpensGroup s := by
  cases s with
  | nil =>
      cases hShielded with
      | nil => exact hOpens
      | plain hPlain =>
          exact absurd (Option.some.inj hOpens) hPlain.2.1
      | escape hPlain hSolid =>
          exact absurd (Option.some.inj hOpens) (by decide)
  | cons c rest => exact hOpens

------------------------------------------------------------
-- What Scans Pass Over
------------------------------------------------------------

section Scans

variable {α : Type} {scan : Nat → Text → α}

/- Balanced text is passed over by every scan. -/
theorem IsScan.append_of_balancedFrom
    (hScan : IsScan scan)
    {depth : Nat}
    {s : Text}
    (hBalanced : balancedFrom depth s = true)
    (outer : Nat)
    (after : Text) :
    scan (outer + depth) (s ++ after) = scan outer after := by
  induction depth, s using scan_induction with
  | nil depth =>
      have hDepth : depth = 0 := by
        simpa [balancedFrom] using hBalanced
      simp [hDepth]
  | bare depth => simp [balancedFrom] at hBalanced
  | escape depth c s ih =>
      rw [List.cons_append, List.cons_append, hScan.escape]
      exact ih hBalanced
  | opening depth s ih =>
      rw [List.cons_append, hScan.opening]
      exact ih hBalanced
  | stray s ih => simp [balancedFrom] at hBalanced
  | closing depth s ih =>
      rw [List.cons_append, ← Nat.add_assoc, hScan.closing]
      exact ih hBalanced
  | plain depth c s hPlain ih =>
      rw [balancedFrom_cons_of_isPlain hPlain] at hBalanced
      rw [List.cons_append, hScan.plain _ _ _ hPlain,
        ih hBalanced]

/- A whole group is passed over by every scan. -/
theorem IsScan.group_append
    (hScan : IsScan scan)
    {s : Text}
    (hBalanced : isBalanced s = true)
    (depth : Nat)
    (after : Text) :
    scan depth ('\x7b' :: s ++ '\x7d' :: after) =
      scan depth after := by
  rw [List.cons_append, hScan.opening,
    ← Nat.add_zero (depth + 1),
    hScan.append_of_balancedFrom hBalanced, hScan.closing]

/-
  A scan that takes no notice of a bare escape at the end
  takes no notice of a backslash before shielded text.
-/
theorem IsScan.escape_shielded
    (hScan : IsScan scan)
    (hBare :
      ∀ depth, scan depth ['\\'] = scan depth [])
    {s : Text}
    (hShielded : Shielded s)
    (depth : Nat) :
    scan depth ('\\' :: s) = scan depth s := by
  cases hShielded with
  | nil => exact hBare depth
  | plain hPlain =>
      rw [hScan.escape, hScan.plain _ _ _ hPlain]
  | escape hPlain hSolid =>
      rw [hScan.escape, hScan.plain _ _ _ hPlain,
        hScan.escape]

/-
  Paired text before shielded text is passed over by every
  scan that takes no notice of a bare escape at the end.
-/
theorem IsScan.append_of_pairedFrom
    (hScan : IsScan scan)
    (hBare :
      ∀ depth, scan depth ['\\'] = scan depth [])
    {depth : Nat}
    {s after : Text}
    (hPaired : pairedFrom depth s = true)
    (hShielded : Shielded after)
    (outer : Nat) :
    scan (outer + depth) (s ++ after) = scan outer after := by
  induction depth, s using scan_induction with
  | nil depth =>
      have hDepth : depth = 0 := by
        simpa [pairedFrom] using hPaired
      rw [hDepth, List.nil_append, Nat.add_zero]
  | bare depth =>
      have hDepth : depth = 0 := by
        simpa [pairedFrom] using hPaired
      rw [hDepth, Nat.add_zero]
      exact hScan.escape_shielded hBare hShielded outer
  | escape depth c s ih =>
      rw [List.cons_append, List.cons_append, hScan.escape]
      exact ih hPaired
  | opening depth s ih =>
      rw [List.cons_append, hScan.opening]
      exact ih hPaired
  | stray s ih => simp [pairedFrom] at hPaired
  | closing depth s ih =>
      rw [List.cons_append, ← Nat.add_assoc, hScan.closing]
      exact ih hPaired
  | plain depth c s hPlain ih =>
      rw [pairedFrom_cons_of_isPlain hPlain] at hPaired
      rw [List.cons_append, hScan.plain _ _ _ hPlain,
        ih hPaired]

end Scans

/- A backslash before shielded text leaves it balanced. -/
theorem balancedFrom_of_escape
    {depth : Nat}
    {s : Text}
    (hShielded : Shielded s)
    (hBalanced : balancedFrom depth ('\\' :: s) = true) :
    balancedFrom depth s = true := by
  cases hShielded with
  | nil => simp [balancedFrom] at hBalanced
  | plain hPlain =>
      rw [balancedFrom_cons_of_isPlain hPlain]
      exact hBalanced
  | escape hPlain hSolid =>
      rw [balancedFrom, balancedFrom_cons_of_isPlain hPlain]
        at hBalanced
      exact hBalanced

------------------------------------------------------------
-- Paired Texts
------------------------------------------------------------

/- Without braces only those that wait are left unpaired. -/
theorem pairedFrom_of_not_mem
    {s : Text}
    (hOpen : '\x7b' ∉ s)
    (hClose : '\x7d' ∉ s)
    (depth : Nat) :
    pairedFrom depth s = (depth == 0) := by
  induction depth, s using scan_induction with
  | nil depth => rfl
  | bare depth => rfl
  | escape depth c s ih =>
      simp only [List.mem_cons, not_or] at hOpen hClose
      exact ih hOpen.2.2 hClose.2.2
  | opening depth s ih => simp at hOpen
  | stray s ih => simp at hClose
  | closing depth s ih => simp at hClose
  | plain depth c s hPlain ih =>
      simp only [List.mem_cons, not_or] at hOpen hClose
      rw [pairedFrom_cons_of_isPlain hPlain]
      exact ih hOpen.2 hClose.2

/- Blanks in front do not matter to how braces pair up. -/
theorem pairedFrom_blank_append
    {blanks : Text}
    (hBlank : IsAllBlank blanks)
    (depth : Nat)
    (s : Text) :
    pairedFrom depth (blanks ++ s) = pairedFrom depth s := by
  induction blanks with
  | nil => rfl
  | cons c blanks ih =>
      have hPlain :=
        isPlain_of_isBlank (hBlank c (List.mem_cons_self ..))
      rw [List.cons_append,
        pairedFrom_cons_of_isPlain hPlain]
      exact ih fun d hMem =>
        hBlank d (List.mem_cons_of_mem c hMem)

/- Blanks at the end do not matter either. -/
theorem pairedFrom_append_blank
    {blanks : Text}
    (hBlank : IsAllBlank blanks)
    (depth : Nat)
    (s : Text) :
    pairedFrom depth (s ++ blanks) = pairedFrom depth s := by
  have hEmpty :
      ∀ depth, pairedFrom depth blanks =
        pairedFrom depth [] := by
    intro depth
    have hFront := pairedFrom_blank_append hBlank depth []
    rwa [List.append_nil] at hFront
  induction depth, s using scan_induction with
  | nil depth => exact hEmpty depth
  | bare depth =>
      -- The escape takes the first of the blanks, if any.
      cases blanks with
      | nil => rfl
      | cons c blanks =>
          have hPlain :=
            isPlain_of_isBlank
              (hBlank c (List.mem_cons_self ..))
          have hNext :=
            pairedFrom_cons_of_isPlain hPlain depth blanks
          exact hNext.symm.trans (hEmpty depth)
  | escape depth c s ih => exact ih
  | opening depth s ih => exact ih
  | stray s ih => rfl
  | closing depth s ih => exact ih
  | plain depth c s hPlain ih =>
      rw [List.cons_append, pairedFrom_cons_of_isPlain hPlain,
        pairedFrom_cons_of_isPlain hPlain, ih]

/- Trimming does not matter to how braces pair up. -/
@[simp] theorem pairedFrom_trim
    (depth : Nat)
    (s : Text) :
    pairedFrom depth (trim s) = pairedFrom depth s := by
  rcases exists_append_trim_append s with
    ⟨lead, tail, hLead, hTail, hSplit⟩
  calc
    pairedFrom depth (trim s) =
        pairedFrom depth (lead ++ trim s ++ tail) := by
      rw [pairedFrom_append_blank hTail,
        pairedFrom_blank_append hLead]
    _ = pairedFrom depth s := by rw [← hSplit]

end Text

end FormulaEditor
