import FormulaEditor.Proofs.Text.Scanning

/-
  This file proves how the reading and the writing of brace
  groups fit together: a group is read up to the closing
  brace that its writing has put, and braces that have
  partners already are written as they are.

  Key definitions include:
    * `Text.endsBare`
    * `Text.finished`

  Key theorems include:
    * `Text.readGroup_eq_some_iff`
    * `Text.isBalanced_escapeLone`
    * `Text.escapeLone_of_paired`
-/

namespace FormulaEditor

namespace Text

------------------------------------------------------------
-- Reading a Group
------------------------------------------------------------

/- A group is read up to the brace after balanced content. -/
theorem readGroupFrom_append
    {depth : Nat}
    {content : Text}
    (hBalanced : balancedFrom depth content = true)
    (after : Text) :
    readGroupFrom depth (content ++ '\x7d' :: after) =
      some (content, after) := by
  induction depth, content using scan_induction with
  | nil depth =>
      have hDepth : depth = 0 := by
        simpa [balancedFrom] using hBalanced
      subst hDepth
      rfl
  | bare depth => simp [balancedFrom] at hBalanced
  | escape depth c s ih =>
      simp [readGroupFrom, ih hBalanced]
  | opening depth s ih =>
      simp [readGroupFrom, ih hBalanced]
  | stray s ih => simp [balancedFrom] at hBalanced
  | closing depth s ih =>
      simp [readGroupFrom, ih hBalanced]
  | plain depth c s hPlain ih =>
      rw [balancedFrom_cons_of_isPlain hPlain] at hBalanced
      simp [readGroupFrom_cons_of_isPlain hPlain,
        ih hBalanced]

/- What a group has been read from, and its content. -/
theorem eq_of_readGroupFrom
    {depth : Nat}
    {s content after : Text}
    (hRead :
      readGroupFrom depth s = some (content, after)) :
    s = content ++ '\x7d' :: after ∧
      balancedFrom depth content = true := by
  induction depth, s using scan_induction
    generalizing content after with
  | nil depth => simp [readGroupFrom] at hRead
  | bare depth => simp [readGroupFrom] at hRead
  | escape depth c s ih =>
      rcases Option.map_eq_some_iff.mp hRead with
        ⟨⟨inner, left⟩, hInner, hEq⟩
      rcases Prod.mk.inj hEq with ⟨rfl, rfl⟩
      rcases ih hInner with ⟨rfl, hBalanced⟩
      exact ⟨rfl, hBalanced⟩
  | opening depth s ih =>
      rcases Option.map_eq_some_iff.mp hRead with
        ⟨⟨inner, left⟩, hInner, hEq⟩
      rcases Prod.mk.inj hEq with ⟨rfl, rfl⟩
      rcases ih hInner with ⟨rfl, hBalanced⟩
      exact ⟨rfl, hBalanced⟩
  | stray s ih =>
      rcases Prod.mk.inj (Option.some.inj hRead) with
        ⟨rfl, rfl⟩
      exact ⟨rfl, rfl⟩
  | closing depth s ih =>
      rcases Option.map_eq_some_iff.mp hRead with
        ⟨⟨inner, left⟩, hInner, hEq⟩
      rcases Prod.mk.inj hEq with ⟨rfl, rfl⟩
      rcases ih hInner with ⟨rfl, hBalanced⟩
      exact ⟨rfl, hBalanced⟩
  | plain depth c s hPlain ih =>
      rw [readGroupFrom_cons_of_isPlain hPlain] at hRead
      rcases Option.map_eq_some_iff.mp hRead with
        ⟨⟨inner, left⟩, hInner, hEq⟩
      rcases Prod.mk.inj hEq with ⟨rfl, rfl⟩
      rcases ih hInner with ⟨rfl, hBalanced⟩
      refine ⟨rfl, ?_⟩
      rwa [balancedFrom_cons_of_isPlain hPlain]

/-
  A group is read exactly when balanced content stands in
  front of a closing brace.
-/
theorem readGroup_eq_some_iff
    {s content after : Text} :
    readGroup s = some (content, after) ↔
      s = content ++ '\x7d' :: after ∧
        isBalanced content = true := by
  constructor
  · exact eq_of_readGroupFrom
  · rintro ⟨rfl, hBalanced⟩
    exact readGroupFrom_append hBalanced after

------------------------------------------------------------
-- Bare Escapes
------------------------------------------------------------

/- A text leaves an escape without its character. -/
def endsBare : Text → Bool
  | [] => false
  | ['\\'] => true
  | '\\' :: _ :: rest => endsBare rest
  | _ :: rest => endsBare rest

/- A text with a space for an escape that it leaves bare. -/
def finished
    (s : Text) :
    Text :=
  if endsBare s then s ++ [' '] else s

section Steps

variable {c : Char}

theorem escapeLoneFrom_cons_of_isPlain
    (hPlain : IsPlain c)
    (depth : Nat)
    (s : Text) :
    escapeLoneFrom depth (c :: s) =
      (c :: (escapeLoneFrom depth s).1,
        (escapeLoneFrom depth s).2) := by
  rcases hPlain with ⟨hEscape, hOpen, hClose⟩
  rw [escapeLoneFrom] <;> simp_all

/- An opening brace waits for what is written after it. -/
theorem escapeLoneFrom_open
    (depth : Nat)
    (s : Text) :
    escapeLoneFrom depth ('\x7b' :: s) =
      match escapeLoneFrom (depth + 1) s with
      | (written, 0) => ('\\' :: '\x7b' :: written, 0)
      | (written, closing + 1) =>
          ('\x7b' :: written, closing) :=
  rfl

theorem escapeLoneFrom_close
    (depth : Nat)
    (s : Text) :
    escapeLoneFrom (depth + 1) ('\x7d' :: s) =
      ('\x7d' :: (escapeLoneFrom depth s).1,
        (escapeLoneFrom depth s).2 + 1) :=
  rfl

theorem endsBare_cons_of_ne
    (hEscape : c ≠ '\\')
    (s : Text) :
    endsBare (c :: s) = endsBare s := by
  rw [endsBare] <;> simp_all

theorem finished_cons_of_ne
    (hEscape : c ≠ '\\')
    (s : Text) :
    finished (c :: s) = c :: finished s := by
  simp only [finished, endsBare_cons_of_ne hEscape]
  split <;> rfl

theorem finished_escape_cons
    (c : Char)
    (s : Text) :
    finished ('\\' :: c :: s) = '\\' :: c :: finished s := by
  simp only [finished, endsBare]
  split <;> rfl

end Steps

------------------------------------------------------------
-- Writing a Group
------------------------------------------------------------

/- No more braces close than are open. -/
theorem escapeLoneFrom_snd_le
    (depth : Nat)
    (s : Text) :
    (escapeLoneFrom depth s).2 ≤ depth := by
  induction depth, s using scan_induction with
  | nil depth => exact Nat.zero_le _
  | bare depth => exact Nat.zero_le _
  | escape depth c s ih => exact ih
  | opening depth s ih =>
      rw [escapeLoneFrom_open]
      split
      · exact Nat.zero_le _
      · next closing hWritten =>
          rw [hWritten] at ih
          exact Nat.le_of_succ_le_succ ih
  | stray s ih => exact ih
  | closing depth s ih => exact Nat.succ_le_succ ih
  | plain depth c s hPlain ih =>
      rw [escapeLoneFrom_cons_of_isPlain hPlain]
      exact ih

/- Once its lone braces are escaped, a text is balanced. -/
theorem balancedFrom_escapeLoneFrom
    (depth : Nat)
    (s : Text) :
    balancedFrom (escapeLoneFrom depth s).2
      (escapeLoneFrom depth s).1 = true := by
  induction depth, s using scan_induction with
  | nil depth => rfl
  | bare depth => rfl
  | escape depth c s ih => exact ih
  | opening depth s ih =>
      rw [escapeLoneFrom_open]
      split
      · next written hWritten =>
          rw [hWritten] at ih
          exact ih
      · next written closing hWritten =>
          rw [hWritten] at ih
          exact ih
  | stray s ih => exact ih
  | closing depth s ih => exact ih
  | plain depth c s hPlain ih =>
      rw [escapeLoneFrom_cons_of_isPlain hPlain]
      simpa [balancedFrom_cons_of_isPlain hPlain] using ih

/- What is written into a group is always balanced. -/
theorem isBalanced_escapeLone
    (s : Text) :
    isBalanced (escapeLone s) = true := by
  have hClosing : (escapeLoneFrom 0 s).2 = 0 :=
    Nat.le_zero.mp (escapeLoneFrom_snd_le 0 s)
  have hBalanced := balancedFrom_escapeLoneFrom 0 s
  rwa [hClosing] at hBalanced

/- Only what escapes a brace or ends an escape is new. -/
theorem mem_escapeLoneFrom
    {c : Char}
    {depth : Nat}
    {s : Text}
    (hMem : c ∈ (escapeLoneFrom depth s).1) :
    c ∈ s ∨ c = '\\' ∨ c = ' ' := by
  induction depth, s using scan_induction with
  | nil depth => simp [escapeLoneFrom] at hMem
  | bare depth =>
      simp only [escapeLoneFrom, List.mem_cons] at hMem
      grind
  | escape depth d s ih =>
      simp only [escapeLoneFrom, List.mem_cons] at hMem
      grind
  | opening depth s ih =>
      rw [escapeLoneFrom_open] at hMem
      split at hMem <;> grind
  | stray s ih =>
      simp only [escapeLoneFrom, List.mem_cons] at hMem
      grind
  | closing depth s ih =>
      rw [escapeLoneFrom_close] at hMem
      grind
  | plain depth d s hPlain ih =>
      rw [escapeLoneFrom_cons_of_isPlain hPlain] at hMem
      grind

/- Braces that are paired already are written as they are. -/
theorem escapeLoneFrom_of_paired
    {depth : Nat}
    {s : Text}
    (hPaired : pairedFrom depth s = true) :
    escapeLoneFrom depth s = (finished s, depth) := by
  induction depth, s using scan_induction with
  | nil depth =>
      have hDepth : depth = 0 := by
        simpa [pairedFrom] using hPaired
      subst hDepth
      rfl
  | bare depth =>
      have hDepth : depth = 0 := by
        simpa [pairedFrom] using hPaired
      subst hDepth
      rfl
  | escape depth c s ih =>
      simp [escapeLoneFrom, ih hPaired, finished_escape_cons]
  | opening depth s ih =>
      rw [escapeLoneFrom_open, ih hPaired,
        finished_cons_of_ne (by decide)]
  | stray s ih => simp [pairedFrom] at hPaired
  | closing depth s ih =>
      rw [escapeLoneFrom_close, ih hPaired,
        finished_cons_of_ne (by decide)]
  | plain depth c s hPlain ih =>
      rw [pairedFrom_cons_of_isPlain hPlain] at hPaired
      rw [escapeLoneFrom_cons_of_isPlain hPlain, ih hPaired,
        finished_cons_of_ne hPlain.1]

/-
  A text with paired braces goes into a group as it is, but
  for a space after an escape that it leaves bare.
-/
theorem escapeLone_of_paired
    {s : Text}
    (hPaired : pairedFrom 0 s = true) :
    escapeLone s = finished s := by
  rw [escapeLone, escapeLoneFrom_of_paired hPaired]

/- A balanced text is paired, and leaves no escape bare. -/
theorem pairedFrom_of_balancedFrom
    {depth : Nat}
    {s : Text}
    (hBalanced : balancedFrom depth s = true) :
    pairedFrom depth s = true := by
  induction depth, s using scan_induction with
  | nil depth => exact hBalanced
  | bare depth => simp [balancedFrom] at hBalanced
  | escape depth c s ih => exact ih hBalanced
  | opening depth s ih => exact ih hBalanced
  | stray s ih => simp [balancedFrom] at hBalanced
  | closing depth s ih => exact ih hBalanced
  | plain depth c s hPlain ih =>
      rw [balancedFrom_cons_of_isPlain hPlain] at hBalanced
      rw [pairedFrom_cons_of_isPlain hPlain]
      exact ih hBalanced

/- A space after a bare escape is cut again as a blank. -/
theorem trim_finished_trim
    (s : Text) :
    trim (finished (trim s)) = trim s := by
  unfold finished
  split
  · have hSolid := startsSolid_trim s
    have hNe : trim s ≠ [] := by
      intro hNil
      simp_all [endsBare]
    rw [trim,
      trimStart_of_startsSolid
        (startsSolid_append hSolid hNe [' ']),
      trimEnd_append_of_eq_nil _ (by decide), trimEnd_trim]
  · exact trim_trim s

end Text

end FormulaEditor
