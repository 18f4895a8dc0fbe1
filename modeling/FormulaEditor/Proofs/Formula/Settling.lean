import FormulaEditor.Proofs.Formula.Agreement
import FormulaEditor.Proofs.Formula.Rereading

/-
  This file proves when reading a text that has been written
  leads back to the same rows, and that the text is settled
  or has fewer placeholders when it is written again.

  Key definitions include:
    * `Row.settled`

  Key theorems include:
    * `ofText_cut_canonical_eq_iff`
    * `cut_canonical_eq_or_lt`
    * `settled_of_placeholderCount_eq_zero`
-/

namespace FormulaEditor

open Text

------------------------------------------------------------
-- Settled Rows
------------------------------------------------------------

variable {ι : Type}

mutual

/-
  Whether all runs under a node are settled.  The rows of a
  construct are cut at both ends.
-/
def Node.settled
    (start stop : Bool) :
    Node ι → Bool
  | .text run => isSettled start stop run
  | .construct _ _ first second =>
      Row.settled true true first &&
        Row.settled true true second
  | .continuation _ _ => true

/-
  Whether all runs of a row are settled when the row is cut
  at the chosen ends.
-/
def Row.settled
    (start stop : Bool) :
    Row ι → Bool
  | [] => true
  | node :: rest =>
      node.settled start (stop && rest.isEmpty) &&
        Row.settled false stop rest

end

mutual

/- Identities do not matter to whether a node is settled. -/
theorem Node.settled_number
    (start stop : Bool)
    (next : Identity) :
    ∀ node : Node ι,
      (node.number next).settled start stop =
        node.settled start stop
  | .text _ => rfl
  | .construct _ _ first second => by
      simp only [Node.number, Node.settled,
        Row.settled_number true true _ first,
        Row.settled_number true true _ second]
  | .continuation _ _ => rfl

/- Identities do not matter to whether a row is settled. -/
theorem Row.settled_number
    (start stop : Bool)
    (next : Identity) :
    ∀ row : Row ι,
      (Row.number next row).settled start stop =
        row.settled start stop
  | [] => rfl
  | node :: rest => by
      have hEmpty :
          (Row.number (next + node.ids.length) rest).isEmpty =
            rest.isEmpty := by
        cases rest <;> rfl
      simp only [Row.number, Row.settled, hEmpty,
        Node.settled_number start _ next node,
        Row.settled_number false stop _ rest]

end

/- A plain text is settled as its run is. -/
theorem settled_ofPlain
    (start stop : Bool)
    (s : Text) :
    (Row.ofPlain s).settled start stop =
      isSettled start stop (dropPlaceholders s) := by
  unfold Row.ofPlain
  split
  · next hNil => rw [hNil]; rfl
  · next hCons =>
      simp [hCons, Row.settled, Node.settled]

/- A row is settled part by part around a construct. -/
theorem settled_ofPlain_append
    (start stop : Bool)
    (s : Text)
    (kind : Kind)
    (first second rest : Row Unit) :
    (Row.ofPlain s ++
        .construct kind () first second :: rest).settled
        start stop =
      (isSettled start false (dropPlaceholders s) &&
        (first.settled true true && second.settled true true &&
          rest.settled false stop)) := by
  unfold Row.ofPlain
  split
  · next hNil => rw [hNil]; rfl
  · next hCons =>
      simp [hCons, Row.settled, Node.settled]

------------------------------------------------------------
-- Rows That Are Read Again
------------------------------------------------------------

/- Plain texts are read alike if the same is left of them. -/
theorem ofPlain_eq_iff
    {s t : Text} :
    Row.ofPlain s = Row.ofPlain t ↔
      dropPlaceholders s = dropPlaceholders t := by
  unfold Row.ofPlain
  cases dropPlaceholders s <;> cases dropPlaceholders t <;>
    simp

/- Rows are the same part by part around a construct. -/
theorem ofPlain_append_eq_iff
    {s t : Text}
    {kind : Kind}
    {first second rest first' second' rest' : Row Unit} :
    Row.ofPlain s ++
          .construct kind () first second :: rest =
        Row.ofPlain t ++
          .construct kind () first' second' :: rest' ↔
      dropPlaceholders s = dropPlaceholders t ∧
        first = first' ∧ second = second' ∧ rest = rest' := by
  unfold Row.ofPlain
  cases dropPlaceholders s <;> cases dropPlaceholders t <;>
    simp [and_assoc]

/-
  Reading a text that has been written leads back to the
  same row exactly if that row is settled.
-/
theorem ofText_cut_canonical_eq_iff
    (s : Text)
    (start stop : Bool) :
    Row.ofText (cut start stop (canonical s)) =
        Row.ofText s ↔
      (Row.ofText s).settled start stop = true := by
  induction s using Row.reading_induction
    generalizing start stop with
  | plain s hNone =>
      rw [ofText_cut_canonical_of_none hNone,
        Row.ofText_of_none hNone, ofPlain_eq_iff,
        settled_ofPlain, dropPlaceholders_cut_eq_iff]
  | construct s before spelled hFirst
      ihFirst ihSecond ihRest =>
      have hFirstRow := ihFirst true true
      have hSecondRow := ihSecond true true
      have hRestRow := ihRest false stop
      rw [cut_true_true] at hFirstRow hSecondRow
      rw [ofText_cut_canonical_of_some hFirst,
        Row.ofText_of_some hFirst, ofPlain_append_eq_iff,
        settled_ofPlain_append, Bool.and_eq_true,
        Bool.and_eq_true, Bool.and_eq_true,
        ← hFirstRow, ← hSecondRow, ← hRestRow,
        dropPlaceholders_cut_eq_iff, and_assoc]
      rfl

------------------------------------------------------------
-- Counting Placeholders
------------------------------------------------------------

/- Escaping braces adds no placeholder and takes none. -/
theorem placeholderCount_escapeLoneFrom
    (depth : Nat)
    (s : Text) :
    placeholderCount (escapeLoneFrom depth s).1 =
      placeholderCount s := by
  have hEscape : isPlaceholder '\\' = false := by decide
  have hOpen : isPlaceholder '\x7b' = false := by decide
  have hClose : isPlaceholder '\x7d' = false := by decide
  induction depth, s using scan_induction with
  | nil depth => rfl
  | bare depth => rfl
  | escape depth c s ih =>
      simp only [escapeLoneFrom, placeholderCount_cons, ih]
  | opening depth s ih =>
      rw [escapeLoneFrom_open]
      split
      · next written hWritten =>
          rw [hWritten] at ih
          simp only [placeholderCount_cons, ih, hEscape, hOpen]
          simp
      · next written closing hWritten =>
          rw [hWritten] at ih
          simp only [placeholderCount_cons, ih]
  | stray s ih =>
      simp only [escapeLoneFrom, placeholderCount_cons, ih,
        hEscape, hClose]
      simp
  | closing depth s ih =>
      rw [escapeLoneFrom_close]
      simp only [placeholderCount_cons, ih]
  | plain depth c s hPlain ih =>
      rw [escapeLoneFrom_cons_of_isPlain hPlain]
      simp only [placeholderCount_cons, ih]

/- A group has the placeholders of its content. -/
theorem placeholderCount_escapeLone
    (s : Text) :
    placeholderCount (escapeLone s) = placeholderCount s :=
  placeholderCount_escapeLoneFrom 0 s

/- A construct has the placeholders of its trimmed rows. -/
theorem placeholderCount_write
    (kind : Kind)
    (first second : Text) :
    placeholderCount (kind.write first second) =
      placeholderCount (trim first) +
        placeholderCount (trim second) := by
  have hOpen : isPlaceholder '\x7b' = false := by decide
  have hClose : isPlaceholder '\x7d' = false := by decide
  have hSpace : isPlaceholder ' ' = false := by decide
  cases kind with
  | fraction =>
      have hCommand :
          placeholderCount Kind.fraction.command = 0 := by
        decide
      simp [Kind.write, group, placeholderCount_cons,
        placeholderCount_escapeLone, hOpen, hClose,
        hCommand]
  | limit =>
      have hCommand :
          placeholderCount Kind.limit.command = 0 := by
        decide
      simp [Kind.write, group, placeholderCount_cons,
        placeholderCount_escapeLone, hOpen, hClose,
        hSpace, hCommand]

/- A gap has no placeholder. -/
theorem placeholderCount_of_isGap
    {gap : Text}
    (hGap : ∀ c ∈ gap, isGap c = true) :
    placeholderCount gap = 0 := by
  rw [placeholderCount, List.countP_eq_zero]
  intro c hMem
  have hChar := hGap c hMem
  simp only [isGap, Bool.or_eq_true, beq_iff_eq] at hChar
  rcases hChar with rfl | rfl <;> decide

/- All placeholders of a construct are in its three parts. -/
theorem placeholderCount_of_spells
    {s : Text}
    {spelled : Spelled}
    (hSpells : Spells s spelled) :
    placeholderCount s =
      placeholderCount spelled.first +
        placeholderCount spelled.second +
        placeholderCount spelled.rest := by
  have hOpen : isPlaceholder '\x7b' = false := by decide
  have hClose : isPlaceholder '\x7d' = false := by decide
  cases hSpells with
  | fraction =>
      have hCommand :
          placeholderCount Kind.fraction.command = 0 := by
        decide
      simp [placeholderCount_cons, hOpen, hClose, hCommand,
        Nat.add_assoc]
  | limit _ hGap =>
      have hCommand :
          placeholderCount Kind.limit.command = 0 := by
        decide
      simp [placeholderCount_cons, hOpen, hClose, hCommand,
        placeholderCount_of_isGap hGap, Nat.add_assoc]

/- Writing again never adds a placeholder. -/
theorem placeholderCount_canonical_le
    (s : Text) :
    placeholderCount (canonical s) ≤ placeholderCount s :=
  (tidied_canonical s).cleaned.placeholderCount_le

------------------------------------------------------------
-- Texts That Are Written Again
------------------------------------------------------------

/- Only the trimmed rows of a construct are written. -/
theorem write_trim
    (kind : Kind)
    (first second : Text) :
    kind.write (trim first) (trim second) =
      kind.write first second := by
  cases kind <;> simp [Kind.write, group]

/-
  A text without a construct is settled, or has a
  placeholder less once it is written.
-/
theorem cut_dropPlaceholders_eq_or_lt
    (start stop : Bool)
    (s : Text) :
    cut start stop (dropPlaceholders (cut start stop s)) =
        cut start stop s ∨
      placeholderCount (dropPlaceholders (cut start stop s)) <
        placeholderCount (cut start stop s) := by
  rcases dropPlaceholders_eq_or_lt (cut start stop s) with
    hSame | hLess
  · left
    rw [hSame, cut_cut]
  · exact .inr hLess

section Written

variable {s before : Text} {spelled : Spelled}

/- A text that has been written, with its ends cut. -/
theorem cut_canonical_of_some
    (hFirst : firstSpelled? s = some (before, spelled))
    (start stop : Bool) :
    cut start stop (canonical s) =
      cut start false (dropPlaceholders before) ++
        cutEnd stop
          (spelled.kind.write
              (canonical (trim spelled.first))
              (canonical (trim spelled.second)) ++
            canonical spelled.rest) := by
  rw [canonical_of_some hFirst, cut_append_write]

/- What is written of a text that has been written. -/
theorem canonical_cut_canonical_of_some
    (hFirst : firstSpelled? s = some (before, spelled))
    (start stop : Bool) :
    canonical (cut start stop (canonical s)) =
      dropPlaceholders
          (cut start false (dropPlaceholders before)) ++
        (spelled.kind.write
            (canonical (trim (canonical (trim spelled.first))))
            (canonical
              (trim (canonical (trim spelled.second)))) ++
          canonical (cutEnd stop (canonical spelled.rest))) := by
  rcases firstSpelled?_eq_some_iff.mp hFirst with
    ⟨t, _, hSpells, _⟩
  rw [canonical_of_some
    (firstSpelled?_cut_canonical hFirst start stop),
    trim_rewritten_first hSpells,
    trim_rewritten_second hSpells]
  rfl

/- The second row is written without its outer blanks. -/
theorem placeholderCount_writeSecond
    (kind : Kind)
    (second : Text) :
    placeholderCount (kind.writeSecond second) =
      placeholderCount (trim second) := by
  cases kind with
  | fraction => exact placeholderCount_escapeLone _
  | limit => rfl

/- All placeholders of a text that has been written. -/
theorem placeholderCount_cut_canonical
    (hFirst : firstSpelled? s = some (before, spelled))
    (start stop : Bool) :
    placeholderCount (cut start stop (canonical s)) =
      placeholderCount
          (cut start false (dropPlaceholders before)) +
        (placeholderCount
            (trim (canonical (trim spelled.first))) +
          placeholderCount
            (trim (canonical (trim spelled.second))) +
          placeholderCount
            (cutEnd stop (canonical spelled.rest))) := by
  have hAgain := firstSpelled?_cut_canonical hFirst start stop
  rcases firstSpelled?_eq_some_iff.mp hAgain with
    ⟨t, hSplit, hSpells, _⟩
  rw [hSplit, placeholderCount_append,
    placeholderCount_of_spells hSpells]
  simp only [Spelled.rewritten, placeholderCount_escapeLone,
    placeholderCount_writeSecond]

end Written

/- A construct is settled when all of its parts are. -/
theorem cut_write_eq
    {start stop : Bool}
    {kind : Kind}
    {before first second rest : Text}
    (hBefore :
      cut start false (dropPlaceholders before) = before)
    (hFirst : trim (canonical (trim first)) = trim first)
    (hSecond : trim (canonical (trim second)) = trim second)
    (hRest :
      cutEnd stop (canonical (cutEnd stop rest)) =
        cutEnd stop rest) :
    cut start stop
        (dropPlaceholders before ++
          (kind.write (canonical (trim first))
              (canonical (trim second)) ++
            canonical (cutEnd stop rest))) =
      before ++
        cutEnd stop (kind.write first second ++ rest) := by
  have hWrite :
      kind.write (canonical (trim first))
          (canonical (trim second)) =
        kind.write first second := by
    rw [← write_trim, hFirst, hSecond, write_trim]
  rw [cut_append_write, hBefore, hWrite,
    ← cutEnd_append_cutEnd, hRest, cutEnd_append_cutEnd]

/- Trimming what is written again adds no placeholder. -/
theorem placeholderCount_trim_canonical_le
    (s : Text) :
    placeholderCount (trim (canonical s)) ≤
      placeholderCount (canonical s) :=
  placeholderCount_cut_le true true (canonical s)

/-
  A construct is settled, or has fewer placeholders once it
  is written again, if this is so of all of its parts.
-/
theorem cut_write_eq_or_lt
    {start stop : Bool}
    {kind : Kind}
    {before first second rest : Text}
    (hBefore :
      cut start false (dropPlaceholders before) = before ∨
        placeholderCount (dropPlaceholders before) <
          placeholderCount before)
    (hFirst :
      trim (canonical (trim first)) = trim first ∨
        placeholderCount (canonical (trim first)) <
          placeholderCount (trim first))
    (hSecond :
      trim (canonical (trim second)) = trim second ∨
        placeholderCount (canonical (trim second)) <
          placeholderCount (trim second))
    (hRest :
      cutEnd stop (canonical (cutEnd stop rest)) =
          cutEnd stop rest ∨
        placeholderCount (canonical (cutEnd stop rest)) <
          placeholderCount (cutEnd stop rest)) :
    cut start stop
          (dropPlaceholders before ++
            (kind.write (canonical (trim first))
                (canonical (trim second)) ++
              canonical (cutEnd stop rest))) =
        before ++
          cutEnd stop (kind.write first second ++ rest) ∨
      placeholderCount
          (dropPlaceholders before ++
            (kind.write (canonical (trim first))
                (canonical (trim second)) ++
              canonical (cutEnd stop rest))) <
        placeholderCount before +
          (placeholderCount (trim first) +
            placeholderCount (trim second) +
            placeholderCount (cutEnd stop rest)) := by
  rw [placeholderCount_append, placeholderCount_append,
    placeholderCount_write]
  -- No part has more placeholders than before.
  have hLeFirst := placeholderCount_canonical_le (trim first)
  have hLeSecond :=
    placeholderCount_canonical_le (trim second)
  have hLeRest :=
    placeholderCount_canonical_le (cutEnd stop rest)
  have hTrimFirst :=
    placeholderCount_trim_canonical_le (trim first)
  have hTrimSecond :=
    placeholderCount_trim_canonical_le (trim second)
  have hLeBefore :
      placeholderCount (dropPlaceholders before) ≤
        placeholderCount before := by
    rcases dropPlaceholders_eq_or_lt before with hSame | hLess
    · rw [hSame]
    · exact Nat.le_of_lt hLess
  rcases hBefore with hBefore | hLess
  · rcases hFirst with hFirst | hLess
    · rcases hSecond with hSecond | hLess
      · rcases hRest with hRest | hLess
        · left
          exact cut_write_eq hBefore hFirst hSecond hRest
        · right
          omega
      · right
        omega
    · right
      omega
  · right
    omega

/-
  A text that has been written is settled, or has fewer
  placeholders once it is written again.
-/
theorem cut_canonical_eq_or_lt
    (s : Text)
    (start stop : Bool) :
    cut start stop
          (canonical (cut start stop (canonical s))) =
        cut start stop (canonical s) ∨
      placeholderCount
          (canonical (cut start stop (canonical s))) <
        placeholderCount (cut start stop (canonical s)) := by
  induction s using Row.reading_induction
    generalizing start stop with
  | plain s hNone =>
      have hAgain := firstSpelled?_cut_of_none hNone start stop
      rw [canonical_of_none hNone, canonical_of_none hAgain]
      exact cut_dropPlaceholders_eq_or_lt start stop _
  | construct s before spelled hFirst
      ihFirst ihSecond ihRest =>
      have hBefore :=
        cut_dropPlaceholders_eq_or_lt start false
          (dropPlaceholders before)
      rw [canonical_cut_canonical_of_some hFirst,
        placeholderCount_cut_canonical hFirst,
        cut_canonical_of_some hFirst]
      exact cut_write_eq_or_lt hBefore (ihFirst true true)
        (ihSecond true true) (ihRest false stop)

------------------------------------------------------------
-- Texts Without Placeholders
------------------------------------------------------------

/- A construct starts with a solid character. -/
theorem cut_append_of_spells
    {s : Text}
    {spelled : Spelled}
    (hSpells : Spells s spelled)
    (start stop : Bool)
    (before : Text) :
    cut start stop (before ++ s) =
      cut start false before ++ cutEnd stop s := by
  have hHead := head?_of_spells hSpells
  cases s with
  | nil => cases hHead
  | cons c rest =>
      rcases Option.some.inj hHead with rfl
      apply cut_append_of_startsSolid
      · intro d hMem
        rcases Option.some.inj hMem with rfl
        decide
      · rw [trimEnd_cons_of_solid (by decide)]
        exact List.cons_ne_nil _ _

/- Shortened parts that make up the whole are the parts. -/
theorem eq_and_eq_of_append_eq
    {s s' t t' : Text}
    (hFirst : s.Sublist s')
    (hSecond : t.Sublist t')
    (hAppend : s ++ t = s' ++ t') :
    s = s' ∧ t = t' := by
  have hLength := congrArg List.length hAppend
  have hLengthFirst := hFirst.length_le
  have hLengthSecond := hSecond.length_le
  simp only [List.length_append] at hLength
  constructor
  · apply hFirst.eq_of_length_le
    omega
  · apply hSecond.eq_of_length_le
    omega

/- What follows a construct is the end of its text. -/
theorem exists_append_rest
    {s : Text}
    {spelled : Spelled}
    (hSpells : Spells s spelled) :
    ∃ head, s = head ++ spelled.rest := by
  cases hSpells with
  | @fraction first second rest =>
      refine ⟨Kind.fraction.command ++
        ('\x7b' :: first ++ '\x7d' ::
          ('\x7b' :: second ++ ['\x7d'])), ?_⟩
      simp
  | @limit subscript gap line rest =>
      refine ⟨Kind.limit.command ++
        ('\x7b' :: subscript ++ '\x7d' :: (gap ++ line)), ?_⟩
      simp

/- The end of a text is kept if the whole text is. -/
theorem cutEnd_eq_of_append
    {stop : Bool}
    {head s : Text}
    (hKept : cutEnd stop (head ++ s) = head ++ s) :
    cutEnd stop s = s := by
  cases s with
  | nil => cases stop <;> rfl
  | cons c rest =>
      rw [cutEnd_eq_iff, List.getLast?_append,
        List.getLast?_cons, Option.some_or] at hKept
      rwa [cutEnd_eq_iff, List.getLast?_cons]

/- Without placeholders and outer blanks all is settled. -/
theorem settled_of_placeholderCount_eq_zero
    {s : Text}
    (hNone : placeholderCount s = 0)
    {start stop : Bool}
    (hCut : cut start stop s = s) :
    (Row.ofText s).settled start stop = true := by
  induction s using Row.reading_induction
    generalizing start stop with
  | plain s hPlain =>
      rw [Row.ofText_of_none hPlain, settled_ofPlain,
        dropPlaceholders_of_placeholderCount_eq_zero hNone,
        ← dropPlaceholders_cut_eq_iff, hCut]
      exact dropPlaceholders_of_placeholderCount_eq_zero hNone
  | construct s before spelled hFirst
      ihFirst ihSecond ihRest =>
      rcases firstSpelled?_eq_some_iff.mp hFirst with
        ⟨t, rfl, hSpells, _⟩
      rw [placeholderCount_append,
        placeholderCount_of_spells hSpells] at hNone
      rw [cut_append_of_spells hSpells] at hCut
      rcases eq_and_eq_of_append_eq
          (cutStart_sublist start before)
          (cutEnd_sublist stop t) hCut with
        ⟨hCutBefore, hCutAfter⟩
      rcases exists_append_rest hSpells with ⟨head, rfl⟩
      have hTrim :
          ∀ u, placeholderCount u = 0 →
            placeholderCount (trim u) = 0 := by
        intro u hZero
        have hLe := placeholderCount_cut_le true true u
        rw [cut_true_true] at hLe
        omega
      have hBefore : placeholderCount before = 0 := by omega
      have hSettled :
          isSettled start false before = true := by
        rw [← dropPlaceholders_cut_eq_iff]
        change dropPlaceholders (cutStart start before) = before
        rw [hCutBefore]
        exact dropPlaceholders_of_placeholderCount_eq_zero
          hBefore
      have hFirstRow :
          (Row.ofText (trim spelled.first)).settled true true =
            true :=
        ihFirst (hTrim _ (by omega)) (trim_trim _)
      have hSecondRow :
          (Row.ofText (trim spelled.second)).settled true
              true =
            true :=
        ihSecond (hTrim _ (by omega)) (trim_trim _)
      have hRestRow :
          (Row.ofText spelled.rest).settled false stop = true :=
        ihRest (by omega) (cutEnd_eq_of_append hCutAfter)
      rw [Row.ofText_of_some hFirst, settled_ofPlain_append,
        dropPlaceholders_of_placeholderCount_eq_zero hBefore,
        hSettled, hFirstRow, hSecondRow, hRestRow]
      rfl

end FormulaEditor
