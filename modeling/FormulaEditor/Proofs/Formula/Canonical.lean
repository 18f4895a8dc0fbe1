import FormulaEditor.Document.Basic
import FormulaEditor.Proofs.Formula.Numbering
import FormulaEditor.Proofs.Formula.Spelling
import FormulaEditor.Proofs.Text.Cutting

/-
  This file proves that a text is only tidied when it is
  read as a formula and the formula is written again.

  Key definitions include:
    * `Kind.write`
    * `Text.canonical`

  Key theorems include:
    * `Text.canonical_of_none`
    * `Text.canonical_of_some`
    * `Text.tidied_canonical`
-/

namespace FormulaEditor

------------------------------------------------------------
-- Writing
------------------------------------------------------------

/- How a construct is written around the texts of its rows. -/
def Kind.write : Kind → Text → Text → Text
  | .fraction, first, second =>
      Kind.fraction.command ++ Text.group first ++
        Text.group second
  | .limit, first, second =>
      Kind.limit.command ++ Text.group first ++
        ' ' :: Text.trim second

section Writing

variable {ι : Type}

@[simp] theorem toText_construct
    (kind : Kind)
    (id : ι)
    (first second : Row ι) :
    (Node.construct kind id first second).toText =
      kind.write (Row.toText first) (Row.toText second) := by
  cases kind <;> rfl

/- Rows are written one after the other. -/
@[simp] theorem toText_append
    (row other : Row ι) :
    Row.toText (row ++ other) =
      Row.toText row ++ Row.toText other := by
  induction row with
  | nil => rfl
  | cons node rest ih =>
      rw [List.cons_append, Row.toText, Row.toText, ih,
        List.append_assoc]

end Writing

mutual

/- Identities are not written. -/
theorem toText_numberNode
    {ι : Type}
    (next : Identity) :
    ∀ node : Node ι,
      (node.number next).toText = node.toText
  | .text _ => rfl
  | .construct _ _ first second => by
      rw [Node.number, toText_construct, toText_construct,
        toText_number _ first, toText_number _ second]
  | .continuation _ _ => rfl

/- Identities are not written. -/
theorem toText_number
    {ι : Type}
    (next : Identity) :
    ∀ row : Row ι,
      (Row.number next row).toText = Row.toText row
  | [] => rfl
  | node :: rest => by
      rw [Row.number, Row.toText, Row.toText,
        toText_numberNode next node, toText_number _ rest]

end

------------------------------------------------------------
-- Dropping Placeholders
------------------------------------------------------------

namespace Text

/- Text is tidied in front where placeholders are dropped. -/
theorem tidied_dropPlaceholders_append
    (before : Text)
    {s t : Text}
    (hShieldedS : Shielded s)
    (hShieldedT : Shielded t)
    (hTidied : Tidied s t) :
    Tidied (before ++ s) (dropPlaceholders before ++ t) := by
  rcases exists_append_dropPlaceholders_append before with
    ⟨lead, tail, hLead, hTail, hSplit⟩
  have hKept :=
    Tidied.kept_append (dropPlaceholders before) hTail
      hShieldedS hShieldedT hTidied
  have hWhole := Tidied.hidden_append hLead hKept
  rw [← List.append_assoc, ← List.append_assoc,
    List.append_assoc lead, ← hSplit] at hWhole
  exact hWhole

------------------------------------------------------------
-- Canonical Texts
------------------------------------------------------------

/- What a text is written as once it has been read. -/
def canonical
    (s : Text) :
    Text :=
  (Document.ofText s).toText

/- The identities of a document are not written. -/
theorem canonical_eq_toText
    (s : Text) :
    canonical s = (Row.ofText s).toText :=
  toText_number 0 (Row.ofText s)

/- A plain text is written without its placeholders. -/
theorem toText_ofPlain
    (s : Text) :
    (Row.ofPlain s).toText = dropPlaceholders s := by
  unfold Row.ofPlain
  split
  · next hNil => rw [hNil]; rfl
  · next hCons => simp [hCons, Row.toText, Node.toText]

theorem canonical_of_none
    {s : Text}
    (hNone : firstSpelled? s = none) :
    canonical s = dropPlaceholders s := by
  rw [canonical_eq_toText, Row.ofText_of_none hNone,
    toText_ofPlain]

theorem canonical_of_some
    {s before : Text}
    {spelled : Spelled}
    (hFirst : firstSpelled? s = some (before, spelled)) :
    canonical s =
      dropPlaceholders before ++
        (spelled.kind.write
            (canonical (trim spelled.first))
            (canonical (trim spelled.second)) ++
          canonical spelled.rest) := by
  simp only [canonical_eq_toText, Row.ofText_of_some hFirst,
    toText_append, toText_ofPlain, Row.toText,
    toText_construct]

------------------------------------------------------------
-- Line Starts
------------------------------------------------------------

/- Line breaks are no placeholders. -/
theorem not_isPlaceholder_of_isLineBreak
    {c : Char}
    (hBreak : isLineBreak c = true) :
    isPlaceholder c = false := by
  simp only [isLineBreak, Bool.or_eq_true, beq_iff_eq]
    at hBreak
  rcases hBreak with rfl | rfl <;> decide

/- A text that starts a line is shielded. -/
theorem shielded_of_startsLine
    {s : Text}
    (hLine : StartsLine s) :
    Shielded s := by
  cases s with
  | nil => exact .nil
  | cons c rest =>
      exact .plain
        (isPlain_of_isBlank
          (isBlank_of_isLineBreak (hLine c rfl)))

/- A line break in front is not dropped. -/
theorem exists_dropPlaceholders_cons
    {c : Char}
    (hBreak : isLineBreak c = true)
    (s : Text) :
    ∃ t, dropPlaceholders (c :: s) = c :: t := by
  have hKept := not_isPlaceholder_of_isLineBreak hBreak
  have hFirst : dropFirst (c :: s) = c :: s := by
    simp [dropFirst, hKept]
  rw [dropPlaceholders, hFirst]
  cases s with
  | nil => exact ⟨[], by simp [dropLastOne, dropFirst, hKept]⟩
  | cons d rest =>
      refine ⟨dropLastOne (d :: rest), ?_⟩
      exact dropLastOne_append [c] (by simp)

/- A construct starts with a backslash. -/
theorem head?_of_spells
    {s : Text}
    {spelled : Spelled}
    (hSpells : Spells s spelled) :
    s.head? = some '\\' := by
  cases hSpells <;> rfl

/- A text that starts a line is written so. -/
theorem startsLine_canonical
    {s : Text}
    (hLine : StartsLine s) :
    StartsLine (canonical s) := by
  cases s with
  | nil =>
      rw [canonical_of_none rfl]
      exact hLine
  | cons c rest =>
      have hBreak : isLineBreak c = true := hLine c rfl
      intro d hHead
      suffices hSame : c = d by rwa [← hSame]
      cases hFirst : firstSpelled? (c :: rest) with
      | none =>
          rcases exists_dropPlaceholders_cons hBreak rest with
            ⟨t, hKept⟩
          rw [canonical_of_none hFirst, hKept] at hHead
          exact Option.some.inj hHead
      | some found =>
          rcases found with ⟨before, spelled⟩
          rcases firstSpelled?_eq_some_iff.mp hFirst with
            ⟨t, hSplit, hSpells, _⟩
          cases before with
          | nil =>
              rw [List.nil_append] at hSplit
              have hEscape := head?_of_spells hSpells
              rw [← hSplit] at hEscape
              rcases Option.some.inj hEscape with rfl
              exact absurd hBreak (by decide)
          | cons e before =>
              rcases List.cons.inj hSplit with ⟨rfl, rfl⟩
              rcases exists_dropPlaceholders_cons hBreak
                  before with
                ⟨kept, hKept⟩
              rw [canonical_of_some hFirst, hKept] at hHead
              exact Option.some.inj hHead

------------------------------------------------------------
-- Canonical Texts Are Tidied
------------------------------------------------------------

/- A construct is shielded where it is spelled. -/
theorem shielded_of_spells
    {s : Text}
    {spelled : Spelled}
    (hSpells : Spells s spelled) :
    Shielded s := by
  cases hSpells with
  | fraction => exact .escape (by decide) (by decide)
  | limit => exact .escape (by decide) (by decide)

/- A construct is shielded where it is written. -/
theorem shielded_write
    (kind : Kind)
    (first second t : Text) :
    Shielded (kind.write first second ++ t) := by
  cases kind with
  | fraction => exact .escape (by decide) (by decide)
  | limit => exact .escape (by decide) (by decide)

/- What is tidied into a group needs no brace escaped. -/
theorem escapeLone_trim_of_tidied
    {u v : Text}
    (hBalanced : isBalanced u = true)
    (hTidied : Tidied u v) :
    escapeLone (trim v) = finished (trim v) :=
  escapeLone_of_paired
    (hTidied.trim.pairedFrom_of_balancedFrom hBalanced)

/- A group is tidied by tidying its content. -/
theorem tidied_group_append
    {u v s t : Text}
    (hBalanced : isBalanced u = true)
    (hContent : Tidied u v)
    (hTidied : Tidied s t) :
    Tidied ('\x7b' :: u ++ '\x7d' :: s) (group v ++ t) := by
  have hCleaned : Cleaned u (escapeLone (trim v)) := by
    rw [escapeLone_trim_of_tidied hBalanced hContent]
    exact hContent.trim.cleaned.finished
  have hGroup :=
    Tidied.group hBalanced (isBalanced_escapeLone (trim v))
      hCleaned hTidied
  simpa [group] using hGroup

/- A construct is tidied by tidying its parts. -/
theorem tidied_write_append
    {s first second rest : Text}
    {spelled : Spelled}
    (hSpells : Spells s spelled)
    (hFirst : Tidied spelled.first first)
    (hSecond : Tidied spelled.second second)
    (hRest : Tidied spelled.rest rest)
    (hLine : StartsLine spelled.rest → StartsLine rest) :
    Tidied s (spelled.kind.write first second ++ rest) := by
  cases hSpells with
  | fraction hBalancedFirst hBalancedSecond =>
      have hGroups :=
        tidied_group_append hBalancedFirst hFirst
          (tidied_group_append hBalancedSecond hSecond hRest)
      simp only [Kind.write, List.append_assoc]
      exact .escape 'f' (.plain (by decide)
        (.plain (by decide) (.plain (by decide) hGroups)))
  | @limit subscript gap line rest'
      hBalanced hGap hStart hNoBreak hStartsLine =>
      have hBlank : IsAllBlank gap :=
        fun c hMem => isBlank_of_isGap (hGap c hMem)
      have hLines :
          Tidied (line ++ rest') (trim second ++ rest) :=
        Tidied.append hSecond.trim
          (shielded_of_startsLine hStartsLine)
          (shielded_of_startsLine (hLine hStartsLine)) hRest
      have hGroups :=
        tidied_group_append hBalanced hFirst
          (.hidden_append (isHidden_of_isAllBlank hBlank)
            hLines.space)
      simp only [Kind.write, List.append_assoc]
      exact .escape 'l' (.plain (by decide)
        (.plain (by decide) (.plain (by decide) hGroups)))

/- Reading a text and writing it again only tidies it. -/
theorem tidied_canonical
    (s : Text) :
    Tidied s (canonical s) := by
  induction s using Row.reading_induction with
  | plain s hNone =>
      have hKept :=
        tidied_dropPlaceholders_append s .nil .nil .nil
      rw [canonical_of_none hNone]
      simpa using hKept
  | construct s before spelled hFirst
      ihFirst ihSecond ihRest =>
      rcases firstSpelled?_eq_some_iff.mp hFirst with
        ⟨t, rfl, hSpells, _⟩
      rw [canonical_of_some hFirst]
      exact tidied_dropPlaceholders_append before
        (shielded_of_spells hSpells) (shielded_write ..)
        (tidied_write_append hSpells (.of_trim ihFirst)
          (.of_trim ihSecond) ihRest startsLine_canonical)

end Text

------------------------------------------------------------
-- Rows at Any Depth
------------------------------------------------------------

/- Whatever a group of a construct holds is balanced. -/
theorem isBalanced_of_spells
    {s : Text}
    {spelled : Spelled}
    (hSpells : Spells s spelled) :
    Text.isBalanced spelled.first = true ∧
      (spelled.kind = .fraction →
        Text.isBalanced spelled.second = true) := by
  cases hSpells with
  | fraction hFirst hSecond =>
      exact ⟨hFirst, fun _ => hSecond⟩
  | limit hSubscript =>
      exact ⟨hSubscript, fun hKind => by cases hKind⟩

namespace Row

/-
  A row of a node that has been read is read from a trimmed
  text, which was balanced if it stood in a group.
-/
theorem exists_of_mem_ofText
    {s : Text}
    {node : Node Unit}
    {slot : Slot}
    {row : Row Unit}
    (hMem : node ∈ ofText s)
    (hRegion : node.region? slot = some row) :
    ∃ u, row = ofText (Text.trim u) ∧
      (slot ≠ .expression → Text.isBalanced u = true) := by
  induction s using reading_induction with
  | plain s hNone =>
      rw [ofText_of_none hNone] at hMem
      rw [region?_of_mem_ofPlain hMem] at hRegion
      cases hRegion
  | construct s before spelled hFirst _ _ ihRest =>
      rw [ofText_of_some hFirst] at hMem
      rcases List.mem_append.mp hMem with hMem | hMem
      · rw [region?_of_mem_ofPlain hMem] at hRegion
        cases hRegion
      · rcases List.mem_cons.mp hMem with rfl | hMem
        · rcases firstSpelled?_eq_some_iff.mp hFirst with
            ⟨t, _, hSpells, _⟩
          rcases isBalanced_of_spells hSpells with
            ⟨hBalancedFirst, hBalancedSecond⟩
          rcases slot with ⟨kind, side⟩
          simp only [Node.region?] at hRegion
          split at hRegion
          · next hKind =>
              cases side with
              | first =>
                  exact ⟨_, (Option.some.inj hRegion).symm,
                    fun _ => hBalancedFirst⟩
              | second =>
                  refine ⟨_, (Option.some.inj hRegion).symm,
                    fun hNe => hBalancedSecond ?_⟩
                  cases kind with
                  | fraction => exact hKind.symm
                  | limit => exact absurd rfl hNe
          · cases hRegion
        · exact ihRest hMem

/- So is every row further down. -/
theorem exists_of_at?_ofText
    {s : Text}
    {steps : List Step}
    {last : Step}
    {row : Row Unit}
    (hAt : (ofText s).at? (steps ++ [last]) = some row) :
    ∃ u, row = ofText (Text.trim u) ∧
      (last.slot ≠ .expression →
        Text.isBalanced u = true) := by
  induction steps generalizing s with
  | nil =>
      rcases at?_cons_eq_some_iff.mp hAt with
        ⟨node, below, hNode, hRegion, hHere⟩
      rcases Option.some.inj hHere with rfl
      exact exists_of_mem_ofText
        (List.mem_of_getElem? hNode) hRegion
  | cons step steps ih =>
      rcases at?_cons_eq_some_iff.mp hAt with
        ⟨node, below, hNode, hRegion, hBelow⟩
      rcases exists_of_mem_ofText (List.mem_of_getElem? hNode)
          hRegion with
        ⟨u, rfl, _⟩
      exact ih hBelow

end Row

end FormulaEditor
