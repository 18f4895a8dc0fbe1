import FormulaEditor.Json.Typed

/-
  This file proves that every whole number of 64 bits
  survives being written as a JSON number, if what follows
  it cannot belong to a number.

  Key definitions include:
    * `Json.EndsValue`

  Key theorems include:
    * `Json.natOfDigits_writeNatural`
    * `Json.scanNumeral_writeNatural`
    * `Json.tooLarge_writeNatural`
    * `Json.readNatural_writeNatural`
-/

namespace FormulaEditor

namespace Json

------------------------------------------------------------
-- Digits
------------------------------------------------------------

/- What is written for a number below ten is its digit. -/
theorem digitValue_digitOf :
    ∀ n < 10, isDigit (digitOf n) = true ∧
      digitValue (digitOf n) = n := by
  decide

/- The last digit of a spelled number counts once. -/
theorem natOfDigits_concat
    (digits : Text)
    (c : Char) :
    natOfDigits (digits ++ [c]) =
      natOfDigits digits * 10 + digitValue c := by
  rw [natOfDigits, List.foldl_append]
  rfl

/- A number is written with digits that spell it. -/
theorem writeNatural_spells
    (n : Nat) :
    (∀ c ∈ writeNatural n, isDigit c = true) ∧
      natOfDigits (writeNatural n) = n := by
  induction n using Nat.strongRecOn with
  | ind n ih =>
      rw [writeNatural]
      by_cases hLess : n < 10
      · rw [if_pos hLess]
        rcases digitValue_digitOf n hLess with ⟨hDigit, hValue⟩
        simp [natOfDigits, hDigit, hValue]
      · rw [if_neg hLess]
        rcases ih (n / 10) (by omega) with ⟨hDigits, hSpelled⟩
        rcases digitValue_digitOf (n % 10) (by omega) with
          ⟨hDigit, hValue⟩
        constructor
        · rw [List.forall_mem_append]
          exact ⟨hDigits, List.forall_mem_singleton.mpr hDigit⟩
        · rw [natOfDigits_concat, hSpelled, hValue]
          omega

/- Only zero is written with a zero in front. -/
theorem exists_head_writeNatural
    (n : Nat) :
    ∃ c digits, writeNatural n = c :: digits ∧
      (c = '0' → n = 0) := by
  induction n using Nat.strongRecOn with
  | ind n ih =>
      have hZero : ∀ n < 10, digitOf n = '0' → n = 0 := by
        decide
      rw [writeNatural]
      by_cases hLess : n < 10
      · rw [if_pos hLess]
        exact ⟨digitOf n, [], rfl, hZero n hLess⟩
      · rw [if_neg hLess]
        rcases ih (n / 10) (by omega) with
          ⟨c, digits, hWritten, hLead⟩
        refine ⟨c, digits ++ [digitOf (n % 10)], ?_, ?_⟩
        · rw [hWritten, List.cons_append]
        · intro hFirst
          have hNone := hLead hFirst
          omega

/- Digits are neither blanks nor signs. -/
theorem not_blank_of_isDigit
    {c : Char}
    (hDigit : isDigit c = true) :
    isJsonBlank c = false ∧ c ≠ '-' := by
  constructor
  · rw [← Bool.not_eq_true]
    intro hBlank
    simp only [isJsonBlank, Bool.or_eq_true, beq_iff_eq]
      at hBlank
    rcases hBlank with ((rfl | rfl) | rfl) | rfl <;>
      exact absurd hDigit (by decide)
  · rintro rfl
    exact absurd hDigit (by decide)

------------------------------------------------------------
-- Numerals
------------------------------------------------------------

/- A text starts with what ends a value in an object. -/
def EndsValue
    (s : Text) :
    Prop :=
  ∃ c rest, s = c :: rest ∧ (c = ',' ∨ c = '\x7d')

/- Digits are read up to what ends a value. -/
theorem readDigits_append
    {c : Char}
    {digits rest : Text}
    (hDigits : ∀ d ∈ c :: digits, isDigit d = true)
    (hEnds : EndsValue rest) :
    readDigits (c :: digits ++ rest) =
      .ok (c :: digits, rest) := by
  rcases hEnds with ⟨e, tail, rfl, hEnd⟩
  have hNone : isDigit e = false := by
    rcases hEnd with rfl | rfl <;> decide
  rw [List.forall_mem_cons] at hDigits
  rw [List.cons_append, readDigits, if_pos hDigits.1,
    List.takeWhile_append_of_pos hDigits.2,
    List.dropWhile_append_of_pos hDigits.2]
  simp [hNone]

/- The digits of a number are read as its whole part. -/
theorem scanWhole_writeNatural
    (n : Nat)
    {rest : Text}
    (hEnds : EndsValue rest) :
    scanWhole (writeNatural n ++ rest) =
      .ok (writeNatural n, rest) := by
  have hDigits := (writeNatural_spells n).1
  rcases exists_head_writeNatural n with
    ⟨c, digits, hWritten, hLead⟩
  by_cases hZero : n = 0
  · rcases hZero with rfl
    rcases hEnds with ⟨e, tail, rfl, hEnd⟩
    have hNone : isDigit e = false := by
      rcases hEnd with rfl | rfl <;> decide
    have hSingle : writeNatural 0 = ['0'] := by
      rw [writeNatural]
      rfl
    rw [hSingle, List.singleton_append, scanWhole, hNone]
    rfl
  · rw [hWritten] at hDigits ⊢
    have hFirst : c ≠ '0' := fun hFirst =>
      hZero (hLead hFirst)
    rw [List.cons_append, scanWhole.eq_2]
    · exact readDigits_append hDigits hEnds
    · intro d tail hCons
      exact absurd (List.cons.inj hCons).1 hFirst

/- A number is scanned as its digits and nothing else. -/
theorem scanNumeral_writeNatural
    (n : Nat)
    {rest : Text}
    (hEnds : EndsValue rest) :
    scanNumeral (writeNatural n ++ rest) =
      .ok (⟨false, writeNatural n, none, none⟩, rest) := by
  have hDigits := (writeNatural_spells n).1
  have hWhole := scanWhole_writeNatural n hEnds
  rcases exists_head_writeNatural n with
    ⟨c, digits, hWritten, _⟩
  have hUnsigned :
      scanNumeral (writeNatural n ++ rest) =
        scanUnsigned false (writeNatural n ++ rest) := by
    rw [hWritten] at hDigits ⊢
    have hSign :=
      (not_blank_of_isDigit
        (hDigits c (List.mem_cons_self ..))).2
    rw [List.cons_append, scanNumeral.eq_2]
    intro tail hCons
    exact absurd (List.cons.inj hCons).1 hSign
  rw [hUnsigned, scanUnsigned, hWhole]
  rcases hEnds with ⟨e, tail, rfl, rfl | rfl⟩ <;> rfl

------------------------------------------------------------
-- Sizes
------------------------------------------------------------

/- The digits of a number of 64 bits are all taken in. -/
theorem digits_writeNatural
    {n : Nat}
    (hFits : n ≤ maxNatural) :
    Absorbed.digits 0 (writeNatural n) =
      ⟨n, (writeNatural n).length, 0⟩ := by
  induction n using Nat.strongRecOn with
  | ind n ih =>
      rw [writeNatural]
      by_cases hLess : n < 10
      · have hValue := (digitValue_digitOf n hLess).2
        rw [if_pos hLess]
        simp [Absorbed.digits, Absorbed.push, hValue, hFits]
      · have hValue :=
          (digitValue_digitOf (n % 10) (by omega)).2
        have hTaken := ih (n / 10) (by omega) (by omega)
        have hWhole : n / 10 * 10 + n % 10 = n := by omega
        rw [if_neg hLess]
        rw [Absorbed.digits] at hTaken ⊢
        rw [List.foldl_append, hTaken]
        simp [Absorbed.push, hValue, hWhole, hFits]

/- Rounding at most doubles a number. -/
theorem roundDouble_le
    (n : Nat) :
    roundDouble n ≤ 2 * n := by
  by_cases hZero : n = 0
  · rcases hZero with rfl
    decide
  · have hUnit : Nat.pow 2 (n.log2 - 52) ≤ n :=
      Nat.le_trans
        (Nat.pow_le_pow_right (by omega) (Nat.sub_le _ _))
        (Nat.log2_self_le hZero)
    have hBelow :=
      Nat.div_mul_le_self n (Nat.pow 2 (n.log2 - 52))
    simp only [roundDouble]
    split
    · rw [Nat.add_mul]
      omega
    · omega

/- No number of 64 bits is too large for a double. -/
theorem tooLarge_writeNatural
    {n : Nat}
    (hFits : n ≤ maxNatural) :
    Numeral.tooLarge ⟨false, writeNatural n, none, none⟩ =
      false := by
  have hScaled :
      Numeral.scaled ⟨false, writeNatural n, none, none⟩ =
        (n, 0) := by
    simp only [Numeral.scaled, digits_writeNatural hFits]
    rfl
  have hSmall : 2 * maxNatural < doubleOverflow := by
    decide +kernel
  have hOne : roundDouble (Nat.pow 10 0) = 1 := by
    decide +kernel
  have hRounded := roundDouble_le n
  rw [Numeral.tooLarge, hScaled]
  cases n with
  | zero => rfl
  | succ n =>
      show (decide (308 < 0) ||
        decide (doubleOverflow ≤
          roundDouble (n + 1) *
            roundDouble (Nat.pow 10 0))) = false
      rw [hOne, Nat.mul_one]
      simp only [Nat.not_lt_zero, decide_false,
        Bool.false_or, decide_eq_false_iff_not]
      omega

/- A number of 64 bits survives being written. -/
theorem readNatural_writeNatural
    {n : Nat}
    (hFits : n ≤ maxNatural)
    {rest : Text}
    (hEnds : EndsValue rest) :
    readNatural (writeNatural n ++ rest) = .ok (n, rest) := by
  have hScan := scanNumeral_writeNatural n hEnds
  rcases writeNatural_spells n with ⟨hDigits, hSpelled⟩
  rcases exists_head_writeNatural n with
    ⟨c, digits, hWritten, _⟩
  have hDigit : isDigit c = true :=
    hDigits c (by simp [hWritten])
  have hNumeral :
      readNumeral (writeNatural n ++ rest) =
        .ok (⟨false, writeNatural n, none, none⟩, rest) := by
    rw [readNumeral, hScan]
    simp only [tooLarge_writeNatural hFits,
      Bool.false_eq_true, if_false]
  have hNatural :
      Numeral.natural? ⟨false, writeNatural n, none, none⟩ =
        some n := by
    simp [Numeral.natural?, hSpelled, hFits]
  rw [hWritten, List.cons_append] at hNumeral ⊢
  rw [readNatural, skipBlank, List.dropWhile_cons,
    (not_blank_of_isDigit hDigit).1]
  simp only [Bool.false_eq_true, if_false, hDigit,
    Bool.or_true, if_true, hNumeral]
  rw [← hWritten, hNatural]

end Json

end FormulaEditor
