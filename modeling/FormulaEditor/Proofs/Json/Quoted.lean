import FormulaEditor.Json.Typed

/-
  This file proves that every text survives being written as
  a JSON string, whatever characters it has.

  Key theorems include:
    * `Json.writeChar_cases`
    * `Json.readString_writeChar`
    * `Json.readString_flatMap`
    * `Json.readText_writeString`
    * `Json.readChar_writeString`
-/

namespace FormulaEditor

namespace Json

------------------------------------------------------------
-- Characters
------------------------------------------------------------

/- A hexadecimal digit is read as what it was written for. -/
theorem hexValue?_hexDigit :
    ∀ n < 16, hexValue? (hexDigit n) = some n := by
  decide

/- A control character is read from its two digits. -/
theorem readCodeUnits_hexDigits
    {c : Char}
    (hControl : isRawControl c = true)
    (rest : Text) :
    readCodeUnits
        ('0' :: '0' :: hexDigit (c.toNat / 16) ::
          hexDigit (c.toNat % 16) :: rest) =
      .ok (c, rest) := by
  have hLess : c.toNat < 32 := by
    simpa [isRawControl] using hControl
  have hZero : hexValue? '0' = some 0 := by decide
  have hHigh :=
    hexValue?_hexDigit (c.toNat / 16) (by omega)
  have hLow := hexValue?_hexDigit (c.toNat % 16) (by omega)
  have hSum :
      ((0 * 16 + 0) * 16 + c.toNat / 16) * 16 +
          c.toNat % 16 =
        c.toNat := by
    omega
  have hTrailing : isTrailing c.toNat = false := by
    simp only [isTrailing, Bool.and_eq_false_iff,
      decide_eq_false_iff_not]
    omega
  have hLeading : isLeading c.toNat = false := by
    simp only [isLeading, Bool.and_eq_false_iff,
      decide_eq_false_iff_not]
    omega
  simp only [readCodeUnits, readHex, hZero, hHigh, hLow,
    hSum, hTrailing, hLeading, Bool.false_eq_true, if_false,
    Char.ofNat_toNat]

/-
  A character is written as an escape that is read as the
  character, or as itself.
-/
theorem writeChar_cases
    (c : Char) :
    (∃ escape, writeChar c = '\\' :: escape ∧
      ∀ rest, readEscape (escape ++ rest) = .ok (c, rest)) ∨
      writeChar c = [c] ∧ c ≠ '"' ∧ c ≠ '\\' ∧
        isRawControl c = false := by
  unfold writeChar
  split
  · exact .inl ⟨['"'], rfl, fun _ => rfl⟩
  · exact .inl ⟨['\\'], rfl, fun _ => rfl⟩
  · exact .inl ⟨['b'], rfl, fun _ => rfl⟩
  · exact .inl ⟨['f'], rfl, fun _ => rfl⟩
  · exact .inl ⟨['n'], rfl, fun _ => rfl⟩
  · exact .inl ⟨['r'], rfl, fun _ => rfl⟩
  · exact .inl ⟨['t'], rfl, fun _ => rfl⟩
  · next hQuote hBackslash _ _ _ _ _ =>
      split
      · next hControl =>
          refine .inl ⟨_, rfl, fun rest => ?_⟩
          exact readCodeUnits_hexDigits hControl rest
      · next hRaw =>
          rw [Bool.not_eq_true] at hRaw
          exact .inr ⟨rfl, hQuote, hBackslash, hRaw⟩

------------------------------------------------------------
-- Strings
------------------------------------------------------------

section Strings

variable {α : Type} {escape : Reader α}
variable {hEscape : Reader.Consumes escape} {raw : Char → α}

/- A string ends at its closing quote. -/
theorem readStringWith_quote
    (rest : Text) :
    @readStringWith α escape @hEscape raw ('"' :: rest) =
      .ok ([], rest) := by
  rw [readStringWith.eq_def]
  rfl

/- An escape is read before what follows it. -/
theorem readStringWith_escape
    {a : α}
    {content : List α}
    {s after rest : Text}
    (hRead : escape s = .ok (a, after))
    (hAfter :
      @readStringWith α escape @hEscape raw after =
        .ok (content, rest)) :
    @readStringWith α escape @hEscape raw ('\\' :: s) =
      .ok (a :: content, rest) := by
  rw [readStringWith.eq_def]
  simp only
  split
  · next hFault =>
      rw [hRead] at hFault
      cases hFault
  · next hFound =>
      rw [hRead] at hFound
      rcases Prod.mk.inj (Except.ok.inj hFound) with
        ⟨rfl, rfl⟩
      rw [hAfter]

/- Any other character is read as it is. -/
theorem readStringWith_raw
    {c : Char}
    (hQuote : c ≠ '"')
    (hBackslash : c ≠ '\\')
    (hRaw : isRawControl c = false)
    {content : List α}
    {s rest : Text}
    (hRead :
      @readStringWith α escape @hEscape raw s =
        .ok (content, rest)) :
    @readStringWith α escape @hEscape raw (c :: s) =
      .ok (raw c :: content, rest) := by
  rw [readStringWith.eq_def]
  split
  · next hNil => cases hNil
  · next hCons =>
      exact absurd (List.cons.inj hCons).1 hQuote
  · next hCons =>
      exact absurd (List.cons.inj hCons).1 hBackslash
  · next hCons =>
      rcases List.cons.inj hCons with ⟨rfl, rfl⟩
      simp only [hRaw, hRead, Bool.false_eq_true, if_false]

end Strings

/- A character that is written is read before the rest. -/
theorem readString_writeChar
    {c : Char}
    {s content rest : Text}
    (hRead : readString s = .ok (content, rest)) :
    readString (writeChar c ++ s) =
      .ok (c :: content, rest) := by
  rcases writeChar_cases c with
    ⟨escape, hWrite, hEscape⟩ |
      ⟨hWrite, hQuote, hBackslash, hRaw⟩
  · rw [hWrite]
    exact readStringWith_escape (hEscape s) hRead
  · rw [hWrite]
    exact readStringWith_raw hQuote hBackslash hRaw hRead

/- A text is read up to the quote that closes it. -/
theorem readString_flatMap
    (s rest : Text) :
    readString (s.flatMap writeChar ++ '"' :: rest) =
      .ok (s, rest) := by
  induction s with
  | nil => exact readStringWith_quote rest
  | cons c s ih =>
      rw [List.flatMap_cons, List.append_assoc]
      exact readString_writeChar ih

/- A text survives being written. -/
theorem readText_writeString
    (s rest : Text) :
    readText (writeString s ++ rest) = .ok (s, rest) := by
  have hWritten :
      writeString s ++ rest =
        '"' :: (s.flatMap writeChar ++ '"' :: rest) := by
    simp [writeString]
  rw [hWritten, readText]
  exact readString_flatMap s rest

/- So does a single character. -/
theorem readChar_writeString
    (c : Char)
    (rest : Text) :
    readChar (writeString [c] ++ rest) = .ok (c, rest) := by
  rw [readChar, readText_writeString]

end Json

end FormulaEditor
