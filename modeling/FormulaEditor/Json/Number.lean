import FormulaEditor.Json.Fault

/-
  This file reads JSON numbers as they are spelled, and says
  which of them are whole numbers and which are too large
  for a double-precision number.

  Key definitions include:
    * `Json.Numeral`
    * `Json.scanNumeral`
    * `Json.Numeral.natural?`
    * `Json.Numeral.tooLarge`
    * `Json.readNumeral`
    * `Json.skipNumeral`
    * `Json.writeNatural`

  Key theorems include:
    * `Json.scanNumeral_consumes`
-/

namespace FormulaEditor

namespace Json

------------------------------------------------------------
-- Digits
------------------------------------------------------------

/- The digits of numbers. -/
def isDigit
    (c : Char) :
    Bool :=
  '0' ≤ c && c ≤ '9'

/- The value of a digit. -/
def digitValue
    (c : Char) :
    Nat :=
  c.toNat - '0'.toNat

/- The number that digits spell. -/
def natOfDigits
    (digits : Text) :
    Nat :=
  digits.foldl (fun n c => n * 10 + digitValue c) 0

/- Read at least one digit, and as many as there are. -/
def readDigits : Reader Text
  | [] => .error .cutShort
  | c :: rest =>
      if isDigit c then
        .ok (c :: rest.takeWhile isDigit,
          rest.dropWhile isDigit)
      else
        .error .malformed

/- Reading digits consumes. -/
theorem readDigits_consumes :
    Reader.Consumes readDigits := by
  intro s rest digits hRead
  unfold readDigits at hRead
  split at hRead
  · simp at hRead
  · rename_i c tail
    split at hRead
    · simp only [Except.ok.injEq, Prod.mk.injEq] at hRead
      obtain ⟨_, rfl⟩ := hRead
      have hLength :=
        (List.dropWhile_suffix (l := tail) isDigit).length_le
      simp only [List.length_cons]
      omega
    · simp at hRead

------------------------------------------------------------
-- Numerals
------------------------------------------------------------

/-
  A number as it is spelled: a sign, the digits before the
  point, those after it if there is one, and the exponent
  with its sign if there is one.
-/
structure Numeral where
  negative : Bool
  whole : Text
  fraction : Option Text
  exponent : Option (Bool × Text)

/- Read the digits before the point. -/
def scanWhole : Reader Text
  | '0' :: c :: rest =>
      if isDigit c then
        .error .malformed
      else
        .ok (['0'], c :: rest)
  | s => readDigits s

/- Read the point and the digits after it, if it is there. -/
def scanFraction : Reader (Option Text)
  | '.' :: rest =>
      match readDigits rest with
      | .error fault => .error fault
      | .ok (digits, rest) => .ok (some digits, rest)
  | s => .ok (none, s)

/- Read a sign that may be left out. -/
def scanSign : Text → Bool × Text
  | '-' :: rest => (true, rest)
  | '+' :: rest => (false, rest)
  | s => (false, s)

/- Read the digits of an exponent, and its sign. -/
def scanExponentDigits
    (s : Text) :
    Except Fault (Option (Bool × Text) × Text) :=
  let (negative, rest) := scanSign s
  match readDigits rest with
  | .error fault => .error fault
  | .ok (digits, rest) => .ok (some (negative, digits), rest)

/- Read an exponent, if it is there. -/
def scanExponent : Reader (Option (Bool × Text))
  | 'e' :: rest => scanExponentDigits rest
  | 'E' :: rest => scanExponentDigits rest
  | s => .ok (none, s)

/- Read a number without its sign. -/
def scanUnsigned
    (negative : Bool) :
    Reader Numeral := fun s =>
  match scanWhole s with
  | .error fault => .error fault
  | .ok (whole, rest) =>
      match scanFraction rest with
      | .error fault => .error fault
      | .ok (fraction, rest) =>
          match scanExponent rest with
          | .error fault => .error fault
          | .ok (exponent, rest) =>
              .ok (⟨negative, whole, fraction, exponent⟩, rest)

/- Read a number as it is spelled. -/
def scanNumeral : Reader Numeral
  | '-' :: rest => scanUnsigned true rest
  | s => scanUnsigned false s

------------------------------------------------------------
-- Values
------------------------------------------------------------

/- The greatest number of 64 bits. -/
def maxNatural : Nat :=
  Nat.pow 2 64 - 1

/-
  Digits taken into a number of 64 bits from the left.  The
  first digit that does not fit is dropped, and with it all
  that follow.
-/
structure Absorbed where
  significand : Nat
  taken : Nat
  dropped : Nat

namespace Absorbed

/- Take one more digit in, or drop it. -/
def push
    (absorbed : Absorbed)
    (c : Char) :
    Absorbed :=
  let next := absorbed.significand * 10 + digitValue c
  if absorbed.dropped = 0 && next ≤ maxNatural then
    { absorbed with
      significand := next
      taken := absorbed.taken + 1 }
  else
    { absorbed with dropped := absorbed.dropped + 1 }

/- Take digits in after those of a number. -/
def digits
    (significand : Nat)
    (digits : Text) :
    Absorbed :=
  digits.foldl push ⟨significand, 0, 0⟩

end Absorbed

namespace Numeral

/- The whole number that a numeral spells plainly. -/
def natural?
    (numeral : Numeral) :
    Option Nat :=
  match numeral with
  | ⟨false, whole, none, none⟩ =>
      let n := natOfDigits whole
      if n ≤ maxNatural then some n else none
  | _ => none

/- The exponent that a numeral spells. -/
def spelledExponent
    (numeral : Numeral) :
    Int :=
  match numeral.exponent with
  | none => 0
  | some (false, digits) => natOfDigits digits
  | some (true, digits) => -natOfDigits digits

/-
  The digits of a numeral as a number of 64 bits, and the
  power of ten that goes with it.
-/
def scaled
    (numeral : Numeral) :
    Nat × Int :=
  let whole := Absorbed.digits 0 numeral.whole
  let all :=
    Absorbed.digits whole.significand
      (numeral.fraction.getD [])
  (all.significand,
    (whole.dropped : Int) - all.taken +
      numeral.spelledExponent)

end Numeral

/-
  A number rounded to 53 binary digits, a half going to the
  even neighbour.
-/
def roundDouble
    (n : Nat) :
    Nat :=
  let unit := Nat.pow 2 (n.log2 - 52)
  let below := n / unit
  let remainder := n % unit
  if unit < 2 * remainder ||
      (2 * remainder == unit && below % 2 == 1) then
    (below + 1) * unit
  else
    below * unit

/- The least number that rounds beyond the finite doubles. -/
def doubleOverflow : Nat :=
  Nat.pow 2 1024 - Nat.pow 2 970

/-
  Whether a number is too large for a double: its digits
  times its power of ten, both rounded, overflow.
-/
def Numeral.tooLarge
    (numeral : Numeral) :
    Bool :=
  match numeral.scaled with
  | (0, _) => false
  | (_, .negSucc _) => false
  | (significand, .ofNat exponent) =>
      308 < exponent ||
        doubleOverflow ≤
          roundDouble significand *
            roundDouble (Nat.pow 10 exponent)

/- Read a number that is not too large. -/
def readNumeral
    (s : Text) :
    Except Fault (Numeral × Text) :=
  match scanNumeral s with
  | .error fault => .error fault
  | .ok (numeral, rest) =>
      if numeral.tooLarge then
        .error .malformed
      else
        .ok (numeral, rest)

/-
  Skip a number of any size.  One that is cut short counts
  as malformed.
-/
def skipNumeral
    (s : Text) :
    Except Fault (Numeral × Text) :=
  match scanNumeral s with
  | .error _ => .error .malformed
  | .ok found => .ok found

------------------------------------------------------------
-- Writing
------------------------------------------------------------

/- The digit of a number below ten. -/
def digitOf
    (n : Nat) :
    Char :=
  Char.ofNat ('0'.toNat + n)

/- Write a number in decimal. -/
def writeNatural
    (n : Nat) :
    Text :=
  if n < 10 then
    [digitOf n]
  else
    writeNatural (n / 10) ++ [digitOf (n % 10)]

------------------------------------------------------------
-- Lengths
------------------------------------------------------------

/- Reading the whole part consumes. -/
theorem scanWhole_consumes :
    Reader.Consumes scanWhole := by
  intro s rest digits hRead
  unfold scanWhole at hRead
  split at hRead
  · split at hRead <;> simp_all
  · exact readDigits_consumes hRead

/- Reading a fraction never lengthens a text. -/
theorem length_scanFraction_le
    {s rest : Text}
    {fraction : Option Text}
    (hRead : scanFraction s = .ok (fraction, rest)) :
    rest.length ≤ s.length := by
  unfold scanFraction at hRead
  have hDigits := @readDigits_consumes
  grind [Reader.Consumes]

/- Reading a sign never lengthens a text. -/
theorem length_scanSign_le
    (s : Text) :
    (scanSign s).2.length ≤ s.length := by
  unfold scanSign
  grind

/- Reading an exponent never lengthens a text. -/
theorem length_scanExponent_le
    {s rest : Text}
    {exponent : Option (Bool × Text)}
    (hRead : scanExponent s = .ok (exponent, rest)) :
    rest.length ≤ s.length := by
  unfold scanExponent scanExponentDigits at hRead
  have hDigits := @readDigits_consumes
  have hSign := length_scanSign_le
  grind [Reader.Consumes]

/- Reading a number without its sign consumes. -/
theorem scanUnsigned_consumes
    (negative : Bool) :
    Reader.Consumes (scanUnsigned negative) := by
  intro s rest numeral hRead
  unfold scanUnsigned at hRead
  have hWhole := @scanWhole_consumes
  have hFraction := @length_scanFraction_le
  have hExponent := @length_scanExponent_le
  grind [Reader.Consumes]

/- Reading a number as it is spelled consumes. -/
theorem scanNumeral_consumes :
    Reader.Consumes scanNumeral := by
  intro s rest numeral hRead
  unfold scanNumeral at hRead
  have hUnsigned := @scanUnsigned_consumes
  grind [Reader.Consumes]

/- Reading a number that is not too large consumes. -/
theorem readNumeral_consumes :
    Reader.Consumes readNumeral := by
  intro s rest numeral hRead
  unfold readNumeral at hRead
  have hScan := @scanNumeral_consumes
  grind [Reader.Consumes]

/- Skipping a number consumes. -/
theorem skipNumeral_consumes :
    Reader.Consumes skipNumeral := by
  intro s rest numeral hRead
  unfold skipNumeral at hRead
  have hScan := @scanNumeral_consumes
  grind [Reader.Consumes]

end Json

end FormulaEditor
