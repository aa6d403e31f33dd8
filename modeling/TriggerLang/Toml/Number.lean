import TriggerLang.Decimal
/-!
# Numbers of flat TOML files

Digits may be grouped by single underscores between them.  Decimal integers have no leading zeros,
and integers fit in 64 bits.

A floating point number has a fraction or an exponent or both.  It has to round to a number in 64
bits, but a number that is too far below zero stands for minus infinity.  `isFinite_ofNat` and
`isFinite_neg` say that the bounded test decides this for every place.
-/

namespace TriggerLang.Toml

/-! ### Digits -/

/-- The value of a digit up to the given base. -/
def digitValue? (base : Nat) (c : Char) : Option Nat :=
  let value :=
    if '0' ≤ c && c ≤ '9' then some (c.toNat - '0'.toNat)
    else if 'a' ≤ c && c ≤ 'f' then some (c.toNat - 'a'.toNat + 10)
    else if 'A' ≤ c && c ≤ 'F' then some (c.toNat - 'A'.toNat + 10)
    else none
  value.filter (· < base)

/-- The value of grouped digits that continue a number. -/
def continueDigits? (base : Nat) : Nat → List Char → Option Nat
  | acc, [] => some acc
  | acc, '_' :: c :: rest =>
      (digitValue? base c).bind fun d => continueDigits? base (acc * base + d) rest
  | acc, c :: rest =>
      (digitValue? base c).bind fun d => continueDigits? base (acc * base + d) rest

/-- The value of a number of grouped digits. -/
def digits? (base : Nat) : List Char → Option Nat
  | [] => none
  | c :: rest => (digitValue? base c).bind fun d => continueDigits? base d rest

/-- The value of decimal digits without a leading zero. -/
def decimal? : List Char → Option Nat
  | '0' :: _ :: _ => none
  | cs => digits? 10 cs

/-! ### Numbers -/

/-- A sign, if there is one, and what follows it. -/
def splitSign : List Char → Bool × List Char
  | '-' :: rest => (true, rest)
  | '+' :: rest => (false, rest)
  | cs => (false, cs)

/-- An integer in 64 bits. -/
def bounded? (n : Int) : Option Int :=
  if -9223372036854775808 ≤ n ∧ n ≤ 9223372036854775807 then some n else none

/-- The value of an integer token. -/
def integer? (token : List Char) : Option Int :=
  match token with
  | '0' :: 'x' :: rest => (digits? 16 rest).bind fun n => bounded? n
  | '0' :: 'o' :: rest => (digits? 8 rest).bind fun n => bounded? n
  | '0' :: 'b' :: rest => (digits? 2 rest).bind fun n => bounded? n
  | _ =>
      let (negative, rest) := splitSign token
      (decimal? rest).bind fun n => bounded? (if negative then -n else n)

/-! ### Floating point numbers -/

/-- The least number that is too great for 64 bits; it lies half a step above the greatest one. -/
def leastInfinite : Nat :=
  ((1 <<< 54) - 1) <<< 970

/-- Whether `digits * 10 ^ place` is not too great for 64 bits.  Beyond 309 places above the point
only zero is left, and beyond as many places below it as there are binary digits every number is. -/
def isFinite (digits : Nat) (place : Int) : Bool :=
  digits * tenTo (min place.toNat 309) <
    leastInfinite * tenTo (min (-place).toNat (digits.log2 + 1))

/-- Whether a character starts an exponent. -/
def isExponentMark (c : Char) : Bool :=
  c == 'e' || c == 'E'

/-- The exponent of a floating point number, read with its mark. -/
def exponent? : List Char → Option Int
  | [] => none
  | mark :: rest =>
      let (negative, rest) := splitSign rest
      if isExponentMark mark then
        (digits? 10 rest).map fun n => if negative then -(n : Int) else n
      else none

/-- The digits and the place of a floating point number without a sign, which stands for
`digits * 10 ^ place`.  It has a fraction or an exponent or both. -/
def magnitude? (cs : List Char) : Option (Nat × Int) := do
  let wholePart := cs.takeWhile fun c => c.isDigit || c == '_'
  let whole ← decimal? wholePart
  match cs.drop wholePart.length with
  | '.' :: rest =>
      let fractionPart := rest.takeWhile fun c => !isExponentMark c
      let exponentPart := rest.drop fractionPart.length
      let fraction ← digits? 10 fractionPart
      let exponent ← if exponentPart.isEmpty then some 0 else exponent? exponentPart
      let count := fractionPart.countP Char.isDigit
      pure (whole * tenTo count + fraction, exponent - count)
  | rest => (exponent? rest).map fun exponent => (whole, exponent)

/-- Whether a token is a floating point number.  A number that is too great for 64 bits is refused;
one that is too far below zero stands for minus infinity. -/
def isFloat (token : List Char) : Bool :=
  let (negative, cs) := splitSign token
  cs == ['i', 'n', 'f'] || cs == ['n', 'a', 'n'] ||
    match magnitude? cs with
    | some (digits, place) => negative || isFinite digits place
    | none => false

/-! ### Small laws -/

/-- A whole number is finite exactly when it is below the bound. -/
theorem isFinite_ofNat (digits place : Nat) :
    isFinite digits place = decide (digits * tenTo place < leastInfinite) := by
  have bound : leastInfinite ≤ tenTo 309 := by decide +kernel
  have none : (-(place : Int)).toNat = 0 := by omega
  simp only [isFinite, Int.toNat_natCast, none, Nat.zero_min, tenTo_zero, Nat.mul_one]
  by_cases small : place ≤ 309
  · rw [Nat.min_eq_left small]
  · rw [Nat.min_eq_right (by omega)]
    have greater := tenTo_le (show 309 ≤ place by omega)
    rcases Nat.eq_zero_or_pos digits with rfl | positive
    · simp
    · have := Nat.le_mul_of_pos_left (tenTo 309) positive
      have := Nat.le_mul_of_pos_left (tenTo place) positive
      rw [decide_eq_false (by omega), decide_eq_false (by omega)]

/-- A number with decimal places is finite exactly when its digits are below the bound with as many
zeros. -/
theorem isFinite_neg (digits places : Nat) :
    isFinite digits (-(places : Int)) = decide (digits < leastInfinite * tenTo places) := by
  have none : (-(places : Int)).toNat = 0 := by omega
  simp only [isFinite, Int.neg_neg, Int.toNat_natCast, none, Nat.zero_min, tenTo_zero, Nat.mul_one]
  by_cases few : places ≤ digits.log2 + 1
  · rw [Nat.min_eq_left few]
  · rw [Nat.min_eq_right (by omega)]
    have greater := tenTo_le (show digits.log2 + 1 ≤ places by omega)
    have below : digits < tenTo (digits.log2 + 1) :=
      Nat.lt_of_lt_of_le Nat.lt_log2_self (Nat.pow_le_pow_left (by decide) _)
    have positive : 0 < leastInfinite := by decide +kernel
    have := Nat.le_mul_of_pos_left (tenTo (digits.log2 + 1)) positive
    have := Nat.le_mul_of_pos_left (tenTo places) positive
    rw [decide_eq_true (by omega), decide_eq_true (by omega)]

end TriggerLang.Toml
