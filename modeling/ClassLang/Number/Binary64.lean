/-!
Binary floating-point numbers of 64 bits without a sign, and the nearest one to a decimal.

* `roundHalfEven_near`: rounding moves a quotient by at most a half.
-/

namespace ClassLang

/-! ## Powers and rounding -/

/-- A power of two. -/
def twoTo (n : Nat) : Nat := Nat.pow 2 n

/-- A power of ten. -/
def tenTo (n : Nat) : Nat := Nat.pow 10 n

/-- The whole number nearest to a quotient; a half goes to the even neighbour. -/
def roundHalfEven (num den : Nat) : Nat :=
  let floor := num / den
  let twice := 2 * (num % den)
  if twice < den then floor else if den < twice then floor + 1 else floor + floor % 2

theorem roundHalfEven_near {num den : Nat} (positive : 0 < den) :
    2 * num ≤ 2 * (den * roundHalfEven num den) + den ∧
      2 * (den * roundHalfEven num den) ≤ 2 * num + den := by
  have parts := Nat.div_add_mod num den
  have small := Nat.mod_lt num positive
  have step : den * (num / den + 1) = den * (num / den) + den := Nat.mul_succ ..
  unfold roundHalfEven
  dsimp only
  split
  · omega
  split
  · omega
  rcases Nat.mod_two_eq_zero_or_one (num / den) with even | odd
  · rw [even, Nat.add_zero]; omega
  · rw [odd]; omega

/-! ## Numbers -/

/-- A number that is not negative: `mantissa * 2 ^ exponent`, or beyond all of these.

The mantissa has 53 bits, or fewer at the least exponent, so each number has one form. -/
inductive Binary64 where
  | finite (mantissa : Nat) (exponent : Int)
  | infinite
deriving DecidableEq, Repr, Inhabited

namespace Binary64

/-- The least exponent. -/
def leastExponent : Int := -1074

/-- The greatest exponent. -/
def greatestExponent : Int := 971

/-- The number zero. -/
def zero : Binary64 := .finite 0 leastExponent

/-- Whether the number has a value. -/
def isFinite : Binary64 → Bool
  | finite .. => true
  | infinite => false

/-- A quotient divided by a power of two, as a quotient. -/
def scaleDown (num den : Nat) (exponent : Int) : Nat × Nat :=
  (num * twoTo (-exponent).toNat, den * twoTo exponent.toNat)

/-- The form of a rounded mantissa, which may have grown by one bit. -/
def normalize (mantissa : Nat) (exponent : Int) : Binary64 :=
  let (mantissa, exponent) :=
    if mantissa = twoTo 53 then (twoTo 52, exponent + 1) else (mantissa, exponent)
  if greatestExponent < exponent then infinite else finite mantissa exponent

/-- The number nearest to a quotient, a tie going to the even mantissa. -/
def ofRatio (num den : Nat) : Binary64 :=
  if num = 0 then zero
  else
    let guess : Int := max ((num.log2 : Int) - den.log2 - 53) leastExponent
    let fits (exponent : Int) : Bool :=
      let (n, d) := scaleDown num den exponent
      n / d < twoTo 53
    let exponent := if fits guess then guess else guess + 1
    let (n, d) := scaleDown num den exponent
    normalize (roundHalfEven n d) exponent

/-- The number nearest to a natural number. -/
def ofNat (n : Nat) : Binary64 := ofRatio n 1

/-- The number nearest to `digits * 10 ^ exponent`. What lies far outside the range of the numbers
is decided without computing the power. -/
def ofDecimal (digits : Nat) (exponent : Int) : Binary64 :=
  let size : Int := (Nat.toDigits 10 digits).length + exponent
  if digits = 0 || size < -330 then zero
  else if 310 < size then infinite
  else ofRatio (digits * tenTo exponent.toNat) (tenTo (-exponent).toNat)

end Binary64

end ClassLang
