import ClassLang.Number.Binary64

/-!
The shortest decimal that reads back as a given binary number, and its layout as text.
-/

namespace ClassLang

/-- Which of two equally near decimals is written. -/
inductive Tie where
  | up | even
deriving DecidableEq, Repr

namespace Binary64

/-! ## Shortest digits -/

/-- A value `mantissa * 2 ^ exponent` and the multiples of `10 ^ place`, measured in one unit:
a multiple `n` measures `n * width`, and a quarter of the last bit of the value `quarter`. -/
structure Grid where
  mantissa : Nat
  exponent : Int
  width : Nat
  quarter : Nat

namespace Grid

/-- Lays the multiples of `10 ^ place` beside a value. -/
def lay (mantissa : Nat) (exponent place : Int) : Grid where
  mantissa := mantissa
  exponent := exponent
  width := tenTo place.toNat * twoTo (2 - exponent).toNat
  quarter := tenTo (-place).toNat * twoTo (exponent - 2).toNat

/-- The measure of the value. -/
def value (g : Grid) : Nat := 4 * g.mantissa * g.quarter

/-- Whether a multiple rounds to the value. Below a power of two the numbers lie closer, and an end
of the interval rounds to an even mantissa. -/
def readsBack (g : Grid) (n : Nat) : Bool :=
  let low := if g.mantissa = twoTo 52 && leastExponent < g.exponent
    then 4 * g.mantissa - 1 else 4 * g.mantissa - 2
  let high := 4 * g.mantissa + 2
  if g.mantissa % 2 = 0 then low * g.quarter ≤ n * g.width && n * g.width ≤ high * g.quarter
  else low * g.quarter < n * g.width && n * g.width < high * g.quarter

/-- The multiple next to the value that reads back, the nearer one if both do. -/
def neighbour? (g : Grid) (tie : Tie) : Option Nat :=
  let below := g.value / g.width
  let above := below + 1
  match g.readsBack below, g.readsBack above with
  | false, false => none
  | true, false => some below
  | false, true => some above
  | true, true =>
    let down := g.value - below * g.width
    let up := above * g.width - g.value
    if down < up then some below
    else if up < down then some above
    else match tie with
      | .up => some above
      | .even => some (if below % 2 = 0 then below else above)

end Grid

/-- The least power of ten above a value that is not zero. -/
def decimalMagnitude (mantissa : Nat) (exponent : Int) : Int :=
  let num := mantissa * twoTo exponent.toNat
  let den := twoTo (-exponent).toNat
  let least := ((mantissa.log2 : Int) + exponent) * 30103 / 100000 - 1
  let above (k : Int) : Bool := num * tenTo (-k).toNat < den * tenTo k.toNat
  ((List.range 5).map fun (i : Nat) => least + (i : Int)).find? above |>.getD least

/-- A decimal: a point, then the digits, moved by `point` places. -/
structure DecimalDigits where
  digits : List Char
  point : Int
deriving DecidableEq, Repr

/-- The decimal with the fewest digits that reads back, of those with equally many the nearest. -/
def shortest (mantissa : Nat) (exponent : Int) (tie : Tie) : DecimalDigits :=
  if mantissa = 0 then ⟨['0'], 1⟩
  else
    let magnitude := decimalMagnitude mantissa exponent
    let found := (List.range 17).findSome? fun (i : Nat) =>
      let place := magnitude - ((i : Int) + 1)
      ((Grid.lay mantissa exponent place).neighbour? tie).map fun n => (n, place)
    let (n, place) := found.getD (0, 0)
    let digits := Nat.toDigits 10 n
    ⟨(digits.reverse.dropWhile (· == '0')).reverse, place + digits.length⟩

/-! ## Layout -/

/-- How numbers are written: where the point may stand without an exponent, what stands before an
exponent that is not negative, which of two equally near decimals is taken, and the text of what is
beyond all numbers. -/
structure Layout where
  leastPoint : Int
  greatestPoint : Int
  exponentSign : String
  tie : Tie
  infinite : String

/-- Digits around a point, with at least one on each side. -/
def positional (d : DecimalDigits) : List Char :=
  if d.point ≤ 0 then '0' :: '.' :: List.replicate (-d.point).toNat '0' ++ d.digits
  else
    let whole := d.digits.take d.point.toNat
    let fraction := d.digits.drop d.point.toNat
    whole ++ List.replicate (d.point.toNat - whole.length) '0' ++ '.' ::
      (if fraction.isEmpty then ['0'] else fraction)

/-- One digit before the point, and the power of ten that moves it. A power that is not negative
stands after a sign of the layout. -/
def scientific (layout : Layout) (d : DecimalDigits) : List Char :=
  let power := d.point - 1
  d.digits.take 1 ++ (if d.digits.length ≤ 1 then [] else '.' :: d.digits.drop 1) ++
    'e' :: (if power < 0 then [] else layout.exponentSign.toList) ++ (toString power).toList

/-- The number as text. -/
def text (layout : Layout) : Binary64 → String
  | infinite => layout.infinite
  | finite mantissa exponent =>
    let d := shortest mantissa exponent layout.tie
    String.ofList <|
      if layout.leastPoint ≤ d.point && d.point ≤ layout.greatestPoint then positional d
      else scientific layout d

end Binary64

end ClassLang
