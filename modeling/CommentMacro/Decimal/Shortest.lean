import CommentMacro.Decimal.Binary64
import CommentMacro.Text.Basic

/-!
# The shortest decimal of a binary number

A finite binary number stands for all the reals that round to it. It is written
with the decimal on the coarsest grid of powers of ten that has a point among
these; of two points the nearer one is taken.

The layout is positional for numbers from `0.0001` to below `10 ^ 16` and
otherwise has an exponent of two digits at least; a positional number has a
digit behind the point at least.
-/

namespace CommentMacro.Decimal

open Binary64 (leastExponent significandBound twoPow)

/-- Digits, read as one whole number, times a power of ten. -/
structure Scaled where
  digits : Nat
  exponent : Int
  deriving DecidableEq, Repr, Inhabited

/-- In quarters of the distance of a significand to the next: the ends of the
interval of reals that round to it. Below a power of two the distance is half. -/
def interval (significand : Nat) (exponent : Int) : Nat × Nat :=
  let low := if significand = significandBound / 2 ∧ leastExponent < exponent then 1 else 2
  (4 * significand - low, 4 * significand + 2)

/-- The step of the grid of `10 ^ power`, and a quarter of the distance of a
significand to the next, as whole numbers in one measure. -/
structure Steps where
  decimal : Nat
  quarter : Nat
  deriving DecidableEq, Repr, Inhabited

def stepsOf (exponent power : Int) : Steps where
  decimal := Nat.pow 10 power.toNat * twoPow (-(exponent - 2))
  quarter := twoPow (exponent - 2) * Nat.pow 10 (-power).toNat

/-- Whether a point of a grid lies in the interval of a number. The ends belong to
it if the significand is even. -/
def isInside (significand : Nat) (exponent power : Int) (point : Nat) : Bool :=
  let steps := stepsOf exponent power
  let place := point * steps.decimal
  let low := (interval significand exponent).1 * steps.quarter
  let high := (interval significand exponent).2 * steps.quarter
  if significand % 2 = 0 then low ≤ place && place ≤ high else low < place && place < high

def placeOf (significand : Nat) (exponent power : Int) : Nat :=
  4 * significand * (stepsOf exponent power).quarter

def distance (significand : Nat) (exponent power : Int) (point : Nat) : Nat :=
  let place := point * (stepsOf exponent power).decimal
  (placeOf significand exponent power - place) + (place - placeOf significand exponent power)

/-- The last point of a grid that is not above a number. -/
def pointBelow (significand : Nat) (exponent power : Int) : Nat :=
  placeOf significand exponent power / (stepsOf exponent power).decimal

/-- The point of the grid of `10 ^ power` that lies in the interval of a number,
the nearer one of two and the even one if both are equally near. -/
def pointOnGrid? (significand : Nat) (exponent power : Int) : Option Nat :=
  let below := pointBelow significand exponent power
  let above := below + 1
  match isInside significand exponent power below, isInside significand exponent power above with
  | true, true =>
    let fromBelow := distance significand exponent power below
    let fromAbove := distance significand exponent power above
    if fromBelow < fromAbove then some below
    else if fromAbove < fromBelow then some above
    else if below % 2 = 0 then some below else some above
  | true, false => some below
  | false, true => some above
  | false, false => none

def firstPoint (significand : Nat) (exponent : Int) : (grids : Nat) → (power : Int) → Scaled
  | 0, power => ⟨0, power⟩
  | grids + 1, power =>
    match pointOnGrid? significand exponent power with
    | some digits => ⟨digits, power⟩
    | none => firstPoint significand exponent grids (power - 1)

/-- The shortest decimal of a number that is not zero. The search starts at a
power of ten above the number. Seventeen digits are always enough, so that the
number of grids tried does not matter. -/
def shortest (significand : Nat) (exponent : Int) : Scaled :=
  let magnitude := (Nat.log2 significand : Int) + exponent + 1
  firstPoint significand exponent 24 (Int.fdiv (magnitude * 30103) 100000 + 2)

def exponentText (exponent : Int) : Text :=
  let digits := Text.ofNat exponent.natAbs
  'e' :: (if exponent < 0 then '-' else '+') ::
    List.replicate (2 - digits.length) '0' ++ digits

/-- Digits with the decimal point behind the first `point` of them. -/
def layout (digits : Text) (point : Int) : Text :=
  if -4 < point ∧ point ≤ 16 then
    if point ≤ 0 then '0' :: '.' :: List.replicate (-point).toNat '0' ++ digits
    else if digits.length ≤ point then
      digits ++ List.replicate (point.toNat - digits.length) '0' ++ ['.', '0']
    else digits.take point.toNat ++ '.' :: digits.drop point.toNat
  else
    let fraction := digits.drop 1
    digits.take 1 ++ (if fraction.isEmpty then [] else '.' :: fraction) ++ exponentText (point - 1)

def magnitudeText (significand : Nat) (exponent : Int) : Text :=
  if significand = 0 then "0.0".toList
  else
    let decimal := shortest significand exponent
    let digits := Text.ofNat decimal.digits
    layout digits (digits.length + decimal.exponent)

def print : Binary64 → Text
  | .notANumber => "nan".toList
  | .infinite negative => if negative then "-inf".toList else "inf".toList
  | .finite negative significand exponent =>
    (if negative then ['-'] else []) ++ magnitudeText significand exponent

end CommentMacro.Decimal
