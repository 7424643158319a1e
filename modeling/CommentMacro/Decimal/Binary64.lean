/-!
# Binary numbers of double precision

A number of double precision is a significand below `2 ^ 53` times a power of
two, an infinity, or not a number. `Binary64.nearest?` rounds a quotient to the
nearest of them; of two equally near ones it takes the even one.
-/

namespace CommentMacro

inductive Binary64 where
  | notANumber
  | infinite (negative : Bool)
  | finite (negative : Bool) (significand : Nat) (exponent : Int)
  deriving DecidableEq, Repr, Inhabited

namespace Binary64

def bits : Nat :=
  53

/-- A power of two; negative exponents count as zero. -/
def twoPow (exponent : Int) : Nat :=
  Nat.pow 2 exponent.toNat

def significandBound : Nat :=
  Nat.pow 2 bits

def leastExponent : Int :=
  -1074

def greatestExponent : Int :=
  971

/-- A quotient rounded to the nearest whole number, a half to the even one. -/
def roundHalfEven (num den : Nat) : Nat :=
  let whole := num / den
  let twice := 2 * (num % den)
  if twice < den then whole
  else if den < twice then whole + 1
  else if whole % 2 = 0 then whole else whole + 1

/-- Numerator and denominator of a quotient divided by `2 ^ exponent`. -/
def scale (num den : Nat) (exponent : Int) : Nat × Nat :=
  (num * twoPow (-exponent), den * twoPow exponent)

/-- The exponent with which the significand of a quotient fills its bits, or the
least exponent if that is larger. -/
def exponentFor (num den : Nat) : Int :=
  let guess : Int := (Nat.log2 num : Int) - Nat.log2 den - bits
  let (scaledNum, scaledDen) := scale num den guess
  max leastExponent (if scaledNum / scaledDen < significandBound then guess else guess + 1)

def nearest? (num den : Nat) : Option (Nat × Int) :=
  if num = 0 then some (0, leastExponent)
  else
    let exponent := exponentFor num den
    let (scaledNum, scaledDen) := scale num den exponent
    let rounded := roundHalfEven scaledNum scaledDen
    let (significand, exponent) :=
      if rounded = significandBound then (significandBound / 2, exponent + 1)
      else (rounded, exponent)
    if greatestExponent < exponent then none else some (significand, exponent)

def ofRatio (negative : Bool) (num den : Nat) : Binary64 :=
  match nearest? num den with
  | some (significand, exponent) => .finite negative significand exponent
  | none => .infinite negative

/-- The whole number of thousandths in a number, none if it is negative or not
finite. -/
def thousandths : Binary64 → Nat
  | finite false significand exponent =>
    significand * 1000 * twoPow exponent / twoPow (-exponent)
  | _ => 0

end Binary64

end CommentMacro
