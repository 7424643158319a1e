import CommentMacro.Decimal.Binary64
import CommentMacro.Text.Blank
import CommentMacro.Text.DecimalDigit

/-!
# Reading a decimal number

A number is written with an optional sign, digits with an optional point among
or beside them, and an optional exponent; or as one of the words for infinity or
for no number. Blanks around it do not count, digits may be of any script, and a
single underscore may stand between two digits.
-/

namespace CommentMacro.Decimal

/-- A character of a number as it is read: blanks and digits of any script stand
for those of ASCII. -/
def asciiChar? (c : Char) : Option Char :=
  if c.toNat < 128 then some c
  else if Text.isBlank c then some ' '
  else (Text.digitValue? c).map Nat.digitChar

/-- Whether a blank may stand around a number: the separator controls may not. -/
def isOuterBlank (c : Char) : Bool :=
  c == ' ' || (0x9 ≤ c.toNat && c.toNat ≤ 0xD)

def stripOuter (t : Text) : Text :=
  ((t.dropWhile isOuterBlank).reverse.dropWhile isOuterBlank).reverse

/-- A text without its underscores, if each stands between two digits. -/
def dropUnderscores? : (last : Char) → Text → Option Text
  | last, [] => if last = '_' then none else some []
  | last, c :: t =>
    if c = '_' then if last.isDigit then dropUnderscores? c t else none
    else if last = '_' && !c.isDigit then none
    else (dropUnderscores? c t).map (c :: ·)

/-- A sign, if there is one: whether it is a minus, and what follows. -/
def takeSign : Text → Bool × Text
  | '-' :: t => (true, t)
  | '+' :: t => (false, t)
  | t => (false, t)

def digitsValue (t : Text) : Nat :=
  t.foldl (fun value c => 10 * value + (c.toNat - '0'.toNat)) 0

/-- An exponent, or none at the end of the text. -/
def exponent? : Text → Option Int
  | [] => some 0
  | c :: t =>
    if c = 'e' || c = 'E' then
      let (negative, digits) := takeSign t
      if digits.isEmpty || !digits.all Char.isDigit then none
      else some (if negative then -(digitsValue digits : Int) else digitsValue digits)
    else none

/-- A number that is beyond all finite numbers from here on. -/
def exponentBound : Int :=
  400

/-- The number with the given digits times a power of ten. Exponents far out of
range are not worked out. -/
def ofDigits (negative : Bool) (digits : Text) (exponent : Int) : Binary64 :=
  let value := digitsValue digits
  let magnitude := ((digits.dropWhile (· == '0')).length : Int) + exponent
  if value = 0 || magnitude < -exponentBound then .ofRatio negative 0 1
  else if exponentBound < magnitude then .infinite negative
  else .ofRatio negative (value * Nat.pow 10 exponent.toNat) (Nat.pow 10 (-exponent).toNat)

def readDigits? (negative : Bool) (t : Text) : Option Binary64 := do
  let whole := t.takeWhile Char.isDigit
  let rest := t.dropWhile Char.isDigit
  let (fraction, rest) := match rest with
    | '.' :: rest => (rest.takeWhile Char.isDigit, rest.dropWhile Char.isDigit)
    | rest => ([], rest)
  if whole.isEmpty && fraction.isEmpty then none
  else
    let exponent ← exponent? rest
    return ofDigits negative (whole ++ fraction) (exponent - fraction.length)

def read? (t : Text) : Option Binary64 := do
  let t ← t.mapM asciiChar?
  let t ← dropUnderscores? ' ' (stripOuter t)
  let (negative, t) := takeSign t
  let word := t.map Char.toLower
  if word = "inf".toList || word = "infinity".toList then return .infinite negative
  else if word = "nan".toList then return .notANumber
  else readDigits? negative t

end CommentMacro.Decimal
