import Stencil.Text.Blank
import Stencil.Text.Digit

/-!
# Reading decimal fractions

A decimal text is read into a sign, a whole number and a power of ten, exactly; the nearest double
is taken last.
-/

namespace Stencil.Decimal

/-- The number `± digits · 10 ^ exponent`. -/
structure Scientific where
  negative : Bool
  digits : Nat
  exponent : Int
deriving DecidableEq, Repr

/-- The double nearest to a decimal number. Exponents far outside the range of doubles are cut off
before any power is computed. -/
def Scientific.toFloat (x : Scientific) : Float :=
  let size : Int := (toString x.digits).length + x.exponent
  let magnitude : Float :=
    if x.digits == 0 || size < -400 then 0.0
    else if size > 400 then 1.0 / 0.0
    else Float.ofScientific x.digits (x.exponent < 0) x.exponent.natAbs
  if x.negative then -magnitude else magnitude

/-- The sign in front of a number, and what follows it. -/
def takeSign : List Char → Bool × List Char
  | '-' :: rest => (true, rest)
  | '+' :: rest => (false, rest)
  | cs => (false, cs)

/-- The power of ten written behind an `e`, or zero when nothing is left. -/
def readExponent? : List Char → Option Int
  | [] => some 0
  | e :: rest =>
    if e == 'e' || e == 'E' then
      let (negative, digits) := takeSign rest
      if digits.isEmpty || !digits.all Text.isDecimal then none
      else
        let n : Int := Text.digitsValue digits
        some (if negative then -n else n)
    else none

/-- A decimal text with an optional sign, fraction and exponent; at least one digit stands beside
the point. -/
def readScientific? (cs : List Char) : Option Scientific :=
  let (negative, body) := takeSign cs
  let whole := body.takeWhile Text.isDecimal
  let afterWhole := body.dropWhile Text.isDecimal
  let (fraction, rest) : List Char × List Char := match afterWhole with
    | '.' :: r => (r.takeWhile Text.isDecimal, r.dropWhile Text.isDecimal)
    | r => ([], r)
  if whole.isEmpty && fraction.isEmpty then none
  else
    (readExponent? rest).map fun power =>
      { negative, digits := Text.digitsValue (whole ++ fraction), exponent := power - fraction.length }

/-- A double from its text: a decimal number, or one of the words for infinity and for no number,
in any case of letters and with white space around. -/
def readFloat? (text : String) : Option Float :=
  let cs := (Text.strip text).toList
  let (negative, body) := takeSign cs
  let word := String.ofList (body.map Char.toLower)
  if word == "inf" || word == "infinity" then some (if negative then -(1.0 / 0.0) else 1.0 / 0.0)
  else if word == "nan" then some (0.0 / 0.0)
  else (readScientific? cs).map Scientific.toFloat

example : readScientific? "-1.50e3".toList = some ⟨true, 150, 1⟩ := by decide +kernel

end Stencil.Decimal
