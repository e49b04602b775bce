import Stencil.Fault
import Stencil.Text.Digit

/-!
# Integers in decimal

Reading and writing integers of any size up to a fixed number of digits, in the digits of any
script. A text may have passed for digits in the wide sense and still not be an integer: reading
says so.
-/

namespace Stencil.Decimal

/-- The integer that a text of digits with an optional minus sign writes. The leading decimal digits
are counted before anything else is looked at, so a text with too many of them is refused as too
long even when something wrong follows. -/
def readInteger (text : String) : Except Fault Int :=
  let (negative, digits) : Bool × List Char := match text.toList with
    | '-' :: rest => (true, rest)
    | cs => (false, cs)
  let count := (digits.takeWhile Text.isDecimal).length
  if count > Fault.digitLimit then throw (.longInteger (some count))
  else if count == 0 || count < digits.length then throw (.badInteger text)
  else
    let n : Int := Text.digitsValue digits
    pure (if negative then -n else n)

/-- The decimal text of an integer. -/
def writeInteger (n : Int) : Except Fault String :=
  if n.natAbs < Nat.pow 10 Fault.digitLimit then pure (toString n) else throw (.longInteger none)

end Stencil.Decimal
