import Stencil.Decimal.Shortest

/-!
# Laying out a double

How the digits of a double are set: positionally or with an exponent, and with which signs and
words. The choices are one record, so that a format is a value of it.
-/

namespace Stencil.Decimal

/-- The choices of a number format. A number `0.ddd · 10 ^ point` is set positionally when `point`
lies between the two bounds. -/
structure Layout where
  lowestPoint : Int
  highestPoint : Int
  /-- The least number of digits of an exponent. -/
  exponentWidth : Nat
  /-- Written behind a whole number that is set positionally. -/
  wholeTail : String
  infinity : String
  notANumber : String

/-- `n` zeros. -/
def zeros (n : Nat) : String := String.ofList (List.replicate n '0')

/-- Digits with the decimal point after `point` of them. -/
def Layout.positional (layout : Layout) (digits : String) (point : Int) : String :=
  let size := digits.length
  if point ≤ 0 then "0." ++ zeros (-point).toNat ++ digits
  else if point.toNat < size then
    String.ofList (digits.toList.take point.toNat) ++ "." ++
      String.ofList (digits.toList.drop point.toNat)
  else digits ++ zeros (point.toNat - size) ++ layout.wholeTail

/-- Digits with an exponent. -/
def Layout.scientific (layout : Layout) (digits : String) (point : Int) : String :=
  let fraction := String.ofList (digits.toList.drop 1)
  let power := point - 1
  let figures := toString power.natAbs
  String.ofList (digits.toList.take 1) ++ (if fraction.isEmpty then "" else "." ++ fraction) ++
    (if power < 0 then "e-" else "e+") ++ zeros (layout.exponentWidth - figures.length) ++ figures

/-- The text of a double. -/
def Layout.text (layout : Layout) (x : Float) : String :=
  let negative := x.toBits.toNat / Nat.pow 2 63 == 1
  if x.isNaN then layout.notANumber
  else
    let magnitude :=
      if x.isInf then layout.infinity
      else if x == 0.0 then layout.positional "0" 1
      else
        let (d, power) := (Binary.ofFloat x).shortest
        let all := (toString d).toList
        let digits := String.ofList (all.reverse.dropWhile (· == '0')).reverse
        let point : Int := all.length + power
        if layout.lowestPoint ≤ point && point ≤ layout.highestPoint then
          layout.positional digits point
        else layout.scientific digits point
    if negative then "-" ++ magnitude else magnitude

end Stencil.Decimal
