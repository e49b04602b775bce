/-!
# Shortest decimals

The shortest decimal that reads back as a given double, found in exact arithmetic. A finite double
is `mantissa · 2 ^ exponent`; the decimals that read back as it fill an interval around it, whose
ends belong to it when the mantissa is even. For one digit, two digits, and so on up to seventeen,
the two neighbours of the double on the grid of decimals with that many digits are tried; the first
grid with a neighbour inside the interval gives the answer, and of two such neighbours the nearer,
a tie going to the even one.
-/

namespace Stencil.Decimal

/-- The positive number `mantissa · 2 ^ exponent`. When `narrow` holds, the next smaller double is
half as far away as the next larger one. -/
structure Binary where
  mantissa : Nat
  exponent : Int
  narrow : Bool
deriving DecidableEq, Repr

/-- The magnitude of a finite double, from its bits. -/
def Binary.ofFloat (x : Float) : Binary :=
  let bits : Nat := x.toBits.toNat % Nat.pow 2 63
  let field : Nat := bits / Nat.pow 2 52
  let fraction : Nat := bits % Nat.pow 2 52
  if field == 0 then ⟨fraction, -1074, false⟩
  else ⟨Nat.pow 2 52 + fraction, (field : Int) - 1075, fraction == 0 && field > 1⟩

/-- The power of ten of the leading digit: `10 ^ p ≤ x < 10 ^ (p + 1)`. -/
def Binary.leadingPower (x : Binary) : Int :=
  let scale := Nat.pow 2 x.exponent.toNat
  let under := Nat.pow 2 (-x.exponent).toNat
  let whole := x.mantissa * scale / under
  if whole > 0 then (toString whole).length - 1
  else -((toString (under / (x.mantissa * scale))).length : Int)

/-- The neighbour of `x` on the grid of multiples of `10 ^ power` that reads back as `x`, in units
of the grid. -/
def Binary.onGrid? (x : Binary) (power : Int) : Option Nat :=
  -- Everything is counted in units of a quarter of the last binary place.
  let units := Nat.pow 2 (x.exponent - 2).toNat * Nat.pow 10 (-power).toNat
  let grid := Nat.pow 10 power.toNat * Nat.pow 2 (2 - x.exponent).toNat
  let low := (4 * x.mantissa - if x.narrow then 1 else 2) * units
  let middle := 4 * x.mantissa * units
  let high := (4 * x.mantissa + 2) * units
  let inside (d : Nat) : Bool :=
    d > 0 && if x.mantissa % 2 == 0 then low ≤ d * grid && d * grid ≤ high
    else low < d * grid && d * grid < high
  let below := middle / grid
  let above := below + 1
  match inside below, inside above with
  | false, false => none
  | true, false => some below
  | false, true => some above
  | true, true =>
    let toBelow := middle - below * grid
    let toAbove := above * grid - middle
    if toBelow < toAbove || (toBelow == toAbove && below % 2 == 0) then some below else some above

/-- The first of the grids with `digits`, `digits + 1`, … digits that has a point reading back as
`x`, with that point; `fuel` bounds how many are tried. -/
def Binary.firstGrid (x : Binary) (leading : Int) : Nat → Nat → Nat × Int
  | 0, digits => (x.mantissa, leading - digits)
  | fuel + 1, digits =>
    let power := leading - (digits - 1)
    match x.onGrid? power with
    | some d => (d, power)
    | none => x.firstGrid leading fuel (digits + 1)

/-- The shortest decimal `d · 10 ^ p` that reads back as `x`, as the pair `(d, p)`. -/
def Binary.shortest (x : Binary) : Nat × Int := x.firstGrid x.leadingPower 17 1

end Stencil.Decimal
