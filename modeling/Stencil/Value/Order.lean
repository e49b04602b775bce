import Stencil.Value.Basic

/-!
# The order of keys

Keys of one kind are ordered: numbers by size, whatever their types, texts by their characters, bytes
by the bytes, and tuples by the first part in which they differ. Keys of different kinds are not.
-/

namespace Stencil.Value

/-- The fraction that a number is. -/
def ratio? : Value → Option (Int × Nat)
  | bool b => some (if b then 1 else 0, 1)
  | int n => some (n, 1)
  | float x => ratioOf? x
  | _ => none

/-- A number as a double, for those that are no fraction. -/
def unbounded : Value → Float
  | float x => x
  | _ => 0.0

/-- Truth values, integers and doubles are numbers. -/
def isNumber : Value → Bool
  | bool _ | int _ | float _ => true
  | _ => false

/-- The smaller of two numbers. -/
def lessNumber (a b : Value) : Bool :=
  match a.ratio?, b.ratio? with
  | some (m, d), some (n, e) => decide (m * e < n * d)
  | _, _ => decide (a.unbounded < b.unbounded)

/-- Bytes in the order of their first difference. -/
def lessBytes : List UInt8 → List UInt8 → Bool
  | [], ys => !ys.isEmpty
  | _ :: _, [] => false
  | x :: xs, y :: ys => if x == y then lessBytes xs ys else decide (x < y)

mutual

/-- The first key comes before the second, if they can be compared. -/
def less? : Value → Value → Option Bool
  | tuple _ xs, tuple _ ys => lessParts? xs ys
  | bytes _ xs, bytes _ ys => some (lessBytes xs ys)
  | a, b =>
    if a.isNumber && b.isNumber then some (lessNumber a b)
    else
      match a.asText?, b.asText? with
      | some s, some t => some (decide (s < t))
      | _, _ => none

/-- The same, along the parts of two tuples. -/
def lessParts? : List Value → List Value → Option Bool
  | [], ys => some (!ys.isEmpty)
  | _ :: _, [] => some false
  | x :: xs, y :: ys => if x.sameKey y then lessParts? xs ys else less? x y

end

/-- Keys that can all be compared, in order. -/
def sortKeys? (keys : List Value) : Option (List Value) :=
  if keys.length ≤ 1 || keys.all fun a => keys.all fun b => (less? a b).isSome then
    some (keys.mergeSort fun a b => (less? b a) != some true)
  else none

end Stencil.Value
