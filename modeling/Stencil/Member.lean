import Stencil.Value.Basic
import Stencil.Decimal.Integer

/-!
# Members

How a named member is read out of a value: the entry of a mapping, the item of a sequence, the
public field of an object. Each of these ways is a resolver; a scope asks its resolvers in turn, and
the first that answers decides. No answer is different from an answer of null.
-/

namespace Stencil

/-- A way of reading members. -/
inductive Resolver where
  /-- Entries of mappings. -/
  | entries
  /-- Items of sequences by index, and their length. -/
  | items
  /-- Public fields. -/
  | fields
deriving DecidableEq, Repr

namespace Resolver

/-- The resolvers of an engine that names no others. -/
def standard : List Resolver := [entries, items, fields]

/-- The item of a sequence that a name stands for: a text of digits is an index. -/
def readItem (items : List Value) (name : String) : Except Fault (Option Value) :=
  if name == "length" then pure (some (.int (items.length : Int)))
  else if name != "" && name.toList.all Text.isFigure then do
    let index ← Decimal.readInteger name
    pure items[index.toNat]?
  else pure none

/-- The public fields of a value. Numbers have their parts; a lambda shows the function it was made
of. -/
def fieldsOf : Value → List (String × Value)
  | .bool b =>
    let n : Int := if b then 1 else 0
    [("real", .int n), ("imag", .int 0), ("numerator", .int n), ("denominator", .int 1)]
  | .int n => [("real", .int n), ("imag", .int 0), ("numerator", .int n), ("denominator", .int 1)]
  | .float x => [("real", .float x), ("imag", .float (0.0 : Float))]
  | .object _ known => known
  | .lambda _ inner call => [("fn", .function inner call)]
  | _ => []

/-- What one resolver answers for a member. Names that start with an underscore are private. -/
def read (resolver : Resolver) (value : Value) (name : String) : Except Fault (Option Value) :=
  match resolver, value with
  | entries, .map _ found => pure (Value.entry? name found)
  | items, .list _ found => readItem found name
  | items, .tuple _ found => readItem found name
  | fields, v => pure (if name.toList.head? == some '_' then none else (fieldsOf v).lookup name)
  | _, _ => pure none

end Resolver

/-- The first answer of the resolvers. -/
def readMember (value : Value) (name : String) : List Resolver → Except Fault (Option Value)
  | [] => pure none
  | resolver :: rest => do
    match ← resolver.read value name with
    | some found => pure (some found)
    | none => readMember value name rest

/-- The value at the end of a chain of members; a missing member anywhere reads as null. -/
def readMembers (resolvers : List Resolver) (value : Value) : List String → Except Fault Value
  | [] => pure value
  | name :: rest => do
    if value.isNull then pure .null
    else
      match ← readMember value name resolvers with
      | some found => readMembers resolvers found rest
      | none => pure .null

end Stencil
