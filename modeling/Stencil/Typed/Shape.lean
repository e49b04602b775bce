import Stencil.Value.Basic

/-!
# Shapes

A shape says what a raw value has to look like to be loaded: a scalar, a collection, one of several
shapes, one of some named choices, or a record with named fields. What is loaded is a value again,
in which choices and records are told apart from the texts and mappings they were read from.
-/

namespace Stencil.Typed

/-- A loaded value. -/
inductive Loaded where
  /-- A raw value as it is. -/
  | raw (value : Value)
  | list (items : List Loaded)
  | tuple (items : List Loaded)
  /-- A mapping in its order; no two keys are the same key. -/
  | map (entries : List (Loaded × Loaded))
  /-- A choice by its name. -/
  | choice (name : String)
  /-- A record with its fields in the order they are declared. -/
  | record (name : String) (fields : List (String × Loaded))

/-- The plain kinds of scalar. -/
inductive Scalar where
  | text
  | integer
  | decimal
  | truth
deriving DecidableEq, Repr

/-- A field of a record: its name and shape, and what it is when it is left out, if it may be. -/
structure Field (S : Type) where
  name : String
  shape : S
  fallback : Option Loaded := none

/-- A shape. -/
inductive Shape where
  | scalar (kind : Scalar)
  /-- Every value. The name is what the shape goes by where it is written, and is empty where a
  collection does not say what it holds. -/
  | anything (name : String)
  /-- Null, as one of several shapes only. -/
  | null
  /-- A shape that nothing is loaded into. -/
  | unsupported (name : String)
  | listOf (item : Shape)
  | tupleOf (item : Shape)
  | mapOf (key value : Shape)
  /-- The first of some shapes that fits. -/
  | oneOf (variants : List Shape)
  /-- One of some choices, each with a name and the value that stands for it. -/
  | choiceOf (name : String) (choices : List (String × Value))
  | record (name : String) (fields : List (Field Shape))

/-- The name of a scalar kind in messages. -/
def Scalar.name : Scalar → String
  | text => "str"
  | integer => "int"
  | decimal => "float"
  | truth => "bool"

/-- A value is a scalar of a kind. Truth values are no integers, and integers no decimals. -/
def Scalar.holds : Scalar → Value → Bool
  | text, v => v.asText?.isSome
  | integer, .int _ => true
  | decimal, .float _ => true
  | truth, .bool _ => true
  | _, _ => false

namespace Shape

mutual

/-- The same shape. Choices and records are told apart by their names. -/
def same : Shape → Shape → Bool
  | scalar a, scalar b => a == b
  | anything a, anything b => a == b
  | null, null => true
  | unsupported a, unsupported b => a == b
  | listOf a, listOf b => same a b
  | tupleOf a, tupleOf b => same a b
  | mapOf j a, mapOf k b => same j k && same a b
  | oneOf xs, oneOf ys => sameAll xs ys
  | choiceOf a _, choiceOf b _ => a == b
  | record a _, record b _ => a == b
  | _, _ => false

/-- The same shapes in the same order. -/
def sameAll : List Shape → List Shape → Bool
  | [], [] => true
  | x :: xs, y :: ys => same x y && sameAll xs ys
  | _, _ => false

end

/-- The shapes that a shape allows for. -/
def variants : Shape → List Shape
  | oneOf shapes => shapes
  | shape => [shape]

/-- Some shapes without those that came before. -/
def distinct (shapes : List Shape) : List Shape :=
  shapes.foldl (fun kept s => if kept.any (same s) then kept else kept ++ [s]) []

/-- Any of some shapes: variants of variants count as their own, each of them once, and a single one
is all there is. -/
def union (shapes : List Shape) : Shape :=
  match distinct (shapes.flatMap variants) with
  | [only] => only
  | several => oneOf several

end Shape

namespace Loaded

mutual

/-- Loaded values that can be keys: scalars, choices, and tuples of them. -/
def isKey : Loaded → Bool
  | raw v => keyable v
  | tuple items => areKeys items
  | choice _ => true
  | list _ | map _ | record .. => false

/-- All of some loaded values can be keys. -/
def areKeys : List Loaded → Bool
  | [] => true
  | x :: rest => isKey x && areKeys rest

/-- Raw values that can be keys. -/
def keyable : Value → Bool
  | .list .. | .map .. => false
  | .tuple _ items => allKeyable items
  | _ => true

/-- All of some raw values can be keys. -/
def allKeyable : List Value → Bool
  | [] => true
  | v :: rest => keyable v && allKeyable rest

end

mutual

/-- Loaded keys that name one entry. -/
def sameKey : Loaded → Loaded → Bool
  | raw a, raw b => a.sameKey b
  | choice a, choice b => a == b
  | tuple xs, tuple ys => sameKeys xs ys
  | _, _ => false

/-- The same, along two lists of keys. -/
def sameKeys : List Loaded → List Loaded → Bool
  | [], [] => true
  | x :: xs, y :: ys => sameKey x y && sameKeys xs ys
  | _, _ => false

end

/-- An entry put into a mapping: it replaces the value of the key that is there, or comes last. -/
def putEntry (key value : Loaded) : List (Loaded × Loaded) → List (Loaded × Loaded)
  | [] => [(key, value)]
  | (k, v) :: rest => if k.sameKey key then (k, value) :: rest else (k, v) :: putEntry key value rest

end Loaded

end Stencil.Typed
