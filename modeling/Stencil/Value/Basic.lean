import Stencil.Failure

/-!
# Values

What a model holds and what helpers pass around: numbers, texts, collections, functions and
iterators. Two values may be equal without being the very same value, and that matters: a section
that enters the value it already stands in opens no scope. So every collection and function carries
a label, and every number and text where it comes from. A host hands each of them over under a label
of its own, and each literal of a template is a value of its own. What the program makes on the way
(an index, a length, the text of a clause) is known by its content alone: a computation that comes to
a number or a text may answer any equal one that is there already.
-/

namespace Stencil

/-- What tells apart values that may be equal without being the same. -/
abbrev Label := Nat

/-- Which argument it is, by how many of its kind come behind it. -/
inductive Slot where
  | positional (behind : Nat)
  | named (behind : Nat)
deriving DecidableEq, Repr

/-- Where a number or a text comes from. -/
inductive Origin where
  /-- Made on the way. -/
  | made
  /-- Handed over by the host, or by a helper that has asked for a label. -/
  | given (label : Label)
  /-- Written as a literal: the place of the tag, and the way to the literal among its arguments. -/
  | written (place : Option Location) (slots : List Slot)
deriving DecidableEq, Repr

/-- A particular number or text: its content, and where it comes from. -/
structure Particular (α : Type) where
  content : α
  origin : Origin := .made

namespace Particular

instance : Coe (Particular String) String := ⟨content⟩
instance : Coe (Particular Int) Int := ⟨content⟩
instance : Coe (Particular Float) Float := ⟨content⟩
instance : Coe String (Particular String) := ⟨fun s => { content := s }⟩
instance : Coe Int (Particular Int) := ⟨fun n => { content := n }⟩
instance : Coe Float (Particular Float) := ⟨fun x => { content := x }⟩
instance (n : Nat) : OfNat (Particular Int) n := ⟨{ content := n }⟩

/-- The very same number or text. Contents of which only one is kept are the same wherever they come
from. -/
def same {α : Type} (equal : α → α → Bool) (single : α → Bool) (a b : Particular α) : Bool :=
  equal a.content b.content && (a.origin == b.origin || single a.content)

/-- Small integers are kept once. -/
def singleInt (n : Int) : Bool := -5 ≤ n && n ≤ 256

/-- The empty text and texts of one Latin character are kept once. -/
def singleText (s : String) : Bool :=
  match s.toList with
  | [] => true
  | [c] => c.toNat < 256
  | _ => false

end Particular

mutual

/-- What a host function does when it is called with the text of a section, or with nothing. -/
inductive Callable where
  /-- Answers one value, whatever it is given. -/
  | returns (result : Value)
  /-- Answers the text it is given, between two others. -/
  | surround (before after : String)
  /-- Raises a runtime fault. -/
  | raises (message : String)

/-- A value. -/
inductive Value where
  | null
  | bool (b : Bool)
  | int (n : Particular Int)
  | float (x : Particular Float)
  | text (s : Particular String)
  /-- A text that is written without escaping. -/
  | safe (s : Particular String)
  | bytes (label : Label) (content : List UInt8)
  | list (label : Label) (items : List Value)
  | tuple (label : Label) (items : List Value)
  /-- A mapping in its order; no two keys are the same key. -/
  | map (label : Label) (entries : List (Value × Value))
  /-- An object with public fields. -/
  | object (label : Label) (fields : List (String × Value))
  /-- Values that can be drawn once; what has been drawn is known by the label. -/
  | iterator (label : Label) (items : List Value)
  | function (label : Label) (call : Callable)
  /-- A lambda made of a function: its answers are markup. -/
  | lambda (label : Label) (inner : Label) (call : Callable)
  /-- A lambda of the host's own that answers what a path of the scope reads. -/
  | pathLambda (label : Label) (path : String)

end

instance : Inhabited Value := ⟨.null⟩

namespace Value

/-- A text that is to be read as it is, safe or not. -/
def asText? : Value → Option String
  | text s | safe s => some s
  | _ => none

/-- The null value. -/
def isNull : Value → Bool
  | null => true
  | _ => false

/-- Lambdas: values that answer markup. -/
def isLambda : Value → Bool
  | lambda .. | pathLambda .. => true
  | _ => false

/-- The very same value: truth values by what they are, numbers and texts by content and origin,
everything else by its label. -/
def same : Value → Value → Bool
  | null, null => true
  | bool a, bool b => a == b
  | int a, int b => a.same (· == ·) Particular.singleInt b
  | float a, float b => a.same (·.toBits == ·.toBits) (fun _ => false) b
  | text a, text b => a.same (· == ·) Particular.singleText b
  | safe a, safe b => a.same (· == ·) (fun _ => false) b
  | bytes a _, bytes b _ => a == b
  | list a _, list b _ => a == b
  | tuple a xs, tuple b ys => a == b || (xs.isEmpty && ys.isEmpty)
  | map a _, map b _ => a == b
  | object a _, object b _ => a == b
  | iterator a _, iterator b _ => a == b
  | function a _, function b _ => a == b
  | lambda a _ _, lambda b _ _ => a == b
  | pathLambda a _, pathLambda b _ => a == b
  | _, _ => false

/-- The fraction that a finite double is, over a power of two. -/
def ratioOf? (x : Float) : Option (Int × Nat) :=
  let bits : Nat := x.toBits.toNat
  let field : Nat := bits / Nat.pow 2 52 % Nat.pow 2 11
  if field == 2047 then none
  else
    let mantissa : Nat := if field == 0 then bits % Nat.pow 2 52 else Nat.pow 2 52 + bits % Nat.pow 2 52
    let power : Int := (if field == 0 then 1 else (field : Int)) - 1075
    let whole : Int := (mantissa * Nat.pow 2 power.toNat : Nat)
    some (if bits / Nat.pow 2 63 == 1 then -whole else whole, Nat.pow 2 (-power).toNat)

/-- The whole number that a double is. -/
def wholeOf? (x : Float) : Option Int :=
  match ratioOf? x with
  | some (whole, under) => if whole % under == 0 then some (whole / under) else none
  | none => none

/-- The whole number that a key stands for: true is one, and a double without a fraction is the
integer. -/
def wholeKey? : Value → Option Int
  | bool b => some (if b then 1 else 0)
  | int n => some n
  | float x => wholeOf? x
  | _ => none

mutual

/-- Two keys that name one entry of a mapping: numbers by their value, texts by their characters,
tuples part by part. -/
def sameKey : Value → Value → Bool
  | tuple _ xs, tuple _ ys => sameKeys xs ys
  | bytes _ xs, bytes _ ys => xs == ys
  | a, b =>
    match a.wholeKey?, b.wholeKey?, a.asText?, b.asText? with
    | some m, some n, _, _ => m == n
    | _, _, some s, some t => s == t
    | _, _, _, _ =>
      match a, b with
      | float x, float y => x.content == y.content
      | _, _ => a.same b

/-- The same, along two lists of keys. -/
def sameKeys : List Value → List Value → Bool
  | [], [] => true
  | x :: xs, y :: ys => sameKey x y && sameKeys xs ys
  | _, _ => false

end

/-- An entry put into a mapping: it replaces the value of the key that is there, or comes last. -/
def putEntry (key value : Value) : List (Value × Value) → List (Value × Value)
  | [] => [(key, value)]
  | (k, v) :: rest => if k.sameKey key then (k, value) :: rest else (k, v) :: putEntry key value rest

/-- The mapping of some pairs, put in one after the other. -/
def mapOf (label : Label) (pairs : List (Value × Value)) : Value :=
  map label (pairs.foldl (fun entries (k, v) => putEntry k v entries) [])

/-- The value under a text key. -/
def entry? (name : String) : List (Value × Value) → Option Value
  | [] => none
  | (k, v) :: rest => if k.asText? == some name then some v else entry? name rest

end Value

end Stencil
