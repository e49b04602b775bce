import Stencil.Helper.Builtin

/-!
# Registries

The table of helpers by name, in the order of first registration. Registering a name again replaces
its helper and keeps its place. Looking a name up distinguishes capital letters.
-/

namespace Stencil

/-- What a host offers as a helper. -/
inductive Candidate where
  | helper (h : Helper)
  /-- Something else, as messages show it. -/
  | other (shown : String)

/-- A table of helpers. -/
structure Registry where
  entries : List (String × Helper) := []

namespace Registry

/-- An entry put into a table: in place of the one of its name, or last. -/
def putIn (name : String) (helper : Helper) : List (String × Helper) → List (String × Helper)
  | [] => [(name, helper)]
  | (n, h) :: rest => if n == name then (n, helper) :: rest else (n, h) :: putIn name helper rest

/-- A helper bound to a name. -/
def put (r : Registry) (name : String) (helper : Helper) : Registry := ⟨putIn name helper r.entries⟩

/-- The helper of a name. -/
def lookup (r : Registry) (name : String) : Option Helper := r.entries.lookup name

/-- Registration: the name must not be empty, and what is registered must be a helper. -/
def register (r : Registry) (name : String) : Candidate → Except Fault Registry
  | candidate =>
    if name == "" then throw .emptyHelperName
    else
      match candidate with
      | .helper helper => pure (r.put name helper)
      | .other shown => throw (.notAHelper shown)

/-- Registration under the first name that is given, or else under the helper's own. -/
def registerNamed (r : Registry) (name : Option String) (ownName : String) (helper : Helper) :
    Except Fault Registry :=
  r.register (if name.getD "" == "" then ownName else name.getD "") (.helper helper)

/-- The names in the order of registration. -/
def order (r : Registry) : List String := r.entries.map (·.1)

/-- The names in alphabetical order. -/
def names (r : Registry) : List String := r.order.mergeSort (fun a b => !(b < a))

/-- The number of helpers. -/
def size (r : Registry) : Nat := r.entries.length

/-- The built-ins of every registry. -/
def builtins : List Builtin := [.each, .branch, .negate, .enter, .lookup, .log]

/-- The answer to unresolved names in strict rendering. -/
def strictly (r : Registry) (stamp : Nat) : Registry :=
  r.put Builtin.missing.name ⟨stamp, .builtin .missing⟩

/-- The registry that holds the built-ins, all made at `stamp`. -/
def standard (strict : Bool) (stamp : Nat) : Registry :=
  let r := builtins.foldl (fun r which => r.put which.name ⟨stamp, .builtin which⟩) {}
  if strict then r.strictly stamp else r

/-! ## Laws -/

theorem lookup_putIn (name other : String) (helper : Helper) (entries : List (String × Helper)) :
    (putIn name helper entries).lookup other =
      if other = name then some helper else entries.lookup other := by
  induction entries with
  | nil =>
    by_cases h : other = name
    · simp [putIn, h]
    · have hb : (other == name) = false := by simpa using h
      simp [putIn, List.lookup_cons, h, hb]
  | cons e rest ih =>
    obtain ⟨n, h⟩ := e
    by_cases hn : n = name
    · subst hn
      by_cases ho : other = n
      · simp [putIn, ho]
      · have hb : (other == n) = false := by simpa using ho
        simp [putIn, List.lookup_cons, ho, hb]
    · have hb : (n == name) = false := by simpa using hn
      by_cases ho : other = n
      · subst ho
        simp [putIn, hb, hn]
      · have hob : (other == n) = false := by simpa using ho
        simp [putIn, hb, List.lookup_cons, hob, ih]

/-- A registered name finds its helper, and every other name what it found before. -/
@[simp] theorem lookup_put (r : Registry) (name other : String) (helper : Helper) :
    (r.put name helper).lookup other = if other = name then some helper else r.lookup other :=
  lookup_putIn name other helper r.entries

end Registry

end Stencil
