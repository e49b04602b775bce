import Stencil.Failure
import Stencil.Member
import Stencil.Path

/-!
# Scopes

A scope is a chain of levels, the innermost first. Each level has a model, against which a piece of
template is rendered, and bindings: iteration variables, block parameters and the arguments of
partials. A plain name is looked for level by level outwards, in the bindings before the model; a
path that climbs starts further out. Scopes are never changed, only derived from one another.
-/

namespace Stencil

/-- Names with values, in order; no name stands twice. -/
abbrev Bindings := List (String × Value)

namespace Bindings

/-- A name bound: it keeps its place if it is there, and comes last if not. -/
def set (name : String) (value : Value) : Bindings → Bindings
  | [] => [(name, value)]
  | (n, v) :: rest => if n == name then (n, value) :: rest else (n, v) :: set name value rest

/-- The bindings `later` laid over others. -/
def merge (bindings later : Bindings) : Bindings :=
  later.foldl (fun all (name, value) => set name value all) bindings

/-- The bindings of a list of pairs in which a name may stand twice; its last value counts. -/
def ofPairs (pairs : List (String × Value)) : Bindings := merge [] pairs

end Bindings

/-- One level of a scope. -/
structure Level where
  model : Value
  bindings : Bindings := []

/-- A scope: the level it stands at, the levels around it, and how members are read. -/
structure Scope where
  here : Level
  outer : List Level
  resolvers : List Resolver

namespace Scope

/-- The scope of a whole render. -/
def ofModel (model : Value) (resolvers : List Resolver) : Scope := ⟨⟨model, []⟩, [], resolvers⟩

/-- All levels, innermost first. -/
def levels (s : Scope) : List Level := s.here :: s.outer

/-- A scope one level deeper. -/
def child (s : Scope) (model : Value) (bindings : Bindings) : Scope :=
  ⟨⟨model, bindings⟩, s.levels, s.resolvers⟩

/-- The same scope with more bindings; the levels around it stay, so climbing is not affected. -/
def withBindings (s : Scope) (bindings : Bindings) : Scope :=
  { s with here := { s.here with bindings := s.here.bindings.merge bindings } }

/-- The model of the outermost level. -/
def rootModel (s : Scope) : Value := (s.outer.getLast?.getD s.here).model

/-- The scope one level further out. -/
def parent? (s : Scope) : Option Scope :=
  match s.outer with
  | [] => none
  | level :: rest => some { s with here := level, outer := rest }

/-- The scope so many levels further out. -/
def climb? (s : Scope) : Nat → Option Scope
  | 0 => some s
  | n + 1 => s.parent?.bind (·.climb? n)

/-- What a name stands for at one level: a binding, or else a member of the model. -/
def readLevel (resolvers : List Resolver) (level : Level) (name : String) :
    Except Fault (Option Value) :=
  match level.bindings.lookup name with
  | some value => pure (some value)
  | none => readMember level.model name resolvers

/-- A name looked for level by level, and the members then read from what it stands for. A local
name is looked for at the first level only; a name that is nowhere reads as null. -/
def readLevels (resolvers : List Resolver) (isLocal : Bool) (name : String) (rest : List String) :
    List Level → Except Fault Value
  | [] => pure .null
  | level :: outer => do
    match ← readLevel resolvers level name with
    | some value => readMembers resolvers value rest
    | none => if isLocal then pure .null else readLevels resolvers isLocal name rest outer

/-- The first level that binds a name, models aside. -/
def readBinding (name : String) : List Level → Option Value
  | [] => none
  | level :: outer =>
    match level.bindings.lookup name with
    | some value => some value
    | none => readBinding name outer

/-- A data variable: the root model, then the iteration variables of the levels, then the data of
the render. -/
def readData (s : Scope) (data : Bindings) : List String → Except Fault Value
  | [] => pure .null
  | name :: rest =>
    if name == "root" then readMembers s.resolvers s.rootModel rest
    else
      match readBinding ("@" ++ name) s.levels with
      | some value => readMembers s.resolvers value rest
      | none =>
        match data.lookup name with
        | some value => readMembers s.resolvers value rest
        | none => pure .null

/-- The value that a parsed path reads at the scope it has climbed to. -/
def readPath (s : Scope) (data : Bindings) (path : Path) : Except Fault Value :=
  if path.isData then s.readData data path.segments
  else
    match path.segments with
    | [] => pure s.here.model
    | name :: rest => readLevels s.resolvers path.isLocal name rest s.levels

/-- The value of a reference. Climbing beyond the root fails; what is not there reads as null. -/
def get (s : Scope) (data : Bindings) (reference : String) : Except Failure Value :=
  let path := Path.parse reference
  match s.climb? path.hops with
  | none => throw (.atRender (.beyondRoot reference path.hops))
  | some scope =>
    match scope.readPath data path with
    | .ok value => pure value
    | .error cause => throw (.fault cause)

end Scope

end Stencil
