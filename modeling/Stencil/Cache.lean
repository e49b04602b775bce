import Stencil.Loader.Source
import Stencil.Node.Basic

/-!
# Caches

A cache remembers compiled templates by the names of their sources. With reload checking a template
counts only as long as its source is as fresh as when it was compiled. A source that fails to say how
fresh it is, and a compilation that fails, leave the cache as it was.
-/

namespace Stencil

/-- A compiled template; compiling again gives another tree number. -/
structure Compiled where
  tree : Nat
  template : Template

/-- What is remembered of a compilation. -/
structure CacheEntry where
  compiled : Compiled
  freshness : Freshness

/-- A cache: none, or entries by name with or without reload checking. -/
inductive Cache where
  | none
  | entries (reload : Bool) (known : List (String × CacheEntry))

namespace Cache

/-- The empty cache that remembers. -/
def empty (reload : Bool) : Cache := entries reload []

/-- An entry put under a name: in place of the one there, or last. -/
def putAt (name : String) (entry : CacheEntry) :
    List (String × CacheEntry) → List (String × CacheEntry)
  | [] => [(name, entry)]
  | (n, e) :: rest => if n == name then (n, entry) :: rest else (n, e) :: putAt name entry rest

/-- The remembered template of a source, if it still counts. With reload checking the source is asked
how fresh it is, which it may fail to say. -/
def find? (cache : Cache) (source : Source) : Except Failure (Option Compiled) :=
  match cache with
  | none => pure .none
  | entries reload known =>
    match known.lookup source.name with
    | some entry =>
      if reload then do
        pure (if entry.freshness != (← source.freshness) then .none else some entry.compiled)
      else pure (some entry.compiled)
    | .none => pure .none

/-- A compilation remembered under a name. -/
def store (cache : Cache) (name : String) (entry : CacheEntry) : Cache :=
  match cache with
  | none => none
  | entries reload known => entries reload (putAt name entry known)

/-- How a template of a source will be remembered: with the freshness that the source has before it is
compiled. A cache that remembers nothing does not ask for it. -/
def remembering (cache : Cache) (source : Source) : Except Failure (Compiled → Cache) :=
  match cache with
  | none => pure fun _ => none
  | entries .. => do
    let freshness ← source.freshness
    pure fun compiled => cache.store source.name ⟨compiled, freshness⟩

/-- The template of a source: the remembered one, or else the one that `compile` makes, which is
remembered from then on. `next` is the number of the next tree; the answer comes with the cache and
the next number afterwards. Compiling is a step of any kind, so that it can be told when it runs. -/
def getBy {m : Type → Type} [Monad m] (cache : Cache) (next : Nat) (source : Source)
    (compile : Source → m (Except Failure Template)) : m (Except Failure Compiled × Cache × Nat) :=
  match cache.find? source with
  | .error failure => pure (.error failure, cache, next)
  | .ok (some compiled) => pure (.ok compiled, cache, next)
  | .ok .none =>
    match cache.remembering source with
    | .error failure => pure (.error failure, cache, next)
    | .ok remember => do
      match ← compile source with
      | .ok template =>
        let compiled : Compiled := ⟨next, template⟩
        pure (.ok compiled, remember compiled, next + 1)
      | .error failure => pure (.error failure, cache, next)

/-- The template of a source, where compiling is a function. -/
def get (cache : Cache) (next : Nat) (source : Source) (compile : Source → Except Failure Template) :
    Except Failure Compiled × Cache × Nat :=
  Id.run (cache.getBy next source fun source => pure (compile source))

theorem get_eq (cache : Cache) (next : Nat) (source : Source)
    (compile : Source → Except Failure Template) :
    cache.get next source compile =
      match cache.find? source, cache.remembering source with
      | .error failure, _ => (.error failure, cache, next)
      | .ok (some compiled), _ => (.ok compiled, cache, next)
      | .ok .none, .error failure => (.error failure, cache, next)
      | .ok .none, .ok remember =>
        match compile source with
        | .ok template => (.ok ⟨next, template⟩, remember ⟨next, template⟩, next + 1)
        | .error failure => (.error failure, cache, next) := by
  unfold get getBy
  cases cache.find? source with
  | error failure => rfl
  | ok found =>
    cases found with
    | some compiled => rfl
    | none =>
      cases cache.remembering source with
      | error failure => rfl
      | ok remember =>
        dsimp only
        cases compile source <;> rfl

/-- The entry of a name forgotten. -/
def evict (cache : Cache) (name : String) : Cache :=
  match cache with
  | none => none
  | entries reload known => entries reload (known.filter fun (n, _) => n != name)

/-- All entries forgotten. -/
def clear : Cache → Cache
  | none => none
  | entries reload _ => entries reload []

/-- Reload checking turned on or off. -/
def setReload (cache : Cache) (reload : Bool) : Cache :=
  match cache with
  | none => none
  | entries _ known => entries reload known

/-- The number of entries. -/
def size : Cache → Nat
  | none => 0
  | entries _ known => known.length

/-- There is an entry of a name. -/
def contains (cache : Cache) (name : String) : Bool :=
  match cache with
  | none => false
  | entries _ known => (known.lookup name).isSome

end Cache

end Stencil
