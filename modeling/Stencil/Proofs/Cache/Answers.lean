import Stencil.Engine
import Stencil.Proofs.Cache.Giving
import Stencil.Proofs.Loader.Sources

/-!
# What compiling answers

A location has one answer as long as nothing but compiling happens to the cache: what compiling
remembers is what it would have answered anyway.
-/

namespace Stencil

/-- The template that compiling at a location answers; the number of its tree does not count. -/
def Engine.templateAt (e : Engine) (cache : Cache) (location : String) : Except Failure Template :=
  (e.compile cache 0 location).1.map (·.template)

namespace Cache

/-- The template that a cache answers for a source: the one it gives, or else a new one. -/
def answer (cache : Cache) (source : Source) (compile : Source → Except Failure Template) :
    Except Failure Template :=
  match cache.find? source, cache.remembering source with
  | .error failure, _ => .error failure
  | .ok (some compiled), _ => .ok compiled.template
  | .ok .none, .error failure => .error failure
  | .ok .none, .ok _ => compile source

variable {cache : Cache} {compile : Source → Except Failure Template}

theorem get_answer (next : Nat) (source : Source) :
    (cache.get next source compile).1.map (·.template) = cache.answer source compile := by
  rw [get_eq]
  unfold answer
  cases cache.find? source with
  | error failure => rfl
  | ok found =>
    cases found with
    | some compiled => rfl
    | none =>
      cases cache.remembering source with
      | error failure => rfl
      | ok remember =>
        dsimp only
        cases compile source <;> rfl

/-- Whether a source can be remembered does not depend on what is remembered. -/
theorem remembering_store (cache : Cache) (name : String) (entry : CacheEntry) (other : Source) :
    ((cache.store name entry).remembering other).map (fun _ => ()) =
      (cache.remembering other).map fun _ => () := by
  cases cache with
  | none => rfl
  | entries reload known =>
    unfold store remembering
    cases other.freshness <;> rfl

/-- Storing what a source compiles to changes no answer. -/
theorem answer_store {source other : Source} {freshness : Freshness} {compiled : Compiled}
    (hfind : cache.find? source = .ok .none) (hfresh : cache = .none ∨ source.freshness = .ok freshness)
    (hcompile : compile source = .ok compiled.template)
    (hsame : other.name = source.name → other = source) :
    (cache.store source.name ⟨compiled, freshness⟩).answer other compile =
      cache.answer other compile := by
  have hremember := remembering_store cache source.name ⟨compiled, freshness⟩ other
  by_cases hname : other.name = source.name
  · cases hsame hname
    cases cache with
    | none => rfl
    | entries reload known =>
      have hfreshness : source.freshness = .ok freshness := hfresh.resolve_left Cache.noConfusion
      have hstored : ((entries reload known).store source.name ⟨compiled, freshness⟩).find? source =
          .ok (some compiled) := by
        simp only [store, find?, putAt_eq, Table.lookup_put, if_pos, hfreshness]
        cases reload with
        | false => rfl
        | true =>
          show Except.ok (if freshness != freshness then _ else _) = _
          rw [bne_self_eq_false]
          rfl
      unfold answer
      rw [hstored, hfind]
      unfold remembering
      rw [hfreshness]
      exact hcompile.symm
  · unfold answer
    rw [find?_store_of_ne hname]
    cases hfound : cache.find? other with
    | error failure => rfl
    | ok found =>
      cases found with
      | some other => rfl
      | none =>
        -- Both caches refuse to remember the source, with one failure, or neither does.
        generalize (cache.store source.name ⟨compiled, freshness⟩).remembering other = stored at *
        generalize cache.remembering other = plain at *
        cases stored with
        | error failure =>
          cases plain with
          | error failure' =>
            cases hremember
            rfl
          | ok remember => cases hremember
        | ok remember =>
          cases plain with
          | error failure => cases hremember
          | ok remember' => rfl

/-- Remembering what a source compiles to changes no answer. -/
theorem answer_get (next : Nat) (source : Source) {other : Source}
    (hsame : other.name = source.name → other = source) :
    (cache.get next source compile).2.1.answer other compile = cache.answer other compile := by
  obtain ⟨answer, made, hget, -, hgets⟩ := get_cases cache next source compile
  rw [hget]
  cases hgets with
  | served _ | silent _ _ _ | failed _ _ _ => rfl
  | made hfind hfresh hcompile => exact answer_store hfind hfresh hcompile hsame

end Cache

variable (e : Engine) (cache : Cache)

theorem compile_templateAt (next : Nat) (location : String) :
    (e.compile cache next location).1.map (·.template) = e.templateAt cache location := by
  unfold Engine.templateAt Engine.compile
  cases e.loader.source location with
  | error failure => rfl
  | ok source =>
    dsimp only
    rw [Cache.get_answer, Cache.get_answer]

/-- Compiling changes no answer, because a source is known by its name. -/
theorem templateAt_compile (next : Nat) (location : String) :
    e.templateAt (e.compile cache next location).2.1 = e.templateAt cache := by
  funext other
  unfold Engine.templateAt Engine.compile
  cases hsource : e.loader.source location with
  | error failure => rfl
  | ok source =>
    cases hother : e.loader.source other with
    | error failure => rfl
    | ok found =>
      dsimp only
      rw [Cache.get_answer, Cache.get_answer]
      exact Cache.answer_get next source fun hname => Loader.source_eq_of_name hother hsource hname

end Stencil
