import Stencil.Engine
import Stencil.Proofs.Cache.Gets
import Stencil.Proofs.Loader.Sources

/-!
# What a cache gives

A property of all templates that a cache gives for some sources stays true as long as what is
compiled for these sources has it too.
-/

namespace Stencil

namespace Cache

/-- Every template that the cache gives for one of these sources has `P`. -/
def Gives (P : Template → Prop) (sources : Source → Prop) (cache : Cache) : Prop :=
  ∀ source, sources source → ∀ found, cache.find? source = .ok (some found) → P found.template

variable {P : Template → Prop} {sources : Source → Prop} {cache : Cache} {source : Source}

theorem Gives.none : Gives P sources .none := fun _ _ _ hfound => nomatch hfound

/-- Storing a template does not change what sources of other names are given. -/
theorem find?_store_of_ne {name : String} {entry : CacheEntry} {other : Source}
    (h : other.name ≠ name) : (cache.store name entry).find? other = cache.find? other := by
  cases cache with
  | none => rfl
  | entries reload known => simp only [store, find?, putAt_eq, Table.lookup_put, if_neg h]

/-- After storing a template, sources of its name are given that template or nothing. -/
theorem find?_store_of_eq {entry : CacheEntry} {found : Compiled} {other : Source}
    (hfound : (cache.store other.name entry).find? other = .ok (some found)) :
    found = entry.compiled := by
  cases cache with
  | none => cases hfound
  | entries reload known =>
    simp only [store, find?, putAt_eq, Table.lookup_put, if_pos] at hfound
    split at hfound
    · cases hfresh : other.freshness with
      | error failure =>
        rw [hfresh] at hfound
        cases hfound
      | ok fresh =>
        rw [hfresh] at hfound
        have hsome := Except.ok.inj hfound
        split at hsome
        · cases hsome
        · exact (Option.some.inj hsome).symm
    · exact (Option.some.inj (Except.ok.inj hfound)).symm

theorem Gives.store (h : cache.Gives P sources) (name : String) {entry : CacheEntry}
    (hentry : P entry.compiled.template) : (cache.store name entry).Gives P sources := by
  intro other hother found hfound
  by_cases hname : other.name = name
  · subst hname
    rw [find?_store_of_eq hfound]
    exact hentry
  · rw [find?_store_of_ne hname] at hfound
    exact h other hother found hfound

theorem Gives.get {F : Failure → Prop} {compile : Source → Except Failure Template}
    (h : cache.Gives P sources) (hsource : sources source) (hcompile : Meets F P (compile source))
    (hfresh : ∀ f, source.freshness = .error f → F f) (next : Nat) :
    (cache.get next source compile).2.1.Gives P sources ∧
      Meets F (fun found => P found.template) (cache.get next source compile).1 := by
  obtain ⟨answer, made, hget, -, hgets⟩ := get_cases cache next source compile
  rw [hget]
  cases hgets with
  | served hfind => exact ⟨h, .ok (h source hsource _ hfind)⟩
  | silent hfails => exact ⟨h, .error (hfresh _ hfails)⟩
  | made _ _ htemplate =>
    have ht := hcompile.of_ok htemplate
    exact ⟨h.store source.name ht, .ok ht⟩
  | failed _ _ hfailure => exact ⟨h, .error (hcompile.of_error hfailure)⟩

end Cache

/-- A source that compiles to a template with `P` where it can be read does so, or is not there. -/
theorem Engine.compileSource_meets {e : Engine} {marks : Delimiters} {P : Template → Prop}
    {F : Failure → Prop} (hnone : ∀ place name, F (.notFound place name))
    (hparse : ∀ name text, Meets F P (e.parse marks name text)) {source : Source}
    (hsource : source.OnlyMissing) : Meets F P (e.compileSource marks source) := by
  refine (hsource.content.mono ?_ fun _ h => h).bind fun text _ => hparse source.name text
  rintro f ⟨place, name, rfl⟩
  exact hnone place name

/-- Compiling at a location through a cache that gives templates with `P` answers with such a
template, or fails: there is no source, or it does not compile. -/
theorem Engine.compile_gives {e : Engine} {P : Template → Prop} {F : Failure → Prop} {cache : Cache}
    (hcache : cache.Gives P fun _ => True) (hnone : ∀ place name, F (.notFound place name))
    (hparse : ∀ name text, Meets F P (e.parse e.delimiters name text)) (next : Nat)
    (location : String) :
    (e.compile cache next location).2.1.Gives P (fun _ => True) ∧
      Meets F (fun found => P found.template) (e.compile cache next location).1 := by
  have hmeets := e.loader.source_meets location
  unfold Engine.compile
  split
  · rename_i source hfound
    have hsource := hmeets.of_ok hfound
    refine hcache.get trivial (compileSource_meets hnone hparse hsource) (fun f hfails => ?_) next
    obtain ⟨place, name, rfl⟩ := hsource.freshness.of_error hfails
    exact hnone place name
  · rename_i failure hfailure
    obtain ⟨place, name, rfl⟩ := hmeets.of_error hfailure
    exact ⟨hcache, .error (hnone place name)⟩

end Stencil
