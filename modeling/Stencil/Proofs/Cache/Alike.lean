import Stencil.Engine
import Stencil.Proofs.Agreement
import Stencil.Proofs.Cache.Gets
import Stencil.Proofs.Node.Alike

/-!
# Caches that are alike

Two caches are alike when they remember trees that are alike, under the same names and for the same
sources. Engines that compile alike through such caches get trees that are alike, or fail in ways
that are, and leave caches that are alike.
-/

namespace Stencil

/-- Compiled templates that are alike, with the same number. -/
structure Compiled.Alike (R : Resemblance) (c c' : Compiled) : Prop where
  tree : c.tree = c'.tree
  template : c.template.Alike R c'.template

/-- Remembered compilations that are alike. -/
structure CacheEntry.Alike (R : Resemblance) (entry entry' : CacheEntry) : Prop where
  compiled : entry.compiled.Alike R entry'.compiled
  freshness : entry.freshness = entry'.freshness

namespace Cache

/-- Caches that are alike. -/
inductive Alike (R : Resemblance) : Cache → Cache → Prop where
  | none : Alike R .none .none
  | entries {reload : Bool} {known known' : List (String × CacheEntry)} :
      Table.Alike (CacheEntry.Alike R) known known' →
      Alike R (.entries reload known) (.entries reload known')

variable {R : Resemblance} {cache cache' : Cache}

/-- A cache without entries is alike to itself. -/
theorem Alike.of_size (h : cache.size = 0) : cache.Alike R cache := by
  cases cache with
  | none => exact .none
  | entries reload known =>
    cases List.eq_nil_of_length_eq_zero h
    exact .entries .nil

theorem Alike.find? (h : cache.Alike R cache') (source : Source) :
    Agree Eq (Option.Rel (Compiled.Alike R)) (cache.find? source) (cache'.find? source) := by
  cases h with
  | none => exact .ok .none
  | @entries reload known known' h =>
    have hfound := h.lookup source.name
    unfold Cache.find?
    dsimp only
    generalize known.lookup source.name = found at hfound ⊢
    generalize known'.lookup source.name = found' at hfound ⊢
    cases hfound with
    | none => exact .ok .none
    | some hentry =>
      dsimp only
      rw [hentry.freshness]
      cases reload with
      | false => exact .ok (.some hentry.compiled)
      | true =>
        cases source.freshness with
        | error failure => exact .error rfl
        | ok fresh =>
          refine .ok ?_
          split
          · exact .none
          · exact .some hentry.compiled

theorem Alike.store (h : cache.Alike R cache') (name : String) {entry entry' : CacheEntry}
    (hentry : entry.Alike R entry') :
    (cache.store name entry).Alike R (cache'.store name entry') := by
  cases h with
  | none => exact .none
  | entries h =>
    refine .entries ?_
    rw [putAt_eq, putAt_eq]
    exact h.put name hentry

theorem Alike.remembering (h : cache.Alike R cache') (source : Source) :
    Agree Eq (fun remember remember' => ∀ compiled compiled', Compiled.Alike R compiled compiled' →
        (remember compiled).Alike R (remember' compiled'))
      (cache.remembering source) (cache'.remembering source) := by
  cases h with
  | none => exact .ok fun _ _ _ => .none
  | entries h =>
    unfold Cache.remembering
    cases source.freshness with
    | error failure => exact .error rfl
    | ok fresh => exact .ok fun _ _ hcompiled => (Alike.entries h).store source.name ⟨hcompiled, rfl⟩

/-- What two runs of a compilation through caches have in common. -/
structure GetAlike (R : Resemblance) (F : Failure → Failure → Prop)
    (x y : Except Failure Compiled × Cache × Nat) : Prop where
  result : Agree F (Compiled.Alike R) x.1 y.1
  cache : x.2.1.Alike R y.2.1
  next : x.2.2 = y.2.2

theorem Alike.get {F : Failure → Failure → Prop} (hrefl : ∀ f, F f f) (h : cache.Alike R cache')
    (next : Nat) (source : Source) {compile compile' : Source → Except Failure Template}
    (hcompile : Agree F (Template.Alike R) (compile source) (compile' source)) :
    GetAlike R F (cache.get next source compile) (cache'.get next source compile') := by
  have hfound := h.find? source
  have hremembering := h.remembering source
  rw [get_eq, get_eq]
  generalize cache.find? source = found at hfound ⊢
  generalize cache'.find? source = found' at hfound ⊢
  generalize cache.remembering source = remembering at hremembering ⊢
  generalize cache'.remembering source = remembering' at hremembering ⊢
  cases hfound with
  | error hf =>
    cases hf
    exact ⟨.error (hrefl _), h, rfl⟩
  | ok hfound =>
    cases hfound with
    | some hcompiled => exact ⟨.ok hcompiled, h, rfl⟩
    | none =>
      cases hremembering with
      | error hf =>
        cases hf
        exact ⟨.error (hrefl _), h, rfl⟩
      | ok hremember =>
        dsimp only
        generalize compile source = made at hcompile ⊢
        generalize compile' source = made' at hcompile ⊢
        cases hcompile with
        | ok ht => exact ⟨.ok ⟨rfl, ht⟩, hremember _ _ ⟨rfl, ht⟩, rfl⟩
        | error hf => exact ⟨.error hf, h, rfl⟩

end Cache

/-- Engines that parse alike compile every source alike: what cannot be read is compiled by neither. -/
theorem Engine.compileSource_alike {R : Resemblance} {F : Failure → Failure → Prop} {e e' : Engine}
    (hrefl : ∀ f, F f f) {marks marks' : Delimiters} (source : Source)
    (hparse : ∀ text, Agree F (Template.Alike R) (e.parse marks source.name text)
      (e'.parse marks' source.name text)) :
    Agree F (Template.Alike R) (e.compileSource marks source) (e'.compileSource marks' source) := by
  unfold compileSource
  cases source.content with
  | error failure => exact .error (hrefl failure)
  | ok text => exact hparse text

/-- Engines with the same sources that compile alike do so through caches that are alike. -/
theorem Engine.compile_alike {R : Resemblance} {F : Failure → Failure → Prop} {e e' : Engine}
    (hloader : e'.loader = e.loader) (hrefl : ∀ f, F f f)
    (hcompile : ∀ source, Agree F (Template.Alike R) (e.compileSource e.delimiters source)
      (e'.compileSource e'.delimiters source)) {cache cache' : Cache} (h : cache.Alike R cache')
    (next : Nat) (location : String) :
    Cache.GetAlike R F (e.compile cache next location) (e'.compile cache' next location) := by
  unfold Engine.compile
  rw [hloader]
  split
  · exact h.get hrefl next _ (hcompile _)
  · exact ⟨.error (hrefl _), h, rfl⟩

end Stencil
