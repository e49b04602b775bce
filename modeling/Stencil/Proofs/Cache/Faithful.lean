import Stencil.Proofs.Cache.Gets

/-!
# Faithful caches

A cache is faithful to a compiler when every entry is what the compiler makes of some source that
could be asked for, with the name and the freshness that this source had. Nothing says that the
source is still there: entries may be stale. Faithfulness survives every operation on the cache. A
faithful cache that checks freshness answers as the compiler does, as long as name and freshness
tell the sources apart.
-/

namespace Stencil

namespace Cache

variable {κ : Type} (asked : κ → Source → Prop)
  (compiler : κ → Source → Except Failure Template)

/-- Every entry is what a source that could be asked for compiles to. A source is compiled in one
of several ways. -/
def Faithful : Cache → Prop
  | none => True
  | entries _ known => ∀ name entry, known.lookup name = some entry →
      ∃ way source, asked way source ∧ source.name = name ∧
        source.freshness = .ok entry.freshness ∧
          compiler way source = .ok entry.compiled.template

/-- Sources of one name and freshness are the same source, and compiled in the same way. -/
def ToldApart : Prop :=
  ∀ ⦃way source way' source'⦄, asked way source → asked way' source' →
    source.name = source'.name → source.freshness = source'.freshness →
      way = way' ∧ source = source'

/-- The cache never gives a template whose source has changed since. -/
def Checks : Cache → Prop
  | none => True
  | entries reload _ => reload = true

variable {asked compiler} {cache : Cache} {way : κ} {source : Source}

theorem Faithful.none : Cache.none.Faithful asked compiler := trivial

theorem Faithful.empty (reload : Bool) : (Cache.empty reload).Faithful asked compiler :=
  fun _ _ h => nomatch h

theorem Faithful.store (h : cache.Faithful asked compiler) (hasked : asked way source)
    {compiled : Compiled} {freshness : Freshness}
    (hfresh : cache = .none ∨ source.freshness = .ok freshness)
    (hcompiled : compiler way source = .ok compiled.template) :
    (cache.store source.name ⟨compiled, freshness⟩).Faithful asked compiler := by
  cases cache with
  | none => exact trivial
  | entries reload known =>
    intro name entry hentry
    rw [putAt_eq, Table.lookup_put] at hentry
    split at hentry
    · rename_i hname
      cases hentry
      exact ⟨way, source, hasked, hname.symm, hfresh.resolve_left Cache.noConfusion, hcompiled⟩
    · exact h name entry hentry

theorem Faithful.get (h : cache.Faithful asked compiler) (hasked : asked way source) (next : Nat) :
    (cache.get next source (compiler way)).2.1.Faithful asked compiler := by
  obtain ⟨answer, made, hget, -, hgets⟩ := get_cases cache next source (compiler way)
  rw [hget]
  cases hgets with
  | served _ | silent _ _ _ | failed _ _ _ => exact h
  | made _ hfresh hcompile => exact h.store hasked hfresh hcompile

theorem Faithful.evict (h : cache.Faithful asked compiler) (name : String) :
    (cache.evict name).Faithful asked compiler := by
  cases cache with
  | none => exact trivial
  | entries reload known =>
    intro other entry hentry
    rw [Table.lookup_without] at hentry
    split at hentry
    · cases hentry
    · exact h other entry hentry

theorem Faithful.clear (cache : Cache) : cache.clear.Faithful asked compiler := by
  cases cache with
  | none => exact trivial
  | entries reload known => exact Faithful.empty reload

theorem Faithful.setReload (h : cache.Faithful asked compiler) (reload : Bool) :
    (cache.setReload reload).Faithful asked compiler := by
  cases cache with
  | none => exact trivial
  | entries _ known => exact h

/-- Checking that has been turned on is on. -/
theorem checks_setReload (cache : Cache) : (cache.setReload true).Checks := by
  cases cache with
  | none => exact trivial
  | entries _ known => exact rfl

/-- Where nothing is remembered, nothing is remembered from then on. -/
theorem get_none (next : Nat) (source : Source) (compile : Source → Except Failure Template) :
    (Cache.none.get next source compile).2.1 = .none := by
  obtain ⟨answer, made, hget, -, hgets⟩ := get_cases .none next source compile
  rw [hget]
  cases hgets <;> rfl

/-- What is found with freshness checked is what the source compiles to now. -/
theorem Faithful.compiler_of_find? (h : cache.Faithful asked compiler) (htold : ToldApart asked)
    (hchecks : cache.Checks) (hasked : asked way source) {found : Compiled}
    (hfound : cache.find? source = .ok (some found)) :
    compiler way source = .ok found.template := by
  cases cache with
  | none => cases hfound
  | entries reload known =>
    cases (hchecks : reload = true)
    unfold find? at hfound
    dsimp only at hfound
    split at hfound
    · rename_i entry hentry
      cases hfresh : source.freshness with
      | error failure =>
        rw [hfresh] at hfound
        cases hfound
      | ok fresh =>
        rw [hfresh] at hfound
        have hsome : (if entry.freshness != fresh then .none else some entry.compiled) =
            some found := Except.ok.inj hfound
        split at hsome
        · cases hsome
        · rename_i hsame
          cases hsome
          have hsame : entry.freshness = fresh := by simpa using hsame
          obtain ⟨way', source', hasked', hname, hfreshness, hcompiles⟩ := h _ entry hentry
          obtain ⟨rfl, rfl⟩ := htold hasked' hasked hname (by rw [hfreshness, hfresh, hsame])
          exact hcompiles
    · cases hfound

/-- A faithful cache that checks freshness answers as the compiler does, for sources that say how fresh
they are. -/
theorem Faithful.get_answer (h : cache.Faithful asked compiler) (htold : ToldApart asked)
    (hchecks : cache.Checks) (hasked : asked way source) {fresh : Freshness}
    (hfresh : source.freshness = .ok fresh) (next : Nat) :
    (cache.get next source (compiler way)).1.map (·.template) = compiler way source := by
  obtain ⟨answer, made, hget, -, hgets⟩ := get_cases cache next source (compiler way)
  rw [hget]
  cases hgets with
  | served hfind => exact (h.compiler_of_find? htold hchecks hasked hfind).symm
  | silent hfails =>
    rw [hfresh] at hfails
    cases hfails
  | made _ _ htemplate => exact htemplate.symm
  | failed _ _ hfailure => exact hfailure.symm

end Cache

end Stencil
