import Stencil.Proofs.Table

/-!
# What a get comes to

A get serves what is remembered, or compiles and remembers, or fails: because the source does not say
how fresh it is, in which case the compiler does not run, or because it does not compile. `Cache.Gets`
says which of these it is, and `get_cases` that there is nothing else. What is remembered is told by
`held?`, with one law for each operation.
-/

namespace Stencil

namespace Cache

/-! ## When the compiler runs -/

/-- A compiler that keeps a record of what it makes. -/
def recorded (compile : Source → Except Failure Template) (source : Source) :
    StateM (List (Except Failure Template)) (Except Failure Template) :=
  modifyGet fun runs => (compile source, runs ++ [compile source])

/-- What the compiler makes during a get, run by run. -/
def runs (cache : Cache) (next : Nat) (source : Source)
    (compile : Source → Except Failure Template) : List (Except Failure Template) :=
  ((cache.getBy next source (recorded compile)).run []).2

variable {cache : Cache} {next : Nat} {source : Source}
  {compile : Source → Except Failure Template}

/-- A get whose compiler keeps a record is a get. -/
theorem getBy_recorded :
    ((cache.getBy next source (recorded compile)).run []).1 = cache.get next source compile := by
  unfold get getBy
  cases cache.find? source with
  | error failure => rfl
  | ok found =>
    cases found with
    | some compiled => rfl
    | none =>
      cases cache.remembering source with
      | error failure => rfl
      | ok remember =>
        dsimp only [StateT.run_bind, recorded]
        cases compile source <;> rfl

/-! ## Ways in which a get can end -/

/-- What a get comes to, with the runs of the compiler. -/
inductive Gets (cache : Cache) (next : Nat) (source : Source)
    (compile : Source → Except Failure Template) :
    Except Failure Compiled × Cache × Nat → List (Except Failure Template) → Prop where
  /-- What is remembered still counts. -/
  | served {compiled : Compiled} (hfind : cache.find? source = .ok (some compiled)) :
    Gets cache next source compile (.ok compiled, cache, next) []
  /-- The source does not say how fresh it is. -/
  | silent {failure : Failure} (hfresh : source.freshness = .error failure) (hne : cache ≠ .none)
      (hfind : cache.find? source = .error failure ∨ cache.find? source = .ok .none) :
    Gets cache next source compile (.error failure, cache, next) []
  | made {template : Template} {freshness : Freshness} (hfind : cache.find? source = .ok .none)
      (hfresh : cache = .none ∨ source.freshness = .ok freshness)
      (hcompile : compile source = .ok template) :
    Gets cache next source compile
      (.ok ⟨next, template⟩, cache.store source.name ⟨⟨next, template⟩, freshness⟩, next + 1)
      [.ok template]
  | failed {freshness : Freshness} {failure : Failure} (hfind : cache.find? source = .ok .none)
      (hfresh : cache = .none ∨ source.freshness = .ok freshness)
      (hcompile : compile source = .error failure) :
    Gets cache next source compile (.error failure, cache, next) [.error failure]

/-- Looking for a source fails only where the source does not say how fresh it is. -/
theorem find?_error {failure : Failure} (h : cache.find? source = .error failure) :
    source.freshness = .error failure ∧ cache ≠ .none := by
  cases cache with
  | none => cases h
  | entries reload known =>
    refine ⟨?_, Cache.noConfusion⟩
    unfold find? at h
    dsimp only at h
    split at h
    · split at h
      · cases hfresh : source.freshness with
        | error f =>
          rw [hfresh] at h
          cases h
          rfl
        | ok fresh =>
          rw [hfresh] at h
          cases h
      · cases h
    · cases h

/-- How a source is going to be remembered is known where it says how fresh it is. -/
theorem remembering_cases (cache : Cache) (source : Source) :
    (∃ failure, source.freshness = .error failure ∧ cache ≠ .none ∧
      cache.remembering source = .error failure) ∨
    ∃ freshness, (cache = .none ∨ source.freshness = .ok freshness) ∧
      cache.remembering source = .ok fun compiled => cache.store source.name ⟨compiled, freshness⟩ := by
  cases cache with
  | none => exact .inr ⟨.digest "", .inl rfl, rfl⟩
  | entries reload known =>
    cases hfresh : source.freshness with
    | error failure =>
      refine .inl ⟨failure, rfl, Cache.noConfusion, ?_⟩
      unfold remembering
      rw [hfresh]
      rfl
    | ok freshness =>
      refine .inr ⟨freshness, .inr rfl, ?_⟩
      unfold remembering
      rw [hfresh]
      rfl

/-- Every get ends in one of these ways. -/
theorem get_cases (cache : Cache) (next : Nat) (source : Source)
    (compile : Source → Except Failure Template) :
    ∃ answer made, cache.get next source compile = answer ∧
      cache.runs next source compile = made ∧ Gets cache next source compile answer made := by
  refine ⟨_, _, rfl, rfl, ?_⟩
  unfold runs get getBy
  cases hfind : cache.find? source with
  | error failure =>
    obtain ⟨hfresh, hne⟩ := find?_error hfind
    exact .silent hfresh hne (.inl hfind)
  | ok found =>
    cases found with
    | some compiled => exact .served hfind
    | none =>
      rcases remembering_cases cache source with
        ⟨failure, hfresh, hne, hremember⟩ | ⟨freshness, hfresh, hremember⟩
      · rw [hremember]
        exact .silent hfresh hne (.inr hfind)
      · rw [hremember]
        dsimp only [StateT.run_bind, recorded]
        cases hcompile : compile source with
        | ok template => exact .made hfind hfresh hcompile
        | error failure => exact .failed hfind hfresh hcompile

/-! ## Entries -/

/-- What is remembered under a name. -/
def held? (cache : Cache) (name : String) : Option CacheEntry :=
  match cache with
  | none => .none
  | entries _ known => known.lookup name

theorem held?_store (h : cache ≠ .none) (stored name : String) (entry : CacheEntry) :
    (cache.store stored entry).held? name = if name = stored then some entry else cache.held? name := by
  cases cache with
  | none => exact absurd rfl h
  | entries reload known =>
    rw [store, putAt_eq]
    exact Table.lookup_put stored name entry known

theorem held?_evict (cache : Cache) (evicted name : String) :
    (cache.evict evicted).held? name = if name = evicted then .none else cache.held? name := by
  cases cache with
  | none => exact (ite_self _).symm
  | entries reload known => exact Table.lookup_without evicted name known

theorem held?_clear (cache : Cache) (name : String) : cache.clear.held? name = .none := by
  cases cache <;> rfl

end Cache

end Stencil
