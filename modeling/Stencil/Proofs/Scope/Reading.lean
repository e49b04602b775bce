import Stencil.Proofs.Table
import Stencil.Scope

/-!
# What a name reads in a scope

A name is looked for level by level outwards, in the bindings of a level and then in its model. Levels
put in front of a scope hide a name of it only where they bind it or have a member of that name.
-/

namespace Stencil

theorem Bindings.lookup_set (name other : String) (v : Value) (bindings : Bindings) :
    (bindings.set name v).lookup other = if other = name then some v else bindings.lookup other := by
  rw [set_eq, Table.lookup_put]

/-- Two names bound over others: the second one counts where both are the same. -/
theorem Bindings.lookup_merge_pair (bindings : Bindings) (first second : String) (v u : Value)
    (name : String) :
    (bindings.merge (ofPairs [(first, v), (second, u)])).lookup name =
      if name = second then some u else if name = first then some v else bindings.lookup name := by
  by_cases hsame : first = second
  · subst hsame
    have hone : ofPairs [(first, v), (first, u)] = [(first, u)] := by
      simp [ofPairs, merge, set]
    rw [hone]
    show (bindings.set first u).lookup name = _
    rw [lookup_set]
    by_cases hname : name = first
    · rw [if_pos hname, if_pos hname]
    · rw [if_neg hname, if_neg hname, if_neg hname]
  · have htwo : ofPairs [(first, v), (second, u)] = [(first, v), (second, u)] := by
      simp [ofPairs, merge, set, hsame]
    rw [htwo]
    show ((bindings.set first v).set second u).lookup name = _
    rw [lookup_set, lookup_set]

/-- A reference that begins with a name and has nothing in front of it that climbs, stays, or asks
for data. -/
structure Path.BeginsWith (path : Path) (name : String) (rest : List String) : Prop where
  hops : path.hops = 0
  isLocal : path.isLocal = false
  isData : path.isData = false
  segments : path.segments = name :: rest

namespace Scope

variable {name : String} {rest : List String} {resolvers : List Resolver}

/-- A reference is read at the level that it has climbed to. -/
theorem get_of_climb? {s scope : Scope} {reference : String}
    (h : s.climb? (Path.parse reference).hops = some scope) (data : Bindings) :
    s.get data reference =
      (scope.readPath data (Path.parse reference)).mapError Failure.fault := by
  unfold get
  dsimp only
  rw [h]
  dsimp only
  cases scope.readPath data (Path.parse reference) <;> rfl

/-- A reference that climbs beyond the root is not read at all. -/
theorem get_of_beyond {s : Scope} {reference : String}
    (h : s.climb? (Path.parse reference).hops = none) (data : Bindings) :
    s.get data reference =
      .error (.atRender (.beyondRoot reference (Path.parse reference).hops)) := by
  unfold get
  dsimp only
  rw [h]
  rfl

/-- A reference that does not climb is read where it stands. -/
theorem get_of_no_hops {reference : String} (h : (Path.parse reference).hops = 0) (s : Scope)
    (data : Bindings) :
    s.get data reference = (s.readPath data (Path.parse reference)).mapError Failure.fault := by
  have hclimb : s.climb? (Path.parse reference).hops = some s := by
    rw [h]
    rfl
  exact get_of_climb? hclimb data

/-- A reference that begins with a name is read level by level. -/
theorem get_of_beginsWith {reference : String} (h : (Path.parse reference).BeginsWith name rest)
    (s : Scope) (data : Bindings) :
    s.get data reference =
      (readLevels s.resolvers false name rest s.levels).mapError Failure.fault := by
  rw [get_of_no_hops h.hops, readPath, h.isData, h.segments, h.isLocal]
  rfl

theorem readLevels_cons (isLocal : Bool) (level : Level) (outer : List Level) :
    readLevels resolvers isLocal name rest (level :: outer) =
      readLevel resolvers level name >>= fun found =>
        match found with
        | some value => readMembers resolvers value rest
        | none => if isLocal then pure .null else readLevels resolvers isLocal name rest outer :=
  rfl

theorem readLevel_of_binding {level : Level} {v : Value}
    (h : level.bindings.lookup name = some v) : readLevel resolvers level name = .ok (some v) := by
  unfold readLevel
  rw [h]
  rfl

theorem readLevel_of_unbound {level : Level} (h : level.bindings.lookup name = none) :
    readLevel resolvers level name = readMember level.model name resolvers := by
  unfold readLevel
  rw [h]

/-- Levels that neither bind a name nor have a member of it are passed over, by induction on the
levels. -/
theorem readLevels_append {between : List Level}
    (hbindings : ∀ level ∈ between, level.bindings.lookup name = none)
    (hmembers : ∀ level ∈ between, readMember level.model name resolvers = .ok none)
    (outer : List Level) : readLevels resolvers false name rest (between ++ outer) =
      readLevels resolvers false name rest outer := by
  induction between with
  | nil => rfl
  | cons level others ih =>
    obtain ⟨hbinding, hbindings⟩ := List.forall_mem_cons.1 hbindings
    obtain ⟨hmember, hmembers⟩ := List.forall_mem_cons.1 hmembers
    rw [List.cons_append, readLevels_cons, readLevel_of_unbound hbinding, hmember]
    exact ih hbindings hmembers

/-- The first level at which the name is found decides. -/
theorem readLevels_of_found {level : Level} {v : Value}
    (h : readLevel resolvers level name = .ok (some v)) (outer : List Level) :
    readLevels resolvers false name rest (level :: outer) = readMembers resolvers v rest := by
  rw [readLevels_cons, h]
  rfl

/-- A scope with levels in front of another that do not bind a name. -/
def Deepens (name : String) (outer inner : Scope) : Prop :=
  inner.resolvers = outer.resolvers ∧ ∃ between, inner.levels = between ++ outer.levels ∧
    ∀ level ∈ between, level.bindings.lookup name = none

namespace Deepens

variable {outer middle inner : Scope}

theorem refl (s : Scope) : s.Deepens name s := ⟨rfl, [], rfl, List.forall_mem_nil _⟩

theorem trans (h : Deepens name outer middle) (h' : Deepens name middle inner) :
    Deepens name outer inner := by
  obtain ⟨hresolvers, between, hlevels, hbindings⟩ := h
  obtain ⟨hresolvers', between', hlevels', hbindings'⟩ := h'
  refine ⟨hresolvers'.trans hresolvers, between' ++ between, ?_, ?_⟩
  · rw [hlevels', hlevels, List.append_assoc]
  · intro level hlevel
    rcases List.mem_append.1 hlevel with hlevel | hlevel
    · exact hbindings' level hlevel
    · exact hbindings level hlevel

/-- A child whose bindings leave the name alone. -/
theorem child (s : Scope) (model : Value) {bindings : Bindings}
    (h : bindings.lookup name = none) : s.Deepens name (s.child model bindings) :=
  ⟨rfl, [⟨model, bindings⟩], rfl, List.forall_mem_singleton.2 h⟩

end Deepens

end Scope

end Stencil
