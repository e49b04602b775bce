import Stencil.Proofs.Scope.Reading
import Stencil.Render.Evaluate

/-!
# Bindings laid over a scope

A scope with more bindings stands at the same level as before: the levels around it, its models and
its side channel are the same. A reference asks the innermost level for one name at most, and only if
that very name is bound anew does it read anything else than before.
-/

namespace Stencil

namespace Bindings

/-- A mapping: no name stands twice. -/
def Distinct (bindings : Bindings) : Prop := (bindings.map Prod.fst).Nodup

/-- Bindings laid over others answer for the names that they bind, and leave the others as they are;
by induction on the later ones. -/
theorem lookup_merge {later : Bindings} (h : later.Distinct) (bindings : Bindings) (name : String) :
    (bindings.merge later).lookup name = (later.lookup name).or (bindings.lookup name) := by
  induction later generalizing bindings with
  | nil => rfl
  | cons entry rest ih =>
    obtain ⟨n, v⟩ := entry
    obtain ⟨hfresh, hrest⟩ : n ∉ rest.map Prod.fst ∧ Distinct rest := List.nodup_cons.1 h
    have hset : (bindings.merge ((n, v) :: rest)).lookup name =
        (rest.lookup name).or ((bindings.set n v).lookup name) := ih hrest (bindings.set n v)
    rw [hset, lookup_set]
    by_cases hname : name = n
    · subst hname
      have hnone : rest.lookup name = none := by
        cases hfound : rest.lookup name with
        | none => rfl
        | some u => exact absurd (List.mem_map_of_mem (Table.mem_of_lookup hfound)) hfresh
      rw [hnone, if_pos rfl, Table.lookup_cons_self]
      rfl
    · rw [if_neg hname, Table.lookup_cons_of_ne hname]

end Bindings

/-- The binding that a path asks the level it stands at for, and the members that it then reads: the
first name of a path that does not climb, or of a data path the variable of that name, unless it is
that of the root. -/
inductive Path.AsksFor (path : Path) : String → List String → Prop where
  | name {name : String} {rest : List String} : path.hops = 0 → path.isData = false →
      path.segments = name :: rest → AsksFor path name rest
  | dataVariable {name : String} {rest : List String} : path.hops = 0 → path.isData = true →
      path.segments = name :: rest → name ≠ "root" → AsksFor path ("@" ++ name) rest

theorem Path.AsksFor.hops {path : Path} {name : String} {rest : List String}
    (h : path.AsksFor name rest) : path.hops = 0 := by
  cases h <;> assumption

/-- The requests that a helper makes of the side channel. -/
inductive Request.OnSideChannel : Request → Prop where
  | data (name : String) : OnSideChannel (.data name)
  | setData (name : String) (value : Value) : OnSideChannel (.setData name value)
  | frames : OnSideChannel .frames

namespace Scope

variable {s : Scope} {b data : Bindings} {reference name : String} {rest : List String}

/-- The levels that a reference climbs to are around the bindings. -/
theorem climb?_withBindings (s : Scope) (b : Bindings) (hops : Nat) :
    (s.withBindings b).climb? (hops + 1) = s.climb? (hops + 1) := rfl

theorem rootModel_withBindings (s : Scope) (b : Bindings) :
    (s.withBindings b).rootModel = s.rootModel := by
  obtain ⟨here, outer, resolvers⟩ := s
  unfold rootModel withBindings
  cases outer.getLast? with
  | none => rfl
  | some level => rfl

theorem readLevel_withBindings (hb : b.Distinct) (hname : b.lookup name = none) (level : Level)
    (resolvers : List Resolver) :
    readLevel resolvers { level with bindings := level.bindings.merge b } name =
      readLevel resolvers level name := by
  unfold readLevel
  rw [Bindings.lookup_merge hb, hname]
  rfl

theorem readBinding_withBindings (hb : b.Distinct) (hname : b.lookup name = none) (s : Scope) :
    readBinding name (s.withBindings b).levels = readBinding name s.levels := by
  show readBinding name ({ s.here with bindings := s.here.bindings.merge b } :: s.outer) =
    readBinding name (s.here :: s.outer)
  rw [readBinding, readBinding, Bindings.lookup_merge hb, hname]
  rfl

/-- A name that is bound anew is read from its binding. -/
theorem readPath_of_bound (hb : b.Distinct) {path : Path} (hasks : path.AsksFor name rest) {v : Value}
    (hv : b.lookup name = some v) (s : Scope) (data : Bindings) :
    (s.withBindings b).readPath data path = readMembers s.resolvers v rest := by
  have hlookup : (s.here.bindings.merge b).lookup name = some v := by
    rw [Bindings.lookup_merge hb, hv]
    rfl
  cases hasks with
  | name _ hdata hsegments =>
    rw [readPath, hdata, if_neg Bool.false_ne_true, hsegments]
    show readLevels s.resolvers path.isLocal _ rest
      ({ s.here with bindings := s.here.bindings.merge b } :: s.outer) = readMembers s.resolvers v rest
    have hlevel : readLevel s.resolvers { s.here with bindings := s.here.bindings.merge b } _ =
        .ok (some v) := readLevel_of_binding hlookup
    rw [readLevels_cons, hlevel]
    rfl
  | @dataVariable name rest _ hdata hsegments hroot =>
    have hbinding : readBinding ("@" ++ name) (s.withBindings b).levels = some v := by
      show readBinding ("@" ++ name)
        ({ s.here with bindings := s.here.bindings.merge b } :: s.outer) = some v
      rw [readBinding, hlookup]
    rw [readPath, hdata, if_pos rfl, hsegments, readData, if_neg (by simpa using hroot), hbinding]
    rfl

/-- A path that asks for nothing that is bound anew reads what it read. -/
theorem readPath_of_unbound (hb : b.Distinct) {path : Path} (hhops : path.hops = 0)
    (h : ∀ name rest, path.AsksFor name rest → b.lookup name = none) (s : Scope) (data : Bindings) :
    (s.withBindings b).readPath data path = s.readPath data path := by
  unfold readPath
  cases hdata : path.isData with
  | false =>
    rw [if_neg Bool.false_ne_true, if_neg Bool.false_ne_true]
    cases hsegments : path.segments with
    | nil => rfl
    | cons name rest =>
      have hname : b.lookup name = none := h name rest (.name hhops hdata hsegments)
      show readLevels s.resolvers path.isLocal name rest
        ({ s.here with bindings := s.here.bindings.merge b } :: s.outer) =
          readLevels s.resolvers path.isLocal name rest (s.here :: s.outer)
      rw [readLevels_cons, readLevels_cons, readLevel_withBindings hb hname]
  | true =>
    rw [if_pos rfl, if_pos rfl]
    cases hsegments : path.segments with
    | nil => rfl
    | cons name rest =>
      unfold readData
      dsimp only
      rw [rootModel_withBindings]
      by_cases hroot : name = "root"
      · subst hroot
        rfl
      · have hname : b.lookup ("@" ++ name) = none :=
          h _ rest (.dataVariable hhops hdata hsegments hroot)
        rw [if_neg (by simpa using hroot), if_neg (by simpa using hroot),
          readBinding_withBindings hb hname]
        rfl

/-- More bindings change nothing but the names that they bind. A reference that asks for one of these
reads the members that it goes on to from the binding; every other reference reads what it read
without them, or fails as it did; and what a helper asks of the side channel is answered as before,
for it is the same side channel. -/
theorem get_withBindings (hb : b.Distinct) (s : Scope) (data : Bindings) (reference : String) :
    (∀ name rest v, (Path.parse reference).AsksFor name rest → b.lookup name = some v →
      (s.withBindings b).get data reference =
        (readMembers s.resolvers v rest).mapError Failure.fault) ∧
    ((∀ name rest, (Path.parse reference).AsksFor name rest → b.lookup name = none) →
      (s.withBindings b).get data reference = s.get data reference) ∧
    ∀ (e : Engine) (render : Renderer) (call : Call) (clauses : Clauses) (q : Request),
      q.OnSideChannel → answer e render { call with scope := s.withBindings b } clauses q =
        answer e render { call with scope := s } clauses q := by
  refine ⟨?_, ?_, ?_⟩
  · intro name rest v hasks hv
    rw [get_of_no_hops hasks.hops, readPath_of_bound hb hasks hv]
  · intro h
    by_cases hhops : (Path.parse reference).hops = 0
    · rw [get_of_no_hops hhops, get_of_no_hops hhops, readPath_of_unbound hb hhops h]
    · -- A path that climbs leaves the level with the bindings at its first step.
      obtain ⟨hops, hsucc⟩ := Nat.exists_eq_succ_of_ne_zero hhops
      unfold get
      dsimp only
      rw [hsucc, climb?_withBindings]
  · intro e render call clauses q hq
    cases hq <;> rfl

/-- The scope of a row of a table with a title. -/
def tableRow : Scope :=
  (Scope.ofModel (.map 0 [(.text "title", .text "T")]) Resolver.standard).child
    (.map 1 [(.text "cell", .text "C")]) [("@index", .int 1)]

theorem get_withBindings_tableRow :
    Bindings.Distinct [("cell", .text "D"), ("@index", .int 7)] ∧
      (tableRow.withBindings [("cell", .text "D"), ("@index", .int 7)]).get [] "./cell" =
        .ok (.text "D") ∧
      (tableRow.withBindings [("cell", .text "D"), ("@index", .int 7)]).get [] "@index" =
        .ok (.int 7) ∧
      (tableRow.withBindings [("cell", .text "D"), ("@index", .int 7)]).get [] "../title" =
        .ok (.text "T") := by
  have hb : Bindings.Distinct [("cell", .text "D"), ("@index", .int 7)] := by
    simp [Bindings.Distinct]
  have hclimbs : ∀ name rest, (Path.parse "../title").AsksFor name rest →
      [("cell", Value.text "D"), ("@index", .int 7)].lookup name = none := by
    intro name rest hasks
    exact absurd (show (1 : Nat) = 0 from hasks.hops) Nat.one_ne_zero
  refine ⟨hb, ?_, ?_, ?_⟩
  · exact (get_withBindings hb tableRow [] "./cell").1 "cell" [] (.text "D") (.name rfl rfl rfl) rfl
  · exact (get_withBindings hb tableRow [] "@index").1 "@index" [] (.int 7)
      (@Path.AsksFor.dataVariable _ "index" [] rfl rfl rfl (by decide)) rfl
  · rw [(get_withBindings hb tableRow [] "../title").2.1 hclimbs]
    rfl

end Scope

end Stencil
