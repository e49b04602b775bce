import Stencil.Proofs.Scope.Reading
import Stencil.Proofs.Value.Passive

/-!
# References one level deeper

What the references of a markup read in a child of the scope they were written for. Paths that climb
reach one level less far, the scope itself and local names are those of the child, and a name that the
new level does not answer reads what it reads outside. A level that holds a lambda answers one name
only: that of the function it was made of.
-/

namespace Stencil

/-- A lambda has one field, its function. -/
theorem readMember_lambda {label inner : Label} {call : Callable} {name : String}
    (h : name ≠ "fn") (resolvers : List Resolver) :
    readMember (.lambda label inner call) name resolvers = .ok none := by
  have hfields : Resolver.read .fields (.lambda label inner call) name = .ok none := by
    have hlookup : (Resolver.fieldsOf (.lambda label inner call)).lookup name = none := by
      rw [Resolver.fieldsOf, List.lookup_cons, beq_eq_false_iff_ne.2 h]
      rfl
    unfold Resolver.read
    dsimp only
    rw [hlookup, ite_self]
    rfl
  induction resolvers with
  | nil => rfl
  | cons resolver rest ih =>
    cases resolver with
    | entries | items => exact ih
    | fields =>
      unfold readMember
      rw [hfields]
      exact ih

namespace Scope

variable {s : Scope} {model : Value} {bindings data : Bindings} {reference : String}

theorem climb?_child (s : Scope) (model : Value) (bindings : Bindings) (hops : Nat) :
    (s.child model bindings).climb? (hops + 1) = s.climb? hops := by
  rw [climb?, child, parent?, levels]
  rfl

/-- A reference that climbs reads at the level it arrives at, one level less far out. -/
theorem get_child_of_climbs {hops : Nat} (h : (Path.parse reference).hops = hops + 1) :
    (s.child model bindings).get data reference =
      match s.climb? hops with
      | none => .error (.atRender (.beyondRoot reference (hops + 1)))
      | some outer => (outer.readPath data (Path.parse reference)).mapError Failure.fault := by
  have hclimb : (s.child model bindings).climb? (Path.parse reference).hops = s.climb? hops := by
    rw [h, climb?_child]
  cases hfound : s.climb? hops with
  | none => rw [get_of_beyond (hclimb.trans hfound), h]
  | some outer => exact get_of_climb? (hclimb.trans hfound) data

/-- A reference to the scope itself reads the model of the child. -/
theorem get_child_of_here (hhops : (Path.parse reference).hops = 0)
    (hdata : (Path.parse reference).isData = false) (hsegments : (Path.parse reference).segments = []) :
    (s.child model bindings).get data reference = .ok model := by
  rw [get_of_no_hops hhops, readPath, hdata, hsegments]
  rfl

/-- A local name that the level of a lambda does not answer reads as null. -/
theorem get_child_of_local {label inner : Label} {call : Callable} {name : String}
    {rest : List String} (hhops : (Path.parse reference).hops = 0)
    (hdata : (Path.parse reference).isData = false)
    (hlocal : (Path.parse reference).isLocal = true)
    (hsegments : (Path.parse reference).segments = name :: rest) (hname : name ≠ "fn") :
    (s.child (.lambda label inner call) []).get data reference = .ok .null := by
  rw [get_of_no_hops hhops, readPath, hdata, hsegments, hlocal]
  dsimp only [child, levels]
  rw [if_neg Bool.false_ne_true, readLevels_cons, readLevel_of_unbound rfl,
    readMember_lambda hname]
  rfl

/-- Data variables are the same one level deeper, where nothing is bound. -/
theorem get_child_of_data (hhops : (Path.parse reference).hops = 0)
    (hdata : (Path.parse reference).isData = true) :
    (s.child model []).get data reference = s.get data reference := by
  have hroot : (s.child model []).rootModel = s.rootModel := by
    unfold rootModel child levels
    rw [List.getLast?_cons]
    rfl
  have hread : (s.child model []).readPath data (Path.parse reference) =
      s.readPath data (Path.parse reference) := by
    unfold readPath
    rw [hdata, if_pos rfl, if_pos rfl]
    cases (Path.parse reference).segments with
    | nil => rfl
    | cons name rest =>
      unfold readData
      rw [hroot]
      rfl
  rw [get_of_no_hops hhops, get_of_no_hops hhops, hread]

theorem readLevels_child {label inner : Label} {call : Callable} {name : String} (h : name ≠ "fn")
    (rest : List String) :
    readLevels s.resolvers false name rest (s.child (.lambda label inner call) []).levels =
      readLevels s.resolvers false name rest s.levels := by
  show readLevels s.resolvers false name rest ([⟨.lambda label inner call, []⟩] ++ s.levels) = _
  exact readLevels_append (List.forall_mem_singleton.2 rfl)
    (List.forall_mem_singleton.2 (readMember_lambda h _)) _

/-- A name that the level of a lambda does not answer reads what it reads outside. -/
theorem get_child_of_beginsWith {label inner : Label} {call : Callable} {name : String}
    {rest : List String} (h : (Path.parse reference).BeginsWith name rest) (hname : name ≠ "fn") :
    (s.child (.lambda label inner call) []).get data reference = s.get data reference := by
  rw [get_of_beginsWith h, get_of_beginsWith h]
  change (readLevels s.resolvers false name rest _).mapError Failure.fault = _
  rw [readLevels_child hname]

/-- What each form of reference reads in `inside`, a child of `s` for the lambda `model`, compared with
what it reads in `s`. -/
structure LambdaReads (s inside : Scope) (model : Value) (data : Bindings) : Prop where
  outerName : ∀ reference name rest, (Path.parse reference).BeginsWith name rest → name ≠ "fn" →
    inside.get data reference = s.get data reference
  dataVariable : ∀ reference, (Path.parse reference).hops = 0 → (Path.parse reference).isData = true →
    inside.get data reference = s.get data reference
  itself : ∀ reference, (Path.parse reference).hops = 0 → (Path.parse reference).isData = false →
    (Path.parse reference).segments = [] → inside.get data reference = .ok model
  localName : ∀ reference name rest, (Path.parse reference).hops = 0 →
    (Path.parse reference).isData = false → (Path.parse reference).isLocal = true →
    (Path.parse reference).segments = name :: rest → name ≠ "fn" →
    inside.get data reference = .ok .null
  climbing : ∀ reference hops outer, (Path.parse reference).hops = hops + 1 →
    s.climb? hops = some outer → inside.get data reference =
      (outer.readPath data (Path.parse reference)).mapError Failure.fault

theorem child_lambdaReads (s : Scope) (data : Bindings) (label inner : Label) (call : Callable) :
    s.LambdaReads (s.child (.lambda label inner call) []) (.lambda label inner call) data where
  outerName _ _ _ h hname := get_child_of_beginsWith h hname
  dataVariable _ hhops hdata := get_child_of_data hhops hdata
  itself _ hhops hdata hsegments := get_child_of_here hhops hdata hsegments
  localName _ _ _ hhops hdata hlocal hsegments hname :=
    get_child_of_local hhops hdata hlocal hsegments hname
  climbing _ _ outer hhops houter := by rw [get_child_of_climbs hhops, houter]

/-! ## Scopes that share names -/

/-- Two scopes in which the names of a markup read the same, and nothing that can be called. `R`
holds of these names with the members that are read from them. -/
structure Shares (R : String → List String → Prop) (s other : Scope) : Prop where
  resolvers : s.resolvers = other.resolvers
  reads : ∀ name rest, R name rest → readLevels other.resolvers false name rest s.levels =
    readLevels other.resolvers false name rest other.levels
  passive : ∀ name rest v, R name rest →
    readLevels other.resolvers false name rest other.levels = .ok v → v.Passive

namespace Shares

variable {R : String → List String → Prop} {other : Scope}

/-- The names that a lambda does not answer are shared between a scope and a child for the lambda. -/
theorem of_lambda {label inner : Label} {call : Callable} (s : Scope)
    (hname : ∀ name rest, R name rest → name ≠ "fn")
    (hpassive : ∀ name rest v, R name rest →
      readLevels s.resolvers false name rest s.levels = .ok v → v.Passive) :
    (s.child (.lambda label inner call) []).Shares R s :=
  ⟨rfl, fun name rest h => readLevels_child (hname name rest h) rest, hpassive⟩

/-- Children for the same passive value share what their parents do. -/
theorem child (h : s.Shares R other) (hmodel : model.Passive)
    (hbindings : bindings.All Value.Passive) :
    (s.child model bindings).Shares R (other.child model bindings) := by
  refine ⟨h.resolvers, fun name rest hR => ?_, fun name rest v hR hread => ?_⟩
  · show readLevels other.resolvers false name rest (⟨model, bindings⟩ :: s.levels) =
      readLevels other.resolvers false name rest (⟨model, bindings⟩ :: other.levels)
    rw [readLevels_cons, readLevels_cons, h.reads name rest hR]
  · change readLevels other.resolvers false name rest (⟨model, bindings⟩ :: other.levels) = .ok v
      at hread
    rw [readLevels_cons] at hread
    obtain ⟨found, hfound, hread⟩ := bind_eq_ok_iff.1 hread
    cases found with
    | none => exact h.passive name rest v hR hread
    | some value =>
      have hvalue : value.Passive := by
        unfold readLevel at hfound
        split at hfound
        · rename_i bound hbound
          cases hfound
          exact hbindings.lookup hbound
        · exact (readMember_meets membersKeep_passive hmodel name _).of_ok hfound value rfl
      exact (readMembers_meets membersKeep_passive (.of_scalar rfl rfl) _ rest hvalue).of_ok hread

end Shares

end Scope

end Stencil
