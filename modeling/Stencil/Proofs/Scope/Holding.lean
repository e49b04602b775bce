import Stencil.Proofs.Table
import Stencil.Proofs.Value.Conversion
import Stencil.Scope

/-!
# What a scope holds

A property of values that reading a member does not lose holds of everything that is read from a
scope when it holds of what the scope is made of: the models and bindings of its levels and the data
of the render. Reading fails only by climbing beyond the root and at an index that is no integer.
-/

namespace Stencil

/-- Members of values with `P` have `P`. -/
def MembersKeep (P : Value → Prop) : Prop :=
  ∀ (resolver : Resolver) (v : Value) (name : String) (found : Value), P v →
    resolver.read v name = .ok (some found) → P found

theorem Value.mem_of_entry? {name : String} {entries : List (Value × Value)} {found : Value}
    (h : entry? name entries = some found) : ∃ key, (key, found) ∈ entries := by
  induction entries with
  | nil => cases h
  | cons entry rest ih =>
    obtain ⟨k, v⟩ := entry
    unfold entry? at h
    split at h
    · cases h
      exact ⟨k, List.mem_cons_self⟩
    · obtain ⟨key, hkey⟩ := ih h
      exact ⟨key, List.mem_cons_of_mem _ hkey⟩

/-! ### Members -/

section

variable {P : Value → Prop} (hint : ∀ n, P (.int n)) (hinner : ∀ {v}, P v → ∀ u ∈ v.inner, P u)

include hint

/-- What reads an item finds the length or one of the items. -/
theorem Resolver.readItem_all {items : List Value} (hitems : ∀ v ∈ items, P v) {name : String}
    {found : Value} (h : readItem items name = .ok (some found)) : P found := by
  unfold readItem at h
  split at h
  · cases h
    exact hint _
  · split at h
    · obtain ⟨index, -, h⟩ := bind_eq_ok_iff.1 h
      cases h' : items[index.toNat]? with
      | none =>
        rw [h'] at h
        cases h
      | some v =>
        rw [h'] at h
        cases h
        exact hitems found (List.mem_of_getElem? h')
    · cases h

include hinner

/-- Fields are numbers or values inside, unless a lambda shows its function. -/
theorem Resolver.fieldsOf_all (hfloat : ∀ x, P (.float x)) {v : Value}
    (hlambda : ∀ label inner call, v ≠ .lambda label inner call) (hv : P v) :
    ∀ field ∈ fieldsOf v, P field.2 := by
  cases v with
  | bool b | int n =>
    intro field hfield
    simp only [fieldsOf, List.mem_cons, List.not_mem_nil, or_false] at hfield
    rcases hfield with rfl | rfl | rfl | rfl <;> exact hint _
  | float x =>
    intro field hfield
    simp only [fieldsOf, List.mem_cons, List.not_mem_nil, or_false] at hfield
    rcases hfield with rfl | rfl <;> exact hfloat _
  | object label known =>
    exact fun field hfield => hinner hv field.2 (List.mem_map.2 ⟨field, hfield, rfl⟩)
  | lambda label inner call => exact absurd rfl (hlambda label inner call)
  | _ => exact fun field hfield => nomatch hfield

/-- A property of numbers that values hand on to the values inside them is kept by reading members,
if no lambda has it. -/
theorem MembersKeep.of_inner (hfloat : ∀ x, P (.float x))
    (hlambda : ∀ label inner call, ¬P (.lambda label inner call)) : MembersKeep P := by
  intro resolver v name found hv hfound
  unfold Resolver.read at hfound
  split at hfound
  · rename_i label entries
    obtain ⟨key, hkey⟩ := Value.mem_of_entry? (Except.ok.inj hfound)
    exact hinner hv found (Value.mem_inner_map hkey).2
  · exact Resolver.readItem_all hint (hinner hv) hfound
  · exact Resolver.readItem_all hint (hinner hv) hfound
  · split at hfound
    · cases hfound
    · have hlookup := Except.ok.inj hfound
      refine Resolver.fieldsOf_all hint hinner hfloat ?_ hv (name, found)
        (Table.mem_of_lookup hlookup)
      rintro label inner call rfl
      exact hlambda label inner call hv
  · cases hfound

end

/-- All values bound have `P`. -/
def Bindings.All (P : Value → Prop) (bindings : Bindings) : Prop :=
  ∀ entry ∈ bindings, P entry.2

namespace Bindings.All

variable {P : Value → Prop} {bindings later : Bindings} {name : String} {v : Value}

theorem nil : All P [] := fun _ hentry => nomatch hentry

theorem cons (hv : P v) (h : All P bindings) : All P ((name, v) :: bindings) :=
  List.forall_mem_cons.2 ⟨hv, h⟩

theorem set (h : All P bindings) (hv : P v) : All P (bindings.set name v) := by
  intro entry hentry
  rw [Bindings.set_eq] at hentry
  rcases Table.mem_put hentry with rfl | hmem
  · exact hv
  · exact h entry hmem

theorem merge (h : All P bindings) (hlater : All P later) : All P (bindings.merge later) := by
  unfold Bindings.merge
  induction later generalizing bindings with
  | nil => exact h
  | cons entry rest ih =>
    obtain ⟨n, u⟩ := entry
    obtain ⟨hu, hrest⟩ := List.forall_mem_cons.1 hlater
    exact ih (h.set hu) hrest

theorem ofPairs {pairs : List (String × Value)} (h : ∀ pair ∈ pairs, P pair.2) :
    All P (Bindings.ofPairs pairs) := merge nil h

theorem lookup (h : All P bindings) (hname : bindings.lookup name = some v) : P v :=
  h (name, v) (Table.mem_of_lookup hname)

theorem filter (h : All P bindings) (keep : String × Value → Bool) :
    All P (List.filter keep bindings) := fun entry hentry => h entry (List.mem_filter.1 hentry).1

theorem zip {names : List String} {values : List Value} (h : ∀ u ∈ values, P u) :
    ∀ pair ∈ names.zip values, P pair.2 := by
  rintro ⟨n, u⟩ hpair
  exact h u (List.of_mem_zip hpair).2

end Bindings.All

/-- The model and the bindings of a level have `P`. -/
structure Level.All (P : Value → Prop) (level : Level) : Prop where
  model : P level.model
  bindings : level.bindings.All P

/-- Everything that a scope is made of has `P`. -/
def Scope.All (P : Value → Prop) (s : Scope) : Prop := ∀ level ∈ s.levels, level.All P

/-- Failures of reading a reference. -/
def Failure.IsOfReading : Failure → Prop
  | render (.beyondRoot _ _) none => True
  | fault cause => cause.IsNumeric
  | _ => False

section

variable {P : Value → Prop}

theorem readItem_meets (items : List Value) (name : String) :
    Meets Fault.IsNumeric (fun _ => True) (Resolver.readItem items name) := by
  unfold Resolver.readItem
  refine Meets.ite (fun _ => Meets.pure trivial) fun _ => ?_
  refine Meets.ite (fun _ => ?_) fun _ => Meets.pure trivial
  exact (Decimal.readInteger_meets name).bind fun _ _ => Meets.pure trivial

theorem Resolver.read_meets (hP : MembersKeep P) {v : Value} (hv : P v) (resolver : Resolver)
    (name : String) :
    Meets Fault.IsNumeric (fun found? => ∀ found, found? = some found → P found)
      (resolver.read v name) := by
  have hfault : Meets Fault.IsNumeric (fun _ => True) (resolver.read v name) := by
    unfold read
    split
    · exact Meets.pure trivial
    · exact readItem_meets _ name
    · exact readItem_meets _ name
    · exact Meets.pure trivial
    · exact Meets.pure trivial
  refine Meets.of_cases (fun found? hfound found heq => ?_) fun cause => hfault.of_error
  subst heq
  exact hP resolver v name found hv hfound

theorem readMember_meets (hP : MembersKeep P) {v : Value} (hv : P v) (name : String)
    (resolvers : List Resolver) :
    Meets Fault.IsNumeric (fun found? => ∀ found, found? = some found → P found)
      (readMember v name resolvers) := by
  induction resolvers with
  | nil => exact Meets.pure fun found hfound => nomatch hfound
  | cons resolver rest ih =>
    refine (Resolver.read_meets hP hv resolver name).bind fun found? hfound => ?_
    cases found? with
    | some found => exact Meets.pure hfound
    | none => exact ih

theorem readMembers_meets (hP : MembersKeep P) (hnull : P .null) (resolvers : List Resolver)
    (names : List String) {v : Value} (hv : P v) :
    Meets Fault.IsNumeric P (readMembers resolvers v names) := by
  induction names generalizing v with
  | nil => exact Meets.pure hv
  | cons name rest ih =>
    unfold readMembers
    refine Meets.ite (fun _ => Meets.pure hnull) fun _ => ?_
    refine (readMember_meets hP hv name resolvers).bind fun found? hfound => ?_
    cases found? with
    | some found => exact ih (hfound found rfl)
    | none => exact Meets.pure hnull

end

namespace Scope

variable {P : Value → Prop} {s : Scope}

theorem All.ofModel {model : Value} (h : P model) (resolvers : List Resolver) :
    (Scope.ofModel model resolvers).All P := by
  intro level hlevel
  rw [List.mem_singleton.1 hlevel]
  exact ⟨h, Bindings.All.nil⟩

theorem All.model (h : s.All P) : P s.here.model := (h s.here List.mem_cons_self).model

theorem All.child (h : s.All P) {model : Value} (hmodel : P model) {bindings : Bindings}
    (hbindings : bindings.All P) : (s.child model bindings).All P :=
  List.forall_mem_cons.2 ⟨⟨hmodel, hbindings⟩, h⟩

theorem All.withBindings (h : s.All P) {bindings : Bindings} (hbindings : bindings.All P) :
    (s.withBindings bindings).All P := by
  obtain ⟨hhere, houter⟩ := List.forall_mem_cons.1 h
  exact List.forall_mem_cons.2 ⟨⟨hhere.model, hhere.bindings.merge hbindings⟩, houter⟩

theorem All.climb {hops : Nat} {found : Scope} (h : s.All P) (hclimb : s.climb? hops = some found) :
    found.All P := by
  induction hops generalizing s with
  | zero =>
    cases hclimb
    exact h
  | succ hops ih =>
    obtain ⟨here, outer, resolvers⟩ := s
    cases outer with
    | nil => cases hclimb
    | cons level rest =>
      have hparent : (Scope.mk level rest resolvers).All P := (List.forall_mem_cons.1 h).2
      exact ih hparent hclimb

theorem All.rootModel (h : s.All P) : P s.rootModel := by
  unfold Scope.rootModel
  cases hlast : s.outer.getLast? with
  | none => exact h.model
  | some level => exact (h level (List.mem_cons_of_mem _ (List.mem_of_getLast? hlast))).model

variable (hP : MembersKeep P) (hnull : P .null)

include hP hnull

theorem readLevels_meets (resolvers : List Resolver) (isLocal : Bool) (name : String)
    (rest : List String) {levels : List Level} (h : ∀ level ∈ levels, level.All P) :
    Meets Fault.IsNumeric P (readLevels resolvers isLocal name rest levels) := by
  induction levels with
  | nil => exact Meets.pure hnull
  | cons level outer ih =>
    obtain ⟨hlevel, houter⟩ := List.forall_mem_cons.1 h
    have hread : Meets Fault.IsNumeric (fun found? => ∀ found, found? = some found → P found)
        (readLevel resolvers level name) := by
      unfold readLevel
      split
      · rename_i value hvalue
        refine Meets.pure fun found hfound => ?_
        cases hfound
        exact hlevel.bindings.lookup hvalue
      · exact readMember_meets hP hlevel.model name resolvers
    refine hread.bind fun found? hfound => ?_
    cases found? with
    | some found => exact readMembers_meets hP hnull resolvers rest (hfound found rfl)
    | none => exact Meets.ite (fun _ => Meets.pure hnull) fun _ => ih houter

omit hP hnull in
theorem readBinding_all {name : String} {levels : List Level} (h : ∀ level ∈ levels, level.All P)
    {found : Value} (hfound : readBinding name levels = some found) : P found := by
  induction levels with
  | nil => cases hfound
  | cons level outer ih =>
    obtain ⟨hlevel, houter⟩ := List.forall_mem_cons.1 h
    unfold readBinding at hfound
    split at hfound
    · rename_i value hvalue
      cases hfound
      exact hlevel.bindings.lookup hvalue
    · exact ih houter hfound

theorem readData_meets (h : s.All P) {data : Bindings} (hdata : data.All P) (names : List String) :
    Meets Fault.IsNumeric P (s.readData data names) := by
  cases names with
  | nil => exact Meets.pure hnull
  | cons name rest =>
    unfold readData
    refine Meets.ite (fun _ => readMembers_meets hP hnull _ rest h.rootModel) fun _ => ?_
    split
    · rename_i value hvalue
      exact readMembers_meets hP hnull _ rest (readBinding_all h hvalue)
    · split
      · rename_i value hvalue
        exact readMembers_meets hP hnull _ rest (hdata.lookup hvalue)
      · exact Meets.pure hnull

theorem readPath_meets (h : s.All P) {data : Bindings} (hdata : data.All P) (path : Path) :
    Meets Fault.IsNumeric P (s.readPath data path) := by
  unfold readPath
  refine Meets.ite (fun _ => readData_meets hP hnull h hdata _) fun _ => ?_
  split
  · exact Meets.pure h.model
  · exact readLevels_meets hP hnull _ _ _ _ h

/-- A reference reads a value that the scope or the data hold, or fails as reading does. -/
theorem get_meets (h : s.All P) {data : Bindings} (hdata : data.All P) (reference : String) :
    Meets Failure.IsOfReading P (s.get data reference) := by
  unfold get
  dsimp only
  split
  · exact Meets.throw trivial
  · rename_i scope hscope
    have hpath := readPath_meets hP hnull (h.climb hscope) hdata (Path.parse reference)
    split
    · rename_i value hvalue
      exact Meets.pure (hpath.of_ok hvalue)
    · rename_i cause hcause
      exact Meets.throw (hpath.of_error hcause)

end Scope

end Stencil
