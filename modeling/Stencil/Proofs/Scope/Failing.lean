import Mathlib.Data.List.TakeWhile
import Stencil.Proofs.Scope.Reading

/-!
# How a reference fails

With the resolvers of an engine that names no others a reference fails in two ways. It climbs further
than there are levels; or it asks a sequence for an item under a name that passes for an index and is
none. Every other reference reads what it finds, and null where it finds nothing.
-/

namespace Stencil

/-- A value, unless a fault comes before it. -/
def Fault.settle {α : Type} (cause? : Option Fault) (a : α) : Except Fault α :=
  cause?.elim (.ok a) .error

theorem Fault.settle_bind {α β : Type} {cause? next? : Option Fault} {a : α} {b : β}
    {f : α → Except Fault β} (h : f a = settle next? b) :
    settle cause? a >>= f = settle (cause?.or next?) b := by
  cases cause? with
  | none => exact h
  | some cause => rfl

/-! ## Indices -/

/-- A name that passes for an index and is none: digits in the wide sense, of which one is no decimal
digit, or more of them than a conversion admits. -/
def FalseIndex (name : String) : Prop :=
  name ≠ "" ∧ name.toList.all Text.isFigure = true ∧
    (name.toList.all Text.isDecimal = false ∨ Fault.digitLimit < name.toList.length)

instance : DecidablePred FalseIndex := fun _ => inferInstanceAs (Decidable (_ ∧ _ ∧ _))

/-- The fault of a false index. Only the decimal digits in front are counted. -/
def FalseIndex.fault? (name : String) : Option Fault :=
  let count := (name.toList.takeWhile Text.isDecimal).length
  if FalseIndex name then
    some (if Fault.digitLimit < count then .longInteger (some count) else .badInteger name)
  else none

theorem FalseIndex.fault?_eq_none {name : String} (h : ¬FalseIndex name) : fault? name = none :=
  if_neg h

/-- The item of a sequence under a name: its length, or what stands at an index. -/
def Value.item? (items : List Value) (name : String) : Option Value :=
  if name = "length" then some (.int (items.length : Int))
  else if name ≠ "" ∧ name.toList.all Text.isDecimal = true then
    items[Text.digitsValue name.toList]?
  else none

theorem Text.isFigure_of_isDecimal {c : Char} (h : isDecimal c = true) : isFigure c = true := by
  unfold isFigure
  rw [h, Bool.true_or]

theorem Text.decimals_lt_iff (cs : List Char) :
    (cs.takeWhile isDecimal).length < cs.length ↔ cs.all isDecimal = false := by
  constructor
  · intro h
    by_contra hall
    have hwhole : cs.takeWhile isDecimal = cs :=
      List.takeWhile_eq_self_iff.2 (List.all_eq_true.1 (by simpa using hall))
    rw [hwhole] at h
    exact Nat.lt_irrefl _ h
  · intro h
    have hprefix : cs.takeWhile isDecimal <+: cs := List.takeWhile_prefix _
    by_contra hlength
    have hwhole : cs.takeWhile isDecimal = cs :=
      hprefix.eq_of_length (Nat.le_antisymm hprefix.length_le (Nat.le_of_not_lt hlength))
    rw [List.all_eq_true.2 (List.takeWhile_eq_self_iff.1 hwhole)] at h
    cases h

/-- A false index by the number of decimal digits in front. -/
theorem FalseIndex.iff_count {name : String} (hne : name ≠ "")
    (hfigures : name.toList.all Text.isFigure = true) :
    FalseIndex name ↔ Fault.digitLimit < (name.toList.takeWhile Text.isDecimal).length ∨
      (name.toList.takeWhile Text.isDecimal).length < name.toList.length := by
  have hle : (name.toList.takeWhile Text.isDecimal).length ≤ name.toList.length :=
    (List.takeWhile_prefix _).length_le
  unfold FalseIndex
  rw [← Text.decimals_lt_iff, and_iff_right hne, and_iff_right hfigures]
  omega

/-- Digits in the wide sense are read as an integer unless they are a false index. -/
theorem Decimal.readInteger_of_figures {name : String} (hne : name ≠ "")
    (hfigures : name.toList.all Text.isFigure = true) :
    readInteger name =
      Fault.settle (FalseIndex.fault? name) (Text.digitsValue name.toList) := by
  -- A minus sign is no figure, so the digits are the whole name.
  have hsign : ∀ rest, name.toList ≠ '-' :: rest := by
    intro rest hrest
    rw [hrest, List.all_cons] at hfigures
    exact absurd (Bool.and_eq_true_iff.1 hfigures).1 (by decide)
  have hcount := FalseIndex.iff_count hne hfigures
  unfold readInteger FalseIndex.fault?
  split
  rename_i negative digits hdigits
  split at hdigits
  · rename_i rest hrest
    exact absurd hrest (hsign rest)
  cases hdigits
  dsimp only
  by_cases hlong : Fault.digitLimit < (name.toList.takeWhile Text.isDecimal).length
  · rw [if_pos hlong, if_pos (hcount.2 (.inl hlong)), if_pos hlong]
    rfl
  by_cases hless : (name.toList.takeWhile Text.isDecimal).length < name.toList.length
  · rw [if_neg hlong, if_pos (by simp [hless]), if_pos (hcount.2 (.inr hless)), if_neg hlong]
    rfl
  · have hpos : 0 < name.toList.length := List.length_pos_iff.2 (by simpa using hne)
    have htrue : ¬FalseIndex name := by
      rw [hcount]
      exact not_or.2 ⟨hlong, hless⟩
    have hwhole : ¬((name.toList.takeWhile Text.isDecimal).length == 0 ||
        (name.toList.takeWhile Text.isDecimal).length < name.toList.length) = true := by
      rw [Bool.or_eq_true, beq_iff_eq, decide_eq_true_eq]
      omega
    rw [if_neg hlong, if_neg hwhole, if_neg htrue]
    rfl

namespace Resolver

/-- A sequence is asked for an item: a false index is its only fault. -/
theorem readItem_eq (items : List Value) (name : String) :
    readItem items name = Fault.settle (FalseIndex.fault? name) (Value.item? items name) := by
  unfold readItem Value.item?
  by_cases hlength : name = "length"
  · subst hlength
    have htrue : ¬FalseIndex "length" := fun h => absurd h.2.1 (by decide)
    rw [FalseIndex.fault?_eq_none htrue]
    rfl
  · rw [if_neg (by simpa using hlength), if_neg hlength]
    by_cases hfigures : name ≠ "" ∧ name.toList.all Text.isFigure = true
    · rw [if_pos (by simpa using hfigures), Decimal.readInteger_of_figures hfigures.1 hfigures.2]
      cases hfault : FalseIndex.fault? name with
      | some cause => rfl
      | none =>
        have hdecimal : name.toList.all Text.isDecimal = true := by
          by_contra hstray
          have hfalse : FalseIndex name := ⟨hfigures.1, hfigures.2, .inl (by simpa using hstray)⟩
          rw [FalseIndex.fault?, if_pos hfalse] at hfault
          cases hfault
        rw [if_pos ⟨hfigures.1, hdecimal⟩]
        rfl
    · have htrue : ¬FalseIndex name := fun h => hfigures ⟨h.1, h.2.1⟩
      have hnone : ¬(name ≠ "" ∧ name.toList.all Text.isDecimal = true) := by
        intro h
        refine hfigures ⟨h.1, List.all_eq_true.2 fun c hc => ?_⟩
        exact Text.isFigure_of_isDecimal (List.all_eq_true.1 h.2 c hc)
      rw [if_neg (by simpa using hfigures), FalseIndex.fault?_eq_none htrue, if_neg hnone]
      rfl

end Resolver

/-! ## Members -/

namespace Value

/-- The member of a value under a name: an entry of a mapping, an item of a sequence, a public
field. -/
def member? : Value → String → Option Value
  | .map _ entries, name => entry? name entries
  | .list _ items, name => item? items name
  | .tuple _ items, name => item? items name
  | v, name => if name.toList.head? == some '_' then none else (Resolver.fieldsOf v).lookup name

/-- The fault of asking a value for a member: only sequences take names for indices. -/
def misread? (v : Value) (name : String) : Option Fault :=
  match v with
  | .list _ _ | .tuple _ _ => FalseIndex.fault? name
  | _ => none

theorem member?_null (name : String) : member? .null name = none := by
  show (if name.toList.head? == some '_' then none else [].lookup name) = none
  cases name.toList.head? == some '_' <;> rfl

/-- What stands at the end of a chain of members, if every one of them is there. -/
def along? : Value → List String → Option Value
  | v, [] => some v
  | v, name :: rest => (v.member? name).bind fun u => along? u rest

/-- The first fault on a chain of members. -/
def stumble? : Value → List String → Option Fault
  | _, [] => none
  | v, name :: rest => (v.misread? name).or ((v.member? name).bind fun u => stumble? u rest)

end Value

section

variable {v : Value} {name : String} {resolver : Resolver}

theorem readMember_of_read {found? : Option Value} (h : resolver.read v name = .ok found?)
    (rest : List Resolver) :
    readMember v name (resolver :: rest) =
      found?.elim (readMember v name rest) fun u => .ok (some u) := by
  rw [readMember, h]
  cases found? <;> rfl

/-- The last of the standard resolvers reads a public field. -/
theorem readMember_fields (v : Value) (name : String) :
    readMember v name [.fields] =
      .ok (if name.toList.head? == some '_' then none else (Resolver.fieldsOf v).lookup name) := by
  have hread : Resolver.read .fields v name =
      .ok (if name.toList.head? == some '_' then none else (Resolver.fieldsOf v).lookup name) := by
    cases v <;> rfl
  rw [readMember_of_read hread]
  cases (if name.toList.head? == some '_' then none else (Resolver.fieldsOf v).lookup name) <;> rfl

theorem readMember_fields_of_none (h : Resolver.fieldsOf v = []) (name : String) :
    readMember v name [.fields] = .ok none := by
  rw [readMember_fields, h]
  cases name.toList.head? == some '_' <;> rfl

/-- The resolvers behind the one for mappings read the items of a sequence. -/
theorem readMember_items {items : List Value}
    (hread : Resolver.read .items v name = Resolver.readItem items name)
    (hfields : Resolver.fieldsOf v = []) :
    readMember v name [.items, .fields] =
      Fault.settle (FalseIndex.fault? name) (Value.item? items name) := by
  rw [Resolver.readItem_eq] at hread
  cases hfault : FalseIndex.fault? name with
  | some cause =>
    rw [readMember, hread, hfault]
    rfl
  | none =>
    rw [hfault] at hread
    rw [readMember_of_read hread]
    cases Value.item? items name with
    | some u => rfl
    | none => exact readMember_fields_of_none hfields name

/-- The standard resolvers find the member of a value, or fault at a false index. -/
theorem readMember_standard (v : Value) (name : String) :
    readMember v name Resolver.standard = Fault.settle (v.misread? name) (v.member? name) := by
  cases v with
  | map label entries =>
    have hread : Resolver.read .entries (.map label entries) name =
        .ok (Value.entry? name entries) := rfl
    rw [Resolver.standard, readMember_of_read hread]
    show _ = Except.ok (Value.entry? name entries)
    cases Value.entry? name entries with
    | some u => rfl
    | none => exact readMember_fields_of_none rfl name
  | list label items => exact readMember_items rfl rfl
  | tuple label items => exact readMember_items rfl rfl
  | _ => exact readMember_fields _ name

end

/-- A chain of members is read to its end, to a member that is not there, or to a fault; by induction
on the chain. -/
theorem readMembers_standard (names : List String) (v : Value) :
    readMembers Resolver.standard v names =
      Fault.settle (v.stumble? names) ((v.along? names).getD .null) := by
  induction names generalizing v with
  | nil => rfl
  | cons name rest ih =>
    unfold readMembers
    by_cases hnull : v.isNull = true
    · -- Null has no members, so the chain ends where the reading of it is broken off.
      have hv : v = .null := by
        cases v <;> first | rfl | cases hnull
      subst hv
      rw [if_pos hnull, Value.stumble?, Value.along?, Value.member?_null]
      rfl
    · rw [if_neg hnull, readMember_standard]
      refine Fault.settle_bind ?_
      unfold Value.along?
      cases v.member? name with
      | none => rfl
      | some u => exact ih u

/-! ## Levels -/

/-- What a name stands for at a level: a binding, or else a member of the model. -/
def Level.find? (level : Level) (name : String) : Option Value :=
  (level.bindings.lookup name).or (level.model.member? name)

/-- The fault of asking a level for a name: a binding hides the model. -/
def Level.misread? (level : Level) (name : String) : Option Fault :=
  if (level.bindings.lookup name).isSome then none else level.model.misread? name

namespace Scope

/-- What a name stands for in levels: the first level that answers decides, and a local name asks only
one. -/
def find? (isLocal : Bool) (name : String) (levels : List Level) : Option Value :=
  (if isLocal then levels.take 1 else levels).findSome? (·.find? name)

/-- The first fault of looking for a name level by level and of the members that are then read. -/
def stumbleOutwards? (isLocal : Bool) (name : String) (rest : List String) :
    List Level → Option Fault
  | [] => none
  | level :: outer => (level.misread? name).or
      (match level.find? name with
        | some v => v.stumble? rest
        | none => if isLocal then none else stumbleOutwards? isLocal name rest outer)

/-- What a data variable stands for: the root model, an iteration variable, data of the render. -/
def dataVariable? (s : Scope) (data : Bindings) (name : String) : Option Value :=
  if name = "root" then some s.rootModel
  else (readBinding ("@" ++ name) s.levels).or (data.lookup name)

/-- What a path finds at the scope that it has climbed to. -/
def found? (s : Scope) (data : Bindings) (path : Path) : Option Value :=
  match path.segments with
  | [] => if path.isData then none else some s.here.model
  | name :: rest =>
    (if path.isData then s.dataVariable? data name
      else find? path.isLocal name s.levels).bind (·.along? rest)

/-- The fault that a path runs into at the scope that it has climbed to. -/
def stumble? (s : Scope) (data : Bindings) (path : Path) : Option Fault :=
  match path.segments with
  | [] => none
  | name :: rest =>
    if path.isData then (s.dataVariable? data name).bind (·.stumble? rest)
    else stumbleOutwards? path.isLocal name rest s.levels

theorem readLevel_standard (level : Level) (name : String) :
    readLevel Resolver.standard level name =
      Fault.settle (level.misread? name) (level.find? name) := by
  unfold readLevel Level.misread? Level.find?
  cases level.bindings.lookup name with
  | some v => rfl
  | none => exact readMember_standard level.model name

theorem readLevels_standard (isLocal : Bool) (name : String) (rest : List String)
    (levels : List Level) :
    readLevels Resolver.standard isLocal name rest levels =
      Fault.settle (stumbleOutwards? isLocal name rest levels)
        (((find? isLocal name levels).bind (·.along? rest)).getD .null) := by
  induction levels with
  | nil => cases isLocal <;> rfl
  | cons level outer ih =>
    rw [readLevels_cons, readLevel_standard]
    refine Fault.settle_bind ?_
    have hfind : find? isLocal name (level :: outer) =
        (level.find? name).or (if isLocal then none else find? isLocal name outer) := by
      cases isLocal with
      | true => cases hlevel : level.find? name <;> simp [find?, hlevel]
      | false => cases hlevel : level.find? name <;> simp [find?, hlevel]
    rw [hfind]
    cases level.find? name with
    | some v => exact readMembers_standard rest v
    | none =>
      cases isLocal with
      | true => rfl
      | false => exact ih

theorem readPath_standard {s : Scope} (h : s.resolvers = Resolver.standard) (data : Bindings)
    (path : Path) :
    s.readPath data path =
      Fault.settle (s.stumble? data path) ((s.found? data path).getD .null) := by
  unfold readPath stumble? found?
  cases path.isData with
  | false =>
    cases path.segments with
    | nil => rfl
    | cons name rest =>
      rw [h]
      exact readLevels_standard path.isLocal name rest s.levels
  | true =>
    cases path.segments with
    | nil => rfl
    | cons name rest =>
      unfold readData dataVariable?
      rw [h]
      dsimp only
      by_cases hroot : name = "root"
      · subst hroot
        exact readMembers_standard rest s.rootModel
      · rw [if_pos rfl, if_neg (by simpa using hroot), if_neg hroot]
        cases readBinding ("@" ++ name) s.levels with
        | some v => exact readMembers_standard rest v
        | none =>
          cases data.lookup name with
          | some v => exact readMembers_standard rest v
          | none => rfl

/-! ## References -/

theorem climb?_of_lt {hops : Nat} {s : Scope} (h : s.outer.length < hops) :
    s.climb? hops = none := by
  induction hops generalizing s with
  | zero => cases h
  | succ hops ih =>
    obtain ⟨here, outer, resolvers⟩ := s
    cases outer with
    | nil => rfl
    | cons level rest => exact @ih ⟨level, rest, resolvers⟩ (Nat.lt_of_succ_lt_succ h)

theorem climb?_of_le {hops : Nat} {s : Scope} (h : hops ≤ s.outer.length) :
    ∃ scope, s.climb? hops = some scope ∧ scope.resolvers = s.resolvers := by
  induction hops generalizing s with
  | zero => exact ⟨s, rfl, rfl⟩
  | succ hops ih =>
    obtain ⟨here, outer, resolvers⟩ := s
    cases outer with
    | nil => cases h
    | cons level rest => exact @ih ⟨level, rest, resolvers⟩ (Nat.le_of_succ_le_succ h)

end Scope

/-! ### Names that are no false indices -/

theorem Value.misread?_eq_none {name : String} (h : ¬FalseIndex name) (v : Value) :
    v.misread? name = none := by
  cases v with
  | list | tuple => exact FalseIndex.fault?_eq_none h
  | _ => rfl

theorem Value.stumble?_eq_none {names : List String} (h : ∀ name ∈ names, ¬FalseIndex name)
    (v : Value) : v.stumble? names = none := by
  induction names generalizing v with
  | nil => rfl
  | cons name rest ih =>
    obtain ⟨hname, hrest⟩ := List.forall_mem_cons.1 h
    rw [stumble?, misread?_eq_none hname]
    cases v.member? name with
    | none => rfl
    | some u => exact ih hrest u

theorem Level.misread?_eq_none {name : String} (h : ¬FalseIndex name) (level : Level) :
    level.misread? name = none := by
  unfold misread?
  rw [Value.misread?_eq_none h, ite_self]

namespace Scope

theorem stumbleOutwards?_eq_none {name : String} {rest : List String}
    (h : ∀ n ∈ name :: rest, ¬FalseIndex n) (isLocal : Bool) (levels : List Level) :
    stumbleOutwards? isLocal name rest levels = none := by
  obtain ⟨hname, hrest⟩ := List.forall_mem_cons.1 h
  induction levels with
  | nil => rfl
  | cons level outer ih =>
    rw [stumbleOutwards?, Level.misread?_eq_none hname]
    cases level.find? name with
    | some v => exact Value.stumble?_eq_none hrest v
    | none =>
      cases isLocal with
      | true => rfl
      | false => exact ih

theorem stumble?_eq_none {path : Path} (h : ∀ name ∈ path.segments, ¬FalseIndex name) (s : Scope)
    (data : Bindings) : s.stumble? data path = none := by
  unfold stumble?
  cases hsegments : path.segments with
  | nil => rfl
  | cons name rest =>
    rw [hsegments] at h
    cases path.isData with
    | false => exact stumbleOutwards?_eq_none h path.isLocal s.levels
    | true =>
      show (s.dataVariable? data name).bind (·.stumble? rest) = none
      cases s.dataVariable? data name with
      | none => rfl
      | some v => exact Value.stumble?_eq_none (List.forall_mem_cons.1 h).2 v

/-- With the standard resolvers a reference climbs beyond the root, and says so with its hops, exactly
when there are fewer levels around the scope; otherwise it faults where a sequence is asked for a
false index on its way, and reads what it finds, or null, where none is. A reference without a false
index among its names always reads. -/
theorem get_standard {s : Scope} (h : s.resolvers = Resolver.standard) (data : Bindings)
    (reference : String) :
    (s.outer.length < (Path.parse reference).hops → s.get data reference =
      .error (.atRender (.beyondRoot reference (Path.parse reference).hops))) ∧
    ((Path.parse reference).hops ≤ s.outer.length →
      ∃ scope, s.climb? (Path.parse reference).hops = some scope ∧
        (∀ cause, scope.stumble? data (Path.parse reference) = some cause →
          s.get data reference = .error (.fault cause)) ∧
        (scope.stumble? data (Path.parse reference) = none →
          s.get data reference = .ok ((scope.found? data (Path.parse reference)).getD .null)) ∧
        ((∀ name ∈ (Path.parse reference).segments, ¬FalseIndex name) →
          s.get data reference = .ok ((scope.found? data (Path.parse reference)).getD .null))) := by
  refine ⟨fun hbeyond => ?_, fun hwithin => ?_⟩
  · exact get_of_beyond (climb?_of_lt hbeyond) data
  · obtain ⟨scope, hclimb, hresolvers⟩ := climb?_of_le hwithin
    have hread := readPath_standard (hresolvers.trans h) data (Path.parse reference)
    have hstumbles : ∀ cause, scope.stumble? data (Path.parse reference) = some cause →
        s.get data reference = .error (.fault cause) := by
      intro cause hcause
      rw [get_of_climb? hclimb, hread, hcause]
      rfl
    have hreads : scope.stumble? data (Path.parse reference) = none →
        s.get data reference = .ok ((scope.found? data (Path.parse reference)).getD .null) := by
      intro hnone
      rw [get_of_climb? hclimb, hread, hnone]
      rfl
    exact ⟨scope, hclimb, hstumbles, hreads, fun hnames => hreads (stumble?_eq_none hnames scope data)⟩

/-- The scope of a list with one item. -/
def singleton (item : Value) : Scope := .ofModel (.list 0 [item]) Resolver.standard

theorem get_standard_singleton :
    (singleton (.text "a")).resolvers = Resolver.standard ∧
      (singleton (.text "a")).get [] "[0]" = .ok (.text "a") ∧
      (singleton (.text "a")).get [] "../[0]" = .error (.atRender (.beyondRoot "../[0]" 1)) := by
  refine ⟨rfl, ?_, ?_⟩
  · obtain ⟨scope, hclimb, -, -, hplain⟩ := (@get_standard (singleton (.text "a")) rfl [] "[0]").2
      (Nat.zero_le _)
    have hscope : singleton (.text "a") = scope := Option.some.inj hclimb
    subst hscope
    refine hplain fun name hname => ?_
    have hzero : name = "0" := List.mem_singleton.1 hname
    subst hzero
    decide
  · exact (@get_standard (singleton (.text "a")) rfl [] "../[0]").1 (by decide)

/-- A superscript passes for an index of the list, and is none. -/
theorem get_superscript_fails : ¬(singleton (.int 1)).outer.length < (Path.parse "²").hops ∧
    (singleton (.int 1)).get [] "²" = .error (.fault (.badInteger "²")) :=
  ⟨by decide, rfl⟩

end Scope

end Stencil
