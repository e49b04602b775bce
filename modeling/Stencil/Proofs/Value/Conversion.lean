import Stencil.Expression.Param
import Stencil.Member
import Stencil.Proofs.Outcome
import Stencil.Value.Display

/-!
# Faults of conversions

Reading literals and members and writing values out may fault, and when they do, an integer is to
blame: a text of figures that is none, or one with too many digits.
-/

namespace Stencil

/-- The faults of conversions between integers and texts. -/
def Fault.IsNumeric : Fault → Prop
  | badInteger _ | longInteger _ => True
  | _ => False

theorem Decimal.readInteger_meets (text : String) :
    Meets Fault.IsNumeric (fun _ => True) (readInteger text) := by
  unfold readInteger
  split
  rename_i negative digits hdigits
  dsimp only
  refine Meets.ite (fun _ => Meets.throw trivial) fun _ => ?_
  exact Meets.ite (fun _ => Meets.throw trivial) fun _ => Meets.pure trivial

theorem Literal.ofText?_meets (raw : String) :
    Meets Fault.IsNumeric (fun _ => True) (ofText? raw) := by
  unfold ofText?
  refine Meets.ite (fun _ => Meets.pure trivial) fun _ => ?_
  refine Meets.ite (fun _ => Meets.pure trivial) fun _ => ?_
  refine Meets.ite (fun _ => Meets.pure trivial) fun _ => ?_
  refine Meets.ite (fun _ => Meets.pure trivial) fun _ => ?_
  split
  · exact Meets.pure trivial
  · exact (Decimal.readInteger_meets raw).bind fun _ _ => Meets.pure trivial
  · exact Meets.pure trivial

/-- A bare text is a literal as it is written, or a reference. -/
theorem Param.ofText_meets (raw : String) :
    Meets Fault.IsNumeric (fun p => (∃ value, p = .literal raw value) ∨ p = .reference raw)
      (ofText raw) := by
  refine (Literal.ofText?_meets raw).bind fun value? _ => ?_
  cases value? with
  | none => exact Meets.pure (.inr rfl)
  | some value => exact Meets.pure (.inl ⟨value, rfl⟩)

namespace Value

/-- The values directly inside a value; what a function answers is not inside it. -/
def inner : Value → List Value
  | list _ items | tuple _ items | iterator _ items => items
  | map _ entries => entries.flatMap fun (k, v) => [k, v]
  | object _ fields => fields.map (·.2)
  | _ => []

/-- What holds of a value when it holds of the values inside it holds of every value. -/
theorem induct {P : Value → Prop} (step : ∀ v : Value, (∀ u ∈ v.inner, P u) → P v) : ∀ v, P v := by
  have leaf (v : Value) (hv : v.inner = []) : P v := step v (by simp [hv])
  refine @Value.rec (fun _ => True) P (fun items => ∀ v ∈ items, P v)
    (fun entries => ∀ entry ∈ entries, P entry.1 ∧ P entry.2)
    (fun fields => ∀ field ∈ fields, P field.2) (fun entry => P entry.1 ∧ P entry.2)
    (fun field => P field.2) (fun _ _ => trivial) (fun _ _ => trivial) (fun _ => trivial)
    (leaf _ rfl) (fun _ => leaf _ rfl) (fun _ => leaf _ rfl) (fun _ => leaf _ rfl)
    (fun _ => leaf _ rfl) (fun _ => leaf _ rfl) (fun _ _ => leaf _ rfl)
    (fun _ _ h => step _ h) (fun _ _ h => step _ h) ?map ?object (fun _ _ h => step _ h)
    (fun _ _ _ => leaf _ rfl) (fun _ _ _ _ => leaf _ rfl) (fun _ _ => leaf _ rfl)
    (fun _ hv => nomatch hv) (fun _ _ hv hrest => List.forall_mem_cons.2 ⟨hv, hrest⟩)
    (fun _ he => nomatch he) (fun _ _ he hrest => List.forall_mem_cons.2 ⟨he, hrest⟩)
    (fun _ hf => nomatch hf) (fun _ _ hf hrest => List.forall_mem_cons.2 ⟨hf, hrest⟩)
    (fun _ _ hk hv => ⟨hk, hv⟩) (fun _ _ hv => hv)
  · intro label entries h
    refine step _ fun u hu => ?_
    simp only [inner, List.mem_flatMap, List.mem_cons, List.not_mem_nil, or_false] at hu
    obtain ⟨entry, hentry, rfl | rfl⟩ := hu
    · exact (h entry hentry).1
    · exact (h entry hentry).2
  · intro label fields h
    refine step _ fun u hu => ?_
    obtain ⟨field, hfield, rfl⟩ := List.mem_map.1 hu
    exact h field hfield

theorem mem_inner_map {label : Label} {entries : List (Value × Value)} {k v : Value}
    (h : (k, v) ∈ entries) : k ∈ (map label entries).inner ∧ v ∈ (map label entries).inner := by
  constructor
  · exact List.mem_flatMap.2 ⟨(k, v), h, by simp⟩
  · exact List.mem_flatMap.2 ⟨(k, v), h, by simp⟩

/-- The first value is the second one or stands somewhere inside it. -/
inductive Inside : Value → Value → Prop where
  | refl (v : Value) : Inside v v
  | inner {t u v : Value} : u ∈ v.inner → Inside t u → Inside t v

/-- An integer with more figures than can be written stands in the value. -/
def Overlong (v : Value) : Prop :=
  ∃ n : Particular Int, Inside (.int n) v ∧ Nat.pow 10 Fault.digitLimit ≤ n.content.natAbs

theorem Overlong.of_inner {u v : Value} (hu : u ∈ v.inner) (h : u.Overlong) : v.Overlong := by
  obtain ⟨n, hinside, hlong⟩ := h
  exact ⟨n, .inner hu hinside, hlong⟩

/-- The fault of a value that holds an integer with too many figures. -/
def FaultsAt (v : Value) (cause : Fault) : Prop := cause = .longInteger none ∧ v.Overlong

theorem FaultsAt.of_inner {u v : Value} {cause : Fault} (hu : u ∈ v.inner) (h : u.FaultsAt cause) :
    v.FaultsAt cause :=
  ⟨h.1, h.2.of_inner hu⟩

theorem literals_meets {F : Fault → Prop} {items : List Value}
    (h : ∀ v ∈ items, Meets F (fun _ => True) v.literal) :
    Meets F (fun _ => True) (literals items) := by
  induction items with
  | nil => exact Meets.pure trivial
  | cons v rest ih =>
    obtain ⟨hv, hrest⟩ := List.forall_mem_cons.1 h
    rw [literals]
    exact hv.bind fun first _ => (ih hrest).bind fun others _ => Meets.pure trivial

theorem entryLiterals_meets {F : Fault → Prop} {entries : List (Value × Value)}
    (h : ∀ entry ∈ entries, Meets F (fun _ => True) entry.1.literal ∧
      Meets F (fun _ => True) entry.2.literal) :
    Meets F (fun _ => True) (entryLiterals entries) := by
  induction entries with
  | nil => exact Meets.pure trivial
  | cons entry rest ih =>
    obtain ⟨⟨hk, hv⟩, hrest⟩ := List.forall_mem_cons.1 h
    rw [entryLiterals]
    refine hk.bind fun key _ => hv.bind fun value _ => (ih hrest).bind fun others _ => ?_
    exact Meets.pure trivial

/-- A value that cannot be written out holds an integer with too many figures, by induction on the
value. -/
theorem literal_faultsAt (v : Value) : Meets v.FaultsAt (fun _ => True) v.literal := by
  induction v using Value.induct with
  | step v ih =>
    have inside {u : Value} (hu : u ∈ v.inner) : Meets v.FaultsAt (fun _ => True) u.literal :=
      (ih u hu).mono (fun _ hf => hf.of_inner hu) fun _ _ => trivial
    cases v with
    | int n =>
      rw [literal]
      refine Meets.ite (fun _ => Meets.pure trivial) fun hlong => Meets.throw ⟨rfl, n, .refl _, ?_⟩
      exact Nat.le_of_not_lt hlong
    | list label items =>
      rw [literal]
      exact (literals_meets fun u hu => inside hu).bind fun _ _ => Meets.pure trivial
    | tuple label items =>
      rw [literal]
      refine (literals_meets fun u hu => inside hu).bind fun parts _ => ?_
      split <;> exact Meets.pure trivial
    | map label entries =>
      rw [literal]
      refine (entryLiterals_meets fun entry hentry => ?_).bind fun _ _ => Meets.pure trivial
      exact ⟨inside (mem_inner_map hentry).1, inside (mem_inner_map hentry).2⟩
    | _ =>
      rw [literal]
      exact Meets.pure trivial

/-- Writing a literal faults at integers only. -/
theorem literal_meets (v : Value) : Meets Fault.IsNumeric (fun _ => True) v.literal := by
  refine (literal_faultsAt v).mono (fun cause hcause => ?_) fun _ h => h
  rw [hcause.1]
  trivial

theorem displays_meets {items : List Value}
    (h : ∀ v ∈ items, ∀ drawn, Meets Fault.IsNumeric (fun _ => True) (v.display drawn))
    (drawn : List Label) : Meets Fault.IsNumeric (fun _ => True) (displays drawn items) := by
  induction items generalizing drawn with
  | nil =>
    rw [displays]
    exact Meets.pure trivial
  | cons v rest ih =>
    rw [displays]
    refine (h v List.mem_cons_self drawn).bind fun found _ => ?_
    refine (ih (fun u hu => h u (List.mem_cons_of_mem _ hu)) found.2).bind fun others _ => ?_
    exact Meets.pure trivial

/-- Displaying a value faults at integers only, by induction on the value. -/
theorem display_meets (v : Value) (drawn : List Label) :
    Meets Fault.IsNumeric (fun _ => True) (v.display drawn) := by
  induction v using Value.induct generalizing drawn with
  | step v ih =>
    have hliteral : Meets Fault.IsNumeric (fun _ => True)
        (do pure (← v.literal, drawn) : Except Fault (String × List Label)) :=
      (literal_meets v).bind fun _ _ => Meets.pure trivial
    cases v with
    | null | bool | text | safe =>
      rw [display]
      exact Meets.pure trivial
    | list label items | tuple label items =>
      rw [display]
      exact (displays_meets ih drawn).bind fun _ _ => Meets.pure trivial
    | iterator label items =>
      rw [display]
      refine Meets.ite (fun _ => Meets.pure trivial) fun _ => ?_
      exact (displays_meets ih _).bind fun _ _ => Meets.pure trivial
    | _ =>
      rw [display]
      · exact hliteral
      all_goals simp

end Value

end Stencil
