import Stencil.Failure

/-!
# Results and failures together

What holds of a computation however it ends: one property of its failures, another of its results.
The rules follow the ways in which computations are put together.
-/

namespace Stencil

/-- A result satisfies `V`, or a failure satisfies `F`. -/
inductive Meets {ε α : Type} (F : ε → Prop) (V : α → Prop) : Except ε α → Prop where
  | ok {a : α} : V a → Meets F V (.ok a)
  | error {f : ε} : F f → Meets F V (.error f)

namespace Meets

variable {ε α β : Type} {F G : ε → Prop} {V W : α → Prop} {U : β → Prop}

@[simp] theorem ok_iff (a : α) : Meets F V (.ok a) ↔ V a := by
  constructor
  · intro h
    cases h with
    | ok h => exact h
  · exact .ok

@[simp] theorem error_iff (f : ε) : Meets F V (.error f : Except ε α) ↔ F f := by
  constructor
  · intro h
    cases h with
    | error h => exact h
  · exact .error

theorem pure {a : α} (h : V a) : Meets F V (Pure.pure a) := .ok h

theorem throw {f : ε} (h : F f) : Meets F V (MonadExcept.throw f) := .error h

theorem mono {x : Except ε α} (h : Meets F V x) (hF : ∀ f, F f → G f) (hV : ∀ a, V a → W a) :
    Meets G W x := by
  cases h with
  | ok h => exact .ok (hV _ h)
  | error h => exact .error (hF _ h)

theorem bind {x : Except ε α} {k : α → Except ε β} (hx : Meets F V x)
    (hk : ∀ a, V a → Meets F U (k a)) : Meets F U (x >>= k) := by
  cases hx with
  | ok h => exact hk _ h
  | error h => exact .error h

/-- The second of two steps may use how the first has ended. -/
theorem bind_eq {x : Except ε α} {k : α → Except ε β} (hx : ∀ f, x = .error f → F f)
    (hk : ∀ a, x = .ok a → Meets F U (k a)) : Meets F U (x >>= k) := by
  cases x with
  | ok a => exact hk a rfl
  | error f => exact .error (hx f rfl)

theorem map {x : Except ε α} {g : α → β} (hx : Meets F (fun a => U (g a)) x) :
    Meets F U (x.map g) := by
  cases hx with
  | ok h => exact .ok h
  | error h => exact .error h

theorem mapError {x : Except ε α} {g : ε → ε} (hx : Meets F V x) (hg : ∀ f, F f → G (g f)) :
    Meets G V (x.mapError g) := by
  cases hx with
  | ok h => exact .ok h
  | error h => exact .error (hg _ h)

theorem ite {p : Prop} [Decidable p] {x y : Except ε α} (hx : p → Meets F V x)
    (hy : ¬p → Meets F V y) : Meets F V (if p then x else y) := by
  by_cases h : p
  · rw [if_pos h]
    exact hx h
  · rw [if_neg h]
    exact hy h

/-- What holds of each failure and each result holds of the computation. -/
theorem of_cases {x : Except ε α} (hok : ∀ a, x = .ok a → V a) (herror : ∀ f, x = .error f → F f) :
    Meets F V x := by
  cases x with
  | ok a => exact .ok (hok a rfl)
  | error f => exact .error (herror f rfl)

theorem of_ok {x : Except ε α} {a : α} (h : Meets F V x) (hx : x = .ok a) : V a := by
  subst hx
  exact (ok_iff a).1 h

theorem of_error {x : Except ε α} {f : ε} (h : Meets F V x) (hx : x = .error f) : F f := by
  subst hx
  exact (error_iff f).1 h

end Meets

end Stencil
