import Mathlib.Data.List.Forall2
import Stencil.Proofs.Outcome

/-!
# Two computations together

Two computations agree when both have results that are alike, or both fail in ways that are alike.
The rules follow the ways in which computations are put together.
-/

namespace Stencil

/-- Both results are related by `V`, or both failures by `F`. -/
inductive Agree {ε δ α β : Type} (F : ε → δ → Prop) (V : α → β → Prop) :
    Except ε α → Except δ β → Prop where
  | ok {a : α} {b : β} : V a b → Agree F V (.ok a) (.ok b)
  | error {f : ε} {g : δ} : F f g → Agree F V (.error f) (.error g)

namespace Agree

variable {ε δ α β α' β' : Type} {F G : ε → δ → Prop} {V W : α → β → Prop} {U : α' → β' → Prop}
  {x : Except ε α} {y : Except δ β}

theorem throw {f : ε} {g : δ} (h : F f g) :
    Agree F V (MonadExcept.throw f) (MonadExcept.throw g) := .error h

theorem mono (h : Agree F V x y) (hF : ∀ f g, F f g → G f g) (hV : ∀ a b, V a b → W a b) :
    Agree G W x y := by
  cases h with
  | ok h => exact .ok (hV _ _ h)
  | error h => exact .error (hF _ _ h)

theorem bind {k : α → Except ε α'} {l : β → Except δ β'} (h : Agree F V x y)
    (hk : ∀ a b, V a b → Agree F U (k a) (l b)) : Agree F U (x >>= k) (y >>= l) := by
  cases h with
  | ok h => exact hk _ _ h
  | error h => exact .error h

theorem map {g : α → α'} {h : β → β'} (hxy : Agree F (fun a b => U (g a) (h b)) x y) :
    Agree F U (x.map g) (y.map h) := by
  cases hxy with
  | ok h => exact .ok h
  | error h => exact .error h

theorem refl {V : α → α → Prop} {F : ε → ε → Prop} (hF : ∀ f, F f f) (hV : ∀ a, V a a)
    (x : Except ε α) : Agree F V x x := by
  cases x with
  | ok a => exact .ok (hV a)
  | error f => exact .error (hF f)

/-- Results that are related have what each computation has by itself. -/
theorem and_meets {P : α → Prop} {Q : β → Prop} {F' : ε → Prop} {G' : δ → Prop}
    (h : Agree F V x y) (hx : Meets F' P x) (hy : Meets G' Q y) :
    Agree F (fun a b => V a b ∧ P a ∧ Q b) x y := by
  cases h with
  | ok h => exact .ok ⟨h, hx.of_ok rfl, hy.of_ok rfl⟩
  | error h => exact .error h

/-- What one computation comes to decides what the other one does. -/
theorem of_ok (h : Agree F V x y) {a : α} (hx : x = .ok a) : ∃ b, y = .ok b ∧ V a b := by
  subst hx
  cases h with
  | ok h => exact ⟨_, rfl, h⟩

theorem of_error (h : Agree F V x y) {f : ε} (hx : x = .error f) : ∃ g, y = .error g ∧ F f g := by
  subst hx
  cases h with
  | error h => exact ⟨_, rfl, h⟩

end Agree

end Stencil
