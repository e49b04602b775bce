import Stencil.Proofs.Scope.Holding
import Stencil.Transformer

/-!
# Clean data

Clean data holds no text that would be written as it is and nothing that can be called, at any
depth. What is read from clean data is clean.
-/

namespace Stencil

namespace Value

/-- Texts that are written without escaping. -/
def isSafe : Value → Bool
  | safe _ => true
  | _ => false

/-- Functions, and the lambdas made of them. -/
def isCallable : Value → Bool
  | function .. | lambda .. | pathLambda .. => true
  | _ => false

/-- What cannot be called is no lambda. -/
theorem not_lambda_of_not_callable {v : Value} (h : v.isCallable = false) : v.isLambda = false := by
  cases v with
  | lambda | pathLambda => exact absurd h (by simp [isCallable])
  | _ => rfl

/-- Data without safe texts and callables, at any depth, keys of mappings included. -/
inductive Clean : Value → Prop where
  | intro {v : Value} : v.isSafe = false → v.isCallable = false → (∀ u ∈ v.inner, Clean u) → Clean v

namespace Clean

variable {v : Value}

theorem not_safe (h : v.Clean) : v.isSafe = false := by
  cases h with
  | intro hsafe _ _ => exact hsafe

theorem not_callable (h : v.Clean) : v.isCallable = false := by
  cases h with
  | intro _ hcallable _ => exact hcallable

theorem inner (h : v.Clean) : ∀ u ∈ v.inner, u.Clean := by
  cases h with
  | intro _ _ hinner => exact hinner

/-- Clean data is no lambda. -/
theorem not_lambda (h : v.Clean) : v.isLambda = false := not_lambda_of_not_callable h.not_callable

/-- Scalars that are not safe are clean. -/
theorem of_scalar (hsafe : v.isSafe = false) (hcallable : v.isCallable = false)
    (hinner : v.inner = []) : v.Clean :=
  .intro hsafe hcallable fun u hu => by
    rw [hinner] at hu
    exact nomatch hu

theorem literal (l : Literal) : l.value.Clean := by
  cases l <;> exact of_scalar rfl rfl rfl

theorem int (n : Particular Int) : (Value.int n).Clean := literal (.integer n)

theorem float (x : Particular Float) : (Value.float x).Clean := literal (.decimal x)

end Clean

end Value

/-- Members of clean data are clean. -/
theorem membersKeep_clean : MembersKeep Value.Clean :=
  .of_inner Value.Clean.int Value.Clean.inner Value.Clean.float fun _ _ _ h => by
    exact absurd h.not_callable (by simp [Value.isCallable])

/-- Only functions are made lambdas. -/
theorem Transformer.lift_of_not_callable (label : Label) {v : Value} (h : v.isCallable = false) :
    lift label v = v := by
  cases v with
  | function => exact absurd h (by simp [Value.isCallable])
  | _ => rfl

/-- What holds of a value and of all values that are put in place of texts holds of the transformed
value, if it holds of nothing that can be called. -/
theorem Transformer.apply_keeps {P : Value → Prop} (hP : ∀ {v}, P v → v.isCallable = false)
    {table : List (String × Value)} (htable : ∀ entry ∈ table, P entry.2) (label : Label) {v : Value}
    (hv : P v) : P ((lambdas table).apply label v) := by
  unfold apply
  dsimp only
  split
  · rename_i other hother
    obtain ⟨s, -, hs⟩ := Option.bind_eq_some_iff.1 hother
    have hfound := htable (s, other) (Table.mem_of_lookup hs)
    rwa [lift_of_not_callable label (hP hfound)]
  · rwa [lift_of_not_callable label (hP hv)]

/-- A transformer that puts only clean data in place of texts. -/
def Transformer.Clean : Transformer → Prop
  | lambdas table => ∀ entry ∈ table, entry.2.Clean
  | identity => True

theorem Transformer.Clean.standard : Transformer.standard.Clean := fun _ h => nomatch h

theorem Transformer.Clean.apply {t : Transformer} (ht : t.Clean) (label : Label) {v : Value}
    (hv : v.Clean) : (t.apply label v).Clean := by
  cases t with
  | identity => exact hv
  | lambdas table => exact apply_keeps Value.Clean.not_callable ht label hv

end Stencil
