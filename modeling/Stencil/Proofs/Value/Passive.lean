import Stencil.Proofs.Value.Clean
import Stencil.Render.SideChannel

/-!
# Passive data

Passive data holds nothing that can be called, at any depth. Nothing that is read from it, drawn from
it or put in its place can be called either, so rendering against it compiles no markup.
-/

namespace Stencil

namespace Value

/-- Data without callables, at any depth, keys of mappings included. -/
inductive Passive : Value → Prop where
  | intro {v : Value} : v.isCallable = false → (∀ u ∈ v.inner, Passive u) → Passive v

namespace Passive

variable {v : Value}

theorem not_callable (h : v.Passive) : v.isCallable = false := by
  cases h with
  | intro hcallable _ => exact hcallable

theorem inner (h : v.Passive) : ∀ u ∈ v.inner, u.Passive := by
  cases h with
  | intro _ hinner => exact hinner

/-- Passive data is no lambda. -/
theorem not_lambda (h : v.Passive) : v.isLambda = false := not_lambda_of_not_callable h.not_callable

theorem of_scalar (hcallable : v.isCallable = false) (hinner : v.inner = []) : v.Passive :=
  .intro hcallable fun u hu => by
    rw [hinner] at hu
    exact nomatch hu

theorem literal (l : Literal) : l.value.Passive := by
  cases l <;> exact of_scalar rfl rfl

theorem int (n : Particular Int) : (Value.int n).Passive := literal (.integer n)

theorem float (x : Particular Float) : (Value.float x).Passive := literal (.decimal x)

theorem text (s : Particular String) : (Value.text s).Passive := literal (.text s)

theorem list {items : List Value} (label : Label) (h : ∀ u ∈ items, u.Passive) :
    (Value.list label items).Passive := .intro rfl h

theorem map {entries : List (Value × Value)} (label : Label)
    (h : ∀ entry ∈ entries, entry.1.Passive ∧ entry.2.Passive) :
    (Value.map label entries).Passive := by
  refine .intro rfl fun u hu => ?_
  obtain ⟨entry, hmem, hu⟩ := List.mem_flatMap.1 hu
  simp only [List.mem_cons, List.not_mem_nil, or_false] at hu
  rcases hu with rfl | rfl
  · exact (h entry hmem).1
  · exact (h entry hmem).2

end Passive

end Value

/-- Members of passive data are passive. -/
theorem membersKeep_passive : MembersKeep Value.Passive :=
  .of_inner Value.Passive.int Value.Passive.inner Value.Passive.float fun _ _ _ h => by
    exact absurd h.not_callable (by simp [Value.isCallable])

/-- A transformer that puts only passive data in place of texts. -/
def Transformer.Passive : Transformer → Prop
  | lambdas table => ∀ entry ∈ table, entry.2.Passive
  | identity => True

theorem Transformer.Passive.standard : Transformer.standard.Passive := fun _ h => nomatch h

theorem Transformer.Passive.apply {t : Transformer} (ht : t.Passive) (label : Label) {v : Value}
    (hv : v.Passive) : (t.apply label v).Passive := by
  cases t with
  | identity => exact hv
  | lambdas table => exact apply_keeps Value.Passive.not_callable ht label hv

end Stencil
