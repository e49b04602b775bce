import Stencil.Helper.Registry

/-!
# Registries of built-in helpers

Registries in which every name is that of the built-in helper it finds. The registries that engines
start with are of this kind, strict or not.
-/

namespace Stencil

/-- A helper is the built-in of a name. -/
def Helper.IsBuiltIn (name : String) (helper : Helper) : Prop :=
  ∃ which : Builtin, helper.behaviour = .builtin which ∧ which.name = name

namespace Registry

/-- Every name finds the built-in of that name, or nothing. -/
def BuiltIn (r : Registry) : Prop :=
  ∀ name helper, r.lookup name = some helper → helper.IsBuiltIn name

variable {r : Registry}

theorem BuiltIn.empty : BuiltIn {} := fun _ _ h => nomatch h

theorem BuiltIn.put (h : r.BuiltIn) (which : Builtin) (stamp : Nat) :
    (r.put which.name ⟨stamp, .builtin which⟩).BuiltIn := by
  intro name helper hlookup
  rw [lookup_put] at hlookup
  by_cases hname : name = which.name
  · rw [if_pos hname] at hlookup
    cases hlookup
    exact ⟨which, rfl, hname.symm⟩
  · rw [if_neg hname] at hlookup
    exact h name helper hlookup

theorem BuiltIn.standard (strict : Bool) (stamp : Nat) :
    (Registry.standard strict stamp).BuiltIn := by
  have hfold : ∀ (all : List Builtin) (r : Registry), r.BuiltIn →
      (all.foldl (fun r which => r.put which.name ⟨stamp, .builtin which⟩) r).BuiltIn := by
    intro all
    induction all with
    | nil => exact fun r hr => hr
    | cons which rest ih => exact fun r hr => ih _ (hr.put which stamp)
  have hlax := hfold builtins {} BuiltIn.empty
  cases strict with
  | false => exact hlax
  | true => exact hlax.put .missing stamp

end Registry

end Stencil
