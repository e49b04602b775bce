import Stencil.Proofs.Helper.Asking
import Stencil.Proofs.Helper.BuiltIn

/-!
# Helpers that raise fresh errors

A helper may fail in two ways: with a failure of its own, or with one that it has been answered. The
first is new, so no tag has been blamed for it yet; the second comes from what the helper has had
rendered, and may be blamed on a tag in there. The helpers that keep to this are fresh. All built-in
helpers are.
-/

namespace Stencil

/-- Every failure of an action satisfies `F`, as long as those that it is answered do. -/
def Action.FailsWithin {α : Type} (F : Failure → Prop) : Action α → Prop
  | .done _ => True
  | .fail f => F f
  | .ask _ next => ∀ reply, Meets F (fun _ => True) reply → FailsWithin F (next reply)

/-- A helper that fails with new failures, blamed on no place, and with those that it is answered:
whatever is true of these is true of all its failures. -/
def Helper.Fresh (helper : Helper) : Prop :=
  ∀ F : Failure → Prop, (∀ f, ¬f.IsPlaced → F f) →
    ∀ subject call, (helper.act subject call).FailsWithin F

/-- What recovers from nothing fails with what it is answered, or with something new. -/
theorem Action.Forwards.failsWithin {α : Type} {action : Action α} (h : action.Forwards)
    {F : Failure → Prop} (hF : ∀ f, ¬f.IsPlaced → F f) : action.FailsWithin F := by
  induction action with
  | done a => trivial
  | fail f => exact hF f h
  | ask q next ih =>
    intro reply hreply
    cases hreply with
    | ok hreply => exact ih _ (h.2 _)
    | error hfailure =>
      rw [h.1]
      exact hfailure

/-- The built-in helpers are fresh. -/
theorem Helper.IsBuiltIn.fresh {name : String} {helper : Helper} (h : helper.IsBuiltIn name) :
    helper.Fresh := by
  obtain ⟨which, hwhich, -⟩ := h
  intro F hF subject call
  rw [Helper.act, hwhich]
  exact (which.act_forwards subject call).failsWithin hF

/-- All helpers that a registry knows are fresh. -/
def Registry.Fresh (r : Registry) : Prop :=
  ∀ name helper, r.lookup name = some helper → helper.Fresh

/-- Registries of built-in helpers know fresh helpers only. -/
theorem Registry.BuiltIn.fresh {r : Registry} (h : r.BuiltIn) : r.Fresh :=
  fun name helper hlookup => (h name helper hlookup).fresh

end Stencil
