import Stencil.Proofs.Helper.BuiltIn

/-!
# Helpers that are confined to some requests

The requests of a helper are all that it can do to a render, so a helper that never makes some of
them, whatever it is answered, can be left out of account where only these would matter. The built-in
helpers have parts of the template rendered, display and draw values, and report; they ask for nothing
else.
-/

namespace Stencil

/-- An action that makes only requests with `Q`, whatever it is answered. -/
def Action.AsksOnly {α : Type} (Q : Request → Prop) : Action α → Prop
  | .done _ | .fail _ => True
  | .ask q next => Q q ∧ ∀ reply, (next reply).AsksOnly Q

/-- A helper that makes only requests with `Q`, whatever it is called with. -/
def Helper.AsksOnly (Q : Request → Prop) (helper : Helper) : Prop :=
  ∀ subject call, (helper.act subject call).AsksOnly Q

namespace Action.AsksOnly

variable {α β : Type} {Q : Request → Prop}

theorem bind {action : Action α} {k : α → Action β} (h : action.AsksOnly Q)
    (hk : ∀ a, (k a).AsksOnly Q) : (action.bind k).AsksOnly Q := by
  induction action with
  | done a => exact hk a
  | fail failure => trivial
  | ask q next ih => exact ⟨h.1, fun reply => ih reply (h.2 reply)⟩

theorem request {q : Request} (h : Q q) : (Action.request q).AsksOnly Q :=
  ⟨h, fun reply => by cases reply <;> trivial⟩

/-- An action makes no requests but requests. -/
theorem of_all (h : ∀ q, Q q) (action : Action α) : action.AsksOnly Q := by
  induction action with
  | done | fail => trivial
  | ask q next ih => exact ⟨h q, ih⟩

theorem ite {p : Prop} [Decidable p] {x y : Action α} (hx : x.AsksOnly Q) (hy : y.AsksOnly Q) :
    (if p then x else y).AsksOnly Q := by
  by_cases h : p
  · rw [if_pos h]
    exact hx
  · rw [if_neg h]
    exact hy

end Action.AsksOnly

/-- The requests that the built-in helpers make. -/
def Request.IsPlain : Request → Prop
  | .render .. | .display _ | .items _ | .log .. => True
  | _ => False

namespace Builtin

variable {Q : Request → Prop} (hQ : ∀ q : Request, q.IsPlain → Q q)

include hQ

theorem renderText_asksOnly (what : Markup) (scope : Scope) :
    Action.AsksOnly Q (do pure (Value.text (← Action.request (.render what scope)))) :=
  .bind (.request (hQ _ trivial)) fun _ => trivial

theorem eachEntry_asksOnly (call : Call) (count index : Nat) (entries : List (Value × Value)) :
    (eachEntry call count index entries).AsksOnly Q := by
  induction entries generalizing index with
  | nil => trivial
  | cons entry rest ih =>
    exact .bind (.request (hQ _ trivial)) fun text => .bind (ih (index + 1)) fun others => trivial

theorem eachOf_asksOnly (call : Call) (entries : List (Value × Value)) :
    (eachOf call entries).AsksOnly Q :=
  .ite (renderText_asksOnly hQ .inverse call.scope)
    (.bind (eachEntry_asksOnly hQ call entries.length 0 entries) fun _ => trivial)

theorem displayAll_asksOnly (values : List Value) : (displayAll values).AsksOnly Q := by
  induction values with
  | nil => trivial
  | cons v rest ih =>
    exact .bind (.request (hQ _ trivial)) fun text => .bind ih fun others => trivial

theorem act_asksOnly (which : Builtin) (subject : Value) (call : Call) :
    (which.act subject call).AsksOnly Q := by
  cases which with
  | each =>
    unfold act
    dsimp only
    split
    · exact eachOf_asksOnly hQ call _
    · refine .ite ?_ (renderText_asksOnly hQ .inverse call.scope)
      exact .bind (.request (hQ _ trivial)) fun items => eachOf_asksOnly hQ call _
  | branch | enter =>
    exact .ite (renderText_asksOnly hQ .inverse call.scope) (renderText_asksOnly hQ .body _)
  | negate =>
    exact .ite (renderText_asksOnly hQ .body call.scope) (renderText_asksOnly hQ .inverse call.scope)
  | lookup =>
    refine .ite trivial (.ite trivial (.bind (.request (hQ _ trivial)) fun name => ?_))
    split <;> trivial
  | log =>
    exact .bind (displayAll_asksOnly hQ _) fun texts =>
      .bind (.request (hQ _ trivial)) fun _ => trivial
  | missing => trivial

end Builtin

/-- The built-in helpers make no other requests. -/
theorem Helper.IsBuiltIn.asksOnly {name : String} {helper : Helper} (h : helper.IsBuiltIn name)
    {Q : Request → Prop} (hQ : ∀ q : Request, q.IsPlain → Q q) : helper.AsksOnly Q := by
  obtain ⟨which, hwhich, -⟩ := h
  intro subject call
  rw [Helper.act, hwhich]
  exact which.act_asksOnly hQ subject call

end Stencil
