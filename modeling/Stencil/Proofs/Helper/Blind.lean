import Stencil.Proofs.Helper.BuiltIn
import Stencil.Proofs.Value.Still

/-!
# Helpers that do not look around

A helper may ask for more than its subject and arguments: for a label that is free, for the frames,
for data that is not read by a reference. The built-in helpers never do. Against still data they are
blind to everything that differs from one call of theirs to the next but what they are told and what
they have rendered.
-/

namespace Stencil

/-- Requests that neither read nor change anything of the render but what it writes and reports;
only still data is displayed. -/
def Request.Blind : Request → Prop
  | .label | .frames | .data _ | .setData .. => False
  | .display v => v.Still
  | _ => True

/-- An action that makes blind requests only, whatever it is answered. -/
def Action.Blind {α : Type} : Action α → Prop
  | .done _ | .fail _ => True
  | .ask q next => q.Blind ∧ ∀ reply, (next reply).Blind

namespace Action.Blind

variable {α β : Type}

theorem bind {action : Action α} {k : α → Action β} (h : action.Blind) (hk : ∀ a, (k a).Blind) :
    (action.bind k).Blind := by
  induction action with
  | done a => exact hk a
  | fail failure => trivial
  | ask q next ih => exact ⟨h.1, fun reply => ih reply (h.2 reply)⟩

theorem request {q : Request} (h : q.Blind) : (Action.request q).Blind :=
  ⟨h, fun reply => by cases reply <;> trivial⟩

theorem ite {p : Prop} [Decidable p] {x y : Action α} (hx : x.Blind) (hy : y.Blind) :
    (if p then x else y).Blind := by
  by_cases h : p
  · rw [if_pos h]
    exact hx
  · rw [if_neg h]
    exact hy

end Action.Blind

namespace Builtin

theorem renderText_blind (what : Markup) (scope : Scope) :
    Action.Blind (do pure (Value.text (← Action.request (.render what scope)))) :=
  .bind (.request trivial) fun _ => trivial

theorem eachEntry_blind (call : Call) (count index : Nat) (entries : List (Value × Value)) :
    (eachEntry call count index entries).Blind := by
  induction entries generalizing index with
  | nil => trivial
  | cons entry rest ih =>
    exact .bind (.request trivial) fun text => .bind (ih (index + 1)) fun others => trivial

theorem eachOf_blind (call : Call) (entries : List (Value × Value)) :
    (eachOf call entries).Blind :=
  .ite (renderText_blind .inverse call.scope)
    (.bind (eachEntry_blind call entries.length 0 entries) fun _ => trivial)

theorem displayAll_blind {values : List Value} (h : ∀ v ∈ values, v.Still) :
    (displayAll values).Blind := by
  induction values with
  | nil => trivial
  | cons v rest ih =>
    obtain ⟨hv, hrest⟩ := List.forall_mem_cons.1 h
    exact .bind (.request hv) fun text => .bind (ih hrest) fun others => trivial

/-- Built-in helpers are blind when they are called with still data. -/
theorem act_blind (which : Builtin) {subject : Value} {call : Call} (hsubject : subject.Still)
    (hparams : ∀ v ∈ call.params, v.Still) (hmodel : call.scope.here.model.Still) :
    (which.act subject call).Blind := by
  cases which with
  | each =>
    unfold act
    dsimp only
    split
    · exact eachOf_blind call _
    · exact .ite (.bind (.request trivial) fun items => eachOf_blind call _)
        (renderText_blind .inverse call.scope)
  | branch | enter =>
    exact .ite (renderText_blind .inverse call.scope) (renderText_blind .body _)
  | negate => exact .ite (renderText_blind .body call.scope) (renderText_blind .inverse call.scope)
  | lookup =>
    have hname : (call.params.headD .null).Still := by
      cases hcall : call.params with
      | nil => exact .literal .null
      | cons v rest => exact hparams v (by rw [hcall]; exact List.mem_cons_self)
    refine .ite trivial (.ite trivial (.bind (.request hname) fun name => ?_))
    split <;> trivial
  | log =>
    refine .bind (displayAll_blind ?_) fun texts => .bind (.request trivial) fun _ => trivial
    split
    · exact List.forall_mem_singleton.2 hmodel
    · exact List.forall_mem_cons.2 ⟨hsubject, hparams⟩
  | missing => trivial

end Builtin

end Stencil
