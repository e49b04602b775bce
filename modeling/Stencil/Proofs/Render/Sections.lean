import Stencil.Proofs.Render.Fragment

/-!
# What a section does step by step

A section finds out what its helper is told, calls the helper with its clauses, and writes what is
answered, all inside a frame of its own. The helper is an action: its requests are answered one after
the other.
-/

namespace Stencil

namespace Render

variable {α β : Type}

theorem ext {m m' : Render α} (h : ∀ w, m.outcome w = m'.outcome w) : m = m' := funext h

/-- A sequence that succeeds is made of two steps that do. -/
theorem outcome_bind_ok {m : Render α} {k : α → Render β} {b : β} {w after : World}
    (h : (m >>= k).outcome w = some (.ok b, after)) :
    ∃ a between, m.outcome w = some (.ok a, between) ∧
      (k a).outcome between = some (.ok b, after) := by
  rw [outcome_bind] at h
  obtain ⟨⟨r, between⟩, hm, h⟩ := Option.bind_eq_some_iff.1 h
  cases r with
  | ok a => exact ⟨a, between, hm, h⟩
  | error f => cases h

theorem outcome_bind_of_ok {m : Render α} {k : α → Render β} {a : α} {w after : World}
    (h : m.outcome w = some (.ok a, after)) : (m >>= k).outcome w = (k a).outcome after := by
  rw [outcome_bind, h]
  rfl

theorem outcome_bind_of_error {m : Render α} {k : α → Render β} {f : Failure} {w after : World}
    (h : m.outcome w = some (.error f, after)) :
    (m >>= k).outcome w = some (.error f, after) := by
  rw [outcome_bind, h]
  rfl

/-- A sequence that fails does so with its first step or after it. -/
theorem outcome_bind_failing {m : Render α} {k : α → Render β} {f : Failure} {w after : World}
    (h : (m >>= k).outcome w = some (.error f, after)) :
    m.outcome w = some (.error f, after) ∨ ∃ a between, m.outcome w = some (.ok a, between) ∧
      (k a).outcome between = some (.error f, after) := by
  rw [outcome_bind] at h
  obtain ⟨⟨r, between⟩, hm, h⟩ := Option.bind_eq_some_iff.1 h
  cases r with
  | error g =>
    cases h
    exact .inl hm
  | ok a => exact .inr ⟨a, between, hm, h⟩

theorem outcome_mapFailure_failing {m : Render α} {g : Failure → Failure} {f : Failure}
    {w after : World} (h : (mapFailure g m).outcome w = some (.error f, after)) :
    ∃ cause, m.outcome w = some (.error cause, after) ∧ g cause = f := by
  obtain ⟨⟨r, _⟩, hm, heq⟩ := Option.map_eq_some_iff.1 h
  cases r with
  | ok a => cases heq
  | error cause =>
    cases heq
    exact ⟨cause, hm, rfl⟩

theorem outcome_mapFailure_of_error {m : Render α} {g : Failure → Failure} {f : Failure}
    {w after : World} (h : m.outcome w = some (.error f, after)) :
    (mapFailure g m).outcome w = some (.error (g f), after) := by
  rw [mapFailure, outcome_ofOutcome, h]
  rfl

theorem outcome_observe_bind (m : Render α) (k : Except Failure α → Render β) (w : World) :
    (observe m >>= k).outcome w = (m.outcome w).bind fun (r, after) => (k r).outcome after := by
  rw [outcome_bind, observe, outcome_ofOutcome, Option.bind_map]
  rfl

theorem outcome_ofExcept (x : Except Failure α) (w : World) :
    (Render.ofExcept x).outcome w = some (x, w) := by
  cases x <;> rfl

theorem outcome_get (scope : Scope) (reference : String) (w : World) :
    (Render.get scope reference).outcome w = some (scope.get w.side.readable reference, w) := by
  unfold Render.get
  rw [outcome_bind, Render.read, outcome_ofOutcome, Option.bind_some]
  exact outcome_ofExcept _ w

end Render

namespace Action

variable {α β : Type} (answer : (q : Request) → Render q.Reply)

/-- One action after another is performed as one step after another. -/
theorem perform_bind (action : Action α) (k : α → Action β) :
    (action.bind k).perform answer =
      action.perform answer >>= fun a => (k a).perform answer := by
  induction action with
  | done a => exact (pure_bind a fun a => (k a).perform answer).symm
  | fail failure => rfl
  | ask q next ih =>
    show (Render.observe (answer q) >>= fun reply => ((next reply).bind k).perform answer) =
      (Render.observe (answer q) >>= fun reply => (next reply).perform answer) >>= _
    rw [bind_assoc]
    exact bind_congr ih

/-- A request whose failure is the failure of the action is answered, and nothing else. -/
theorem perform_request (q : Request) : (Action.request q).perform answer = answer q := by
  apply Render.ext
  intro w
  show (Render.observe (answer q) >>= _).outcome w = _
  rw [Render.outcome_observe_bind]
  cases (answer q).outcome w with
  | none => rfl
  | some found =>
    obtain ⟨r, after⟩ := found
    cases r <;> rfl

theorem perform_request_bind (q : Request) (k : q.Reply → Action α) :
    ((Action.request q).bind k).perform answer =
      answer q >>= fun reply => (k reply).perform answer := by
  rw [perform_bind, perform_request]

end Action

/-! ### The call of a section -/

/-- What the helper of a section is called with. -/
structure SectionCall where
  helper : Helper
  subject : Value
  call : Call
  body : Fragment

/-- What a section finds out before its helper is called. -/
def sectionCall (e : Engine) (render : Renderer) (scope : Scope) (head : BlockHead)
    (body : List Node) : Render SectionCall := do
  match head.call.helper with
  | some helper => do
    let subject ← transform e (← subjectOf e render scope head.call.args)
    let call ← callOf e render head.call.name .block scope head.call.args head.call.hash
      head.blockParams
    pure ⟨helper, subject, call, ⟨none, body⟩⟩
  | none => do
    let subject ← transform e (← Render.get scope head.call.name)
    let treated ← treatment e scope head body subject
    let (helper, name) ← implicitHelper e head treated.helper subject
    let call ← callOf e render name .block treated.scope head.call.args head.call.hash
      head.blockParams
    pure ⟨helper, subject, call, treated.body⟩

section

variable (e : Engine) (render : Renderer) (scope : Scope) (head : BlockHead) (body : List Node)

/-- A section calls its helper with what it has found out and with its clauses. -/
theorem blockValue_eq (inverse : Fragment) :
    blockValue e render scope head body inverse =
      sectionCall e render scope head body >>= fun told =>
        invoke e render told.helper told.subject told.call ⟨told.body, inverse, true⟩ := by
  unfold blockValue sectionCall
  cases head.call.helper with
  | some helper => simp only [bind_assoc, pure_bind]
  | none => simp only [bind_assoc, pure_bind]

end

/-- The answer of a section is written, unless there is none. -/
def writeAnswer (v : Value) : Render Unit := do
  if v.isNull then pure () else Render.emit (← Render.display v)

theorem outcome_writeAnswer_text (s : String) (w : World) :
    (writeAnswer (.text s)).outcome w = some (.ok (), { w with output := w.output ++ s }) := rfl

/-- Inside its frame a section defines its inline partials, calls its helper and writes the answer. -/
theorem insideBlock_eq (e : Engine) (render : Renderer) (scope : Scope) (head : BlockHead)
    (body : List Node) (inverse : Fragment) :
    insideBlock e render scope head body inverse =
      defineInlines body >>= fun _ => Render.located head.place
        (blockValue e render scope head body inverse >>= writeAnswer) := rfl

end Stencil
