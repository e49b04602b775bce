import Stencil.Proofs.Render.Sections

/-!
# What helpers ask for

A helper that is called in a world makes its requests one after the other, each in the world that the
one before has left. Which requests come is decided by the answers. The built-in helpers recover from
nothing: a request that fails is the last one.
-/

namespace Stencil

open Render

/-- Render errors that are blamed on a place already. -/
def Failure.IsPlaced : Failure → Prop
  | .render _ (some _) => True
  | _ => False

namespace Action

/-- An action performed in a world comes to a request, in the world that the requests before it have
left. -/
inductive Asks {α : Type} (answer : (q : Request) → Render q.Reply) :
    Action α → World → Request → World → Prop where
  | now {q : Request} {next : Except Failure q.Reply → Action α} {w : World} :
      Asks answer (ask q next) w q w
  | later {q q' : Request} {next : Except Failure q.Reply → Action α} {w between asked : World}
      {reply : Except Failure q.Reply} : (answer q).outcome w = some (reply, between) →
      Asks answer (next reply) between q' asked → Asks answer (ask q next) w q' asked

section

variable {α β : Type} {answer : (q : Request) → Render q.Reply} {q : Request} {w asked : World}

theorem not_asks_done {a : α} : ¬(done a).Asks answer w q asked := by
  intro h
  cases h

/-- A request of a sequence is one of its first action, or of the second once the first is done. -/
theorem Asks.of_bind {action : Action α} {k : α → Action β}
    (h : (action.bind k).Asks answer w q asked) :
    action.Asks answer w q asked ∨ ∃ a between,
      (action.perform answer).outcome w = some (.ok a, between) ∧
        (k a).Asks answer between q asked := by
  induction action generalizing w with
  | done a => exact .inr ⟨a, w, rfl, h⟩
  | fail failure => cases h
  | ask p next ih =>
    cases h with
    | now => exact .inl .now
    | later hreply h =>
      rcases ih _ h with hfirst | ⟨a, between, hdone, hsecond⟩
      · exact .inl (.later hreply hfirst)
      · refine .inr ⟨a, between, ?_, hsecond⟩
        show (Render.observe (answer p) >>= _).outcome w = _
        rw [outcome_observe_bind, hreply]
        exact hdone

theorem Asks.bind {action : Action α} (h : action.Asks answer w q asked) (k : α → Action β) :
    (action.bind k).Asks answer w q asked := by
  induction h with
  | now => exact .now
  | later hreply _ ih => exact .later hreply ih

theorem Asks.bind_done {action : Action α} {k : α → Action β} {a : α} {between : World}
    (hdone : (action.perform answer).outcome w = some (.ok a, between))
    (h : (k a).Asks answer between q asked) : (action.bind k).Asks answer w q asked := by
  induction action generalizing w with
  | done b =>
    cases hdone
    exact h
  | fail failure => cases hdone
  | ask p next ih =>
    have hdone : (Render.observe (answer p) >>= fun reply =>
      (next reply).perform answer).outcome w = some (.ok a, between) := hdone
    rw [outcome_observe_bind] at hdone
    obtain ⟨⟨reply, after⟩, hreply, hdone⟩ := Option.bind_eq_some_iff.1 hdone
    exact .later hreply (ih reply hdone)

/-- A request whose failure is the failure of the action is all that the action asks for. -/
theorem asks_request_iff {p : Request} :
    (Action.request p).Asks answer w q asked ↔ q = p ∧ asked = w := by
  constructor
  · intro h
    cases h with
    | now => exact ⟨rfl, rfl⟩
    | @later _ _ _ _ _ _ reply _ h => cases reply <;> cases h
  · rintro ⟨rfl, rfl⟩
    exact .now

/-- The request comes first, and the rest of the action once it is answered. -/
theorem asks_request_bind_iff {p : Request} {k : p.Reply → Action α} :
    ((Action.request p).bind k).Asks answer w q asked ↔
      (q = p ∧ asked = w) ∨ ∃ reply between, (answer p).outcome w = some (.ok reply, between) ∧
        (k reply).Asks answer between q asked := by
  constructor
  · intro h
    rcases h.of_bind with h | ⟨reply, between, hreply, h⟩
    · exact .inl (asks_request_iff.1 h)
    · rw [perform_request] at hreply
      exact .inr ⟨reply, between, hreply, h⟩
  · rintro (h | ⟨reply, between, hreply, h⟩)
    · exact (asks_request_iff.2 h).bind k
    · rw [← perform_request answer] at hreply
      exact Asks.bind_done hreply h

end

/-! ### Actions that recover from nothing -/

/-- An action that a failed request ends with that failure, whichever request it is. What it fails
with of its own is blamed on no place yet. -/
def Forwards {α : Type} : Action α → Prop
  | done _ => True
  | fail f => ¬f.IsPlaced
  | ask _ next => (∀ f, next (.error f) = fail f) ∧ ∀ reply, Forwards (next (.ok reply))

section

variable {α β : Type}

theorem Forwards.request (q : Request) : (Action.request q).Forwards :=
  ⟨fun _ => rfl, fun _ => trivial⟩

theorem Forwards.bind {action : Action α} {k : α → Action β} (h : action.Forwards)
    (hk : ∀ a, (k a).Forwards) : (action.bind k).Forwards := by
  induction action with
  | done a => exact hk a
  | fail failure => exact h
  | ask q next ih =>
    refine ⟨fun f => ?_, fun reply => ih _ (h.2 reply)⟩
    show (next (.error f)).bind k = fail f
    rw [h.1 f]
    rfl

theorem Forwards.ite {p : Prop} [Decidable p] {x y : Action α} (hx : x.Forwards)
    (hy : y.Forwards) : (if p then x else y).Forwards := by
  by_cases h : p
  · rw [if_pos h]
    exact hx
  · rw [if_neg h]
    exact hy

/-- A failed request is the end of an action that recovers from nothing, by induction on the
requests that come before it. -/
theorem Forwards.outcome_of_asks {action : Action α} {answer : (q : Request) → Render q.Reply}
    {w asked after : World} {q : Request} {f : Failure} (hforwards : action.Forwards)
    (h : action.Asks answer w q asked)
    (hfails : (answer q).outcome asked = some (.error f, after)) :
    (action.perform answer).outcome w = some (.error f, after) := by
  induction h with
  | now =>
    show (Render.observe (answer _) >>= _).outcome _ = _
    rw [outcome_observe_bind, hfails]
    show ((_ : Action α).perform answer).outcome after = _
    rw [hforwards.1 f]
    rfl
  | later hreply h ih =>
    rename_i reply
    show (Render.observe (answer _) >>= _).outcome _ = _
    rw [outcome_observe_bind, hreply]
    cases reply with
    | ok reply => exact ih (hforwards.2 reply) hfails
    | error g =>
      -- The action has ended with the failure before, so there is no later request.
      rw [hforwards.1 g] at h
      cases h

end

end Action

/-! ### The built-in helpers -/

namespace Builtin

theorem renderText_forwards (what : Markup) (scope : Scope) :
    Action.Forwards (do pure (Value.text (← Action.request (.render what scope)))) :=
  (Action.Forwards.request _).bind fun _ => trivial

theorem eachEntry_forwards (call : Call) (count index : Nat) (entries : List (Value × Value)) :
    (eachEntry call count index entries).Forwards := by
  induction entries generalizing index with
  | nil => trivial
  | cons entry rest ih =>
    refine (Action.Forwards.request _).bind fun text => ?_
    exact (ih (index + 1)).bind fun others => trivial

theorem eachOf_forwards (call : Call) (entries : List (Value × Value)) :
    (eachOf call entries).Forwards := by
  refine .ite (renderText_forwards .inverse call.scope) ?_
  exact (eachEntry_forwards call entries.length 0 entries).bind fun text => trivial

theorem displayAll_forwards (values : List Value) : (displayAll values).Forwards := by
  induction values with
  | nil => trivial
  | cons v rest ih => exact (Action.Forwards.request _).bind fun text => ih.bind fun others => trivial

/-- The built-in helpers recover from nothing. -/
theorem act_forwards (which : Builtin) (subject : Value) (call : Call) :
    (which.act subject call).Forwards := by
  cases which with
  | each =>
    unfold act
    dsimp only
    split
    · exact eachOf_forwards call _
    · refine .ite ?_ (renderText_forwards .inverse call.scope)
      exact (Action.Forwards.request _).bind fun items => eachOf_forwards call _
  | branch | enter =>
    exact .ite (renderText_forwards .inverse call.scope) (renderText_forwards .body _)
  | negate =>
    exact .ite (renderText_forwards .body call.scope) (renderText_forwards .inverse call.scope)
  | lookup =>
    have hfault (cause : Fault) : (Action.fault cause : Action Value).Forwards := fun h => h
    refine .ite (hfault _) (.ite trivial ?_)
    refine (Action.Forwards.request _).bind fun name => ?_
    split
    · trivial
    · exact hfault _
  | log =>
    refine (displayAll_forwards _).bind fun texts => ?_
    exact (Action.Forwards.request _).bind fun _ => trivial
  | missing => exact fun h => h

end Builtin

end Stencil
