import Stencil.Proofs.Cache.Answers
import Stencil.Proofs.Render.Stillness

/-!
# What a still render depends on

In a still world a render sees the data, the partials of the innermost frame and what compiling
answers, and nothing else of its world makes a difference: not what has been written, drawn, counted
or reported before, and not the frames below. A step whose effect depends on what it sees only is
determined. There is one rule for each way in which steps are put together.
-/

namespace Stencil

/-- Inline partials by name. -/
abbrev Partials := String → Option InlinePartial

/-- The partials of the innermost frame. -/
def Frames.shown (f : Frames) : Except Fault Partials :=
  f.visible.map fun top name => top.lookup name

/-- What a render sees of its world. -/
structure View where
  data : Bindings
  partials : Except Fault Partials
  /-- What compiling answers, by location. -/
  templates : String → Except Failure Template

theorem View.withPartials_self {view : View} {partials : Except Fault Partials}
    (h : view.partials = partials) : view = { view with partials } := by
  subst h
  rfl

/-- What a step does as far as it can be seen: how it ends, the partials that it leaves, and what it
has written. -/
structure Effect (α : Type) where
  result : Except Failure α
  partials : Except Fault Partials
  written : String

namespace World

/-- What a render of an engine sees of a world. -/
def view (e : Engine) (w : World) : View :=
  ⟨w.side.data, w.side.frames.shown, e.templateAt w.cache⟩

/-- Worlds of still data in which every name is bound to the built-in of that name. -/
structure Still (w : World) : Prop where
  data : w.side.data.All Value.Still
  partials : w.side.frames.Every (Node.TagBinds Bound.IsBuiltIn)
  cache : w.cache.Gives (Template.Binds Bound.IsBuiltIn) fun _ => True

theorem Still.withOutput {w : World} (h : w.Still) (s : String) : Still { w with output := s } :=
  ⟨h.data, h.partials, h.cache⟩

theorem Still.holds {w : World} (h : w.Still) : Regime.still.Holds w.side.frames w :=
  ⟨h.data, trivial, h.cache, h.partials, Frames.SameBelow.refl _⟩

theorem Still.of_holds {w : World} {f : Frames} (h : Regime.still.Holds f w) : w.Still :=
  ⟨h.data, h.partials, h.cache⟩

end World

namespace Frames

/-- A frame that is pushed shows what the frame below it shows, unless there is none to copy. -/
theorem push_eq (f : Frames) :
    (∃ partials pushed, f.shown = .ok partials ∧ f.push = .ok pushed ∧ pushed.shown = .ok partials) ∨
    ∃ cause, f.shown = .error cause ∧ f.push = .error cause := by
  rcases f with (_ | ⟨top, below⟩) | v
  · exact .inr ⟨noFrame, rfl, rfl⟩
  · exact .inl ⟨_, _, rfl, rfl, rfl⟩
  · exact .inr ⟨noFrames, rfl, rfl⟩

/-- What is seen after a definition, or why nothing can be defined. -/
theorem define_eq (f : Frames) (name : String) (found : InlinePartial) :
    (∃ partials g, f.shown = .ok partials ∧ f.define name found = .ok g ∧
      g.shown = .ok fun other => if other = name then some found else partials other) ∨
    ∃ cause, f.shown = .error cause ∧ f.define name found = .error cause := by
  rcases f with (_ | ⟨top, below⟩) | v
  · exact .inr ⟨noFrame, rfl, rfl⟩
  · refine .inl ⟨_, _, rfl, rfl, congrArg Except.ok ?_⟩
    funext other
    show (Frame.define name found top).lookup other = _
    rw [Frame.define_eq, Table.lookup_put]
  · exact .inr ⟨noFrames, rfl, rfl⟩

end Frames

namespace Render

variable {α β : Type} {e : Engine}

/-- What a step comes to in a world: nothing if it has no outcome there, and else its effect. Of what
is seen only the partials change. -/
inductive ComesTo (e : Engine) (m : Render α) (w : World) : Option (Effect α) → Prop where
  | nothing : m.outcome w = none → ComesTo e m w none
  | effect {x : Effect α} {after : World} : m.outcome w = some (x.result, after) →
      after.view e = { w.view e with partials := x.partials } →
      after.output = w.output ++ x.written → ComesTo e m w (some x)

/-- A step that keeps to the still regime, and comes to the same in all still worlds of which it sees
the same. -/
structure Determined (e : Engine) (m : Render α) (V : α → Prop) : Prop where
  keeps : ∀ f, m.Keeps (Regime.still.Holds f) Regime.still.failure V
  settled : ∀ view : View, ∃ x?, ∀ w : World, w.Still → w.view e = view → m.ComesTo e w x?

namespace Determined

variable {m : Render α} {V : α → Prop} {U : β → Prop}

/-- A step is determined whose effect can be told from what it sees. -/
theorem of_effect (hkeeps : ∀ f, m.Keeps (Regime.still.Holds f) Regime.still.failure V)
    (effect : View → Effect α)
    (h : ∀ w, ∃ after, m.outcome w = some ((effect (w.view e)).result, after) ∧
      after.view e = { w.view e with partials := (effect (w.view e)).partials } ∧
      after.output = w.output ++ (effect (w.view e)).written) : Determined e m V := by
  refine ⟨hkeeps, fun view => ⟨some (effect view), fun w _ hview => ?_⟩⟩
  obtain ⟨after, hrun, hafter, houtput⟩ := h w
  subst hview
  exact .effect hrun hafter houtput

/-- A step is determined that changes nothing to be seen and whose result can be told from what it
sees. -/
theorem of_result (hkeeps : ∀ f, m.Keeps (Regime.still.Holds f) Regime.still.failure V)
    (result : View → Except Failure α)
    (h : ∀ w, ∃ after, m.outcome w = some (result (w.view e), after) ∧ after.view e = w.view e ∧
      after.output = w.output) : Determined e m V := by
  refine of_effect hkeeps (fun view => ⟨result view, view.partials, ""⟩) fun w => ?_
  obtain ⟨after, hrun, hafter, houtput⟩ := h w
  exact ⟨after, hrun, hafter, by rw [houtput, String.append_empty]⟩

theorem pure {a : α} (h : V a) : Determined e (Pure.pure a) V :=
  of_result (fun _ => Keeps.pure h) (fun _ => .ok a) fun w => ⟨w, rfl, rfl, rfl⟩

theorem throw (f : Failure) : Determined e (MonadExcept.throw f) V :=
  of_result (fun _ => Keeps.throw trivial) (fun _ => .error f) fun w => ⟨w, rfl, rfl, rfl⟩

theorem exhausted : Determined e Render.exhausted V :=
  ⟨fun _ => Keeps.exhausted, fun _ => ⟨none, fun _ _ _ => .nothing rfl⟩⟩

theorem ofExcept {x : Except Failure α} (h : Meets Regime.still.failure V x) :
    Determined e (Render.ofExcept x) V := by
  cases h with
  | ok h => exact Determined.pure h
  | error h => exact Determined.throw _

theorem ite {p : Prop} [Decidable p] {m' : Render α} (hm : p → Determined e m V)
    (hm' : ¬p → Determined e m' V) : Determined e (if p then m else m') V := by
  by_cases h : p
  · rw [if_pos h]
    exact hm h
  · rw [if_neg h]
    exact hm' h

/-- A world in which a determined step has been taken is still. -/
theorem still (h : Determined e m V) {w after : World} {r : Except Failure α} (hw : w.Still)
    (hr : m.outcome w = some (r, after)) : after.Still ∧ Meets Regime.still.failure V r := by
  obtain ⟨hafter, hmeets⟩ := h.keeps w.side.frames w r after hw.holds hr
  exact ⟨.of_holds hafter, hmeets⟩

/-- Of what is seen a determined step changes the partials only. -/
theorem view_after (h : Determined e m V) {w after : World} {r : Except Failure α} (hw : w.Still)
    (hr : m.outcome w = some (r, after)) :
    after.view e = { w.view e with partials := after.side.frames.shown } := by
  obtain ⟨x?, hx⟩ := h.settled (w.view e)
  cases hx w hw rfl with
  | nothing hrun =>
    rw [hrun] at hr
    cases hr
  | @effect x _ hrun hafter _ =>
    rw [hrun] at hr
    cases hr
    have hleft : after.side.frames.shown = x.partials := congrArg View.partials hafter
    rw [hafter, hleft]

/-- How a determined step ends in one world, and what it writes there, it does in every other of
which it sees the same. -/
theorem transfer (h : Determined e m V) {w u after : World} {r : Except Failure α} (hw : w.Still)
    (hu : u.Still) (hsame : u.view e = w.view e) (hr : m.outcome w = some (r, after)) :
    ∃ after' written, m.outcome u = some (r, after') ∧ after'.view e = after.view e ∧
      after.output = w.output ++ written ∧ after'.output = u.output ++ written := by
  obtain ⟨x?, hx⟩ := h.settled (w.view e)
  cases hx w hw rfl with
  | nothing hrun =>
    rw [hrun] at hr
    cases hr
  | @effect x _ hrun hafter houtput =>
    rw [hrun] at hr
    cases hr
    cases hx u hu hsame with
    | effect hrun' hafter' houtput' =>
      refine ⟨_, x.written, hrun', ?_, houtput, houtput'⟩
      rw [hafter', hafter, hsame]

theorem comesTo_bind_error {k : α → Render β} {w : World} {f : Failure}
    {partials : Except Fault Partials} {written : String}
    (h : m.ComesTo e w (some ⟨.error f, partials, written⟩)) :
    (m >>= k).ComesTo e w (some ⟨.error f, partials, written⟩) := by
  cases h with
  | effect hrun hview houtput =>
    refine .effect ?_ hview houtput
    rw [outcome_bind, hrun]
    rfl

/-- One step after another: the second sees what the first has left to be seen. -/
theorem bind {k : α → Render β} (hm : Determined e m V) (hk : ∀ a, V a → Determined e (k a) U) :
    Determined e (m >>= k) U := by
  refine ⟨fun f => (hm.keeps f).bind fun a ha => (hk a ha).keeps f, fun view => ?_⟩
  obtain ⟨x?, hx⟩ := hm.settled view
  by_cases hsome : ∃ w : World, w.Still ∧ w.view e = view
  · obtain ⟨w₀, hstill₀, hview₀⟩ := hsome
    -- What the first step comes to is the same in all these worlds, so one of them tells.
    cases hx w₀ hstill₀ hview₀ with
    | nothing _ =>
      refine ⟨none, fun w hstill hview => ?_⟩
      cases hx w hstill hview with
      | nothing hrun => exact .nothing (by rw [outcome_bind, hrun]; rfl)
    | @effect x after₀ hrun₀ _ _ =>
      obtain ⟨result, partials, written⟩ := x
      cases result with
      | error f =>
        exact ⟨_, fun w hstill hview => comesTo_bind_error (hx w hstill hview)⟩
      | ok a =>
        have ha : V a := (Meets.ok_iff a).1 (hm.still hstill₀ hrun₀).2
        obtain ⟨y?, hy⟩ := (hk a ha).settled { view with partials }
        refine ⟨y?.map fun y => { y with written := written ++ y.written }, fun w hstill hview => ?_⟩
        cases hx w hstill hview with
        | @effect _ after hrun hafter houtput =>
          have hbind : (m >>= k).outcome w = (k a).outcome after := by
            rw [outcome_bind, hrun]
            rfl
          subst hview
          cases hy after (hm.still hstill hrun).1 hafter with
          | nothing hrun' => exact .nothing (hbind.trans hrun')
          | effect hrun' hafter' houtput' =>
            refine .effect (hbind.trans hrun') ?_ ?_
            · rw [hafter', hafter]
            · rw [houtput', houtput, String.append_assoc]
  · exact ⟨none, fun w hstill hview => absurd ⟨w, hstill, hview⟩ hsome⟩

/-- A step that only tells in another way how a determined step has ended. -/
theorem of_retold {m' : Render β} (hm : Determined e m V)
    (hkeeps : ∀ f, m'.Keeps (Regime.still.Holds f) Regime.still.failure U)
    (retell : Except Failure α → Except Failure β)
    (h : ∀ w, m'.outcome w = (m.outcome w).map fun (r, after) => (retell r, after)) :
    Determined e m' U := by
  refine ⟨hkeeps, fun view => ?_⟩
  obtain ⟨x?, hx⟩ := hm.settled view
  refine ⟨x?.map fun x => ⟨retell x.result, x.partials, x.written⟩, fun w hstill hview => ?_⟩
  cases hx w hstill hview with
  | nothing hrun => exact .nothing (by rw [h, hrun]; rfl)
  | effect hrun hafter houtput => exact .effect (by rw [h, hrun]; rfl) hafter houtput

theorem observe (hm : Determined e m V) :
    Determined e (Render.observe m) (Meets Regime.still.failure V) :=
  hm.of_retold (fun f => (hm.keeps f).observe) .ok fun _ => rfl

theorem mapFailure (g : Failure → Failure) (hm : Determined e m V) :
    Determined e (Render.mapFailure g m) V :=
  hm.of_retold (fun f => (hm.keeps f).mapFailure fun _ _ => trivial) (·.mapError g) fun _ => rfl

theorem located (place : Option Location) (hm : Determined e m V) :
    Determined e (Render.located place m) V := hm.mapFailure _

theorem emit (s : String) : Determined e (Render.emit s) fun _ => True := by
  refine of_effect (fun f => ?_) (fun view => ⟨.ok (), view.partials, s⟩) fun w => ⟨_, rfl, rfl, rfl⟩
  exact Keeps.update fun _ hw => hw.withOutput trivial

/-- What is written is captured: it is the result, and nothing is added to the output. -/
theorem captured {m : Render Unit} (hm : Determined e m fun _ => True) :
    Determined e (Render.captured m) fun _ => True := by
  refine ⟨fun f => (hm.keeps f).captured (fun _ hw => hw.withOutput trivial)
    (fun _ _ hw _ => hw.withOutput trivial) (fun _ _ => trivial), fun view => ?_⟩
  obtain ⟨x?, hx⟩ := hm.settled view
  refine ⟨x?.map fun x => ⟨x.result.map fun _ => x.written, x.partials, ""⟩, fun w hstill hview => ?_⟩
  cases hx { w with output := "" } (hstill.withOutput "") hview with
  | nothing hrun =>
    exact .nothing (by rw [Render.captured, outcome_ofOutcome, hrun]; rfl)
  | @effect x after hrun hafter houtput =>
    have hwritten : after.output = x.written := houtput.trans String.empty_append
    have hcaptured : (Render.captured m).outcome w =
        some (x.result.map fun _ => x.written, { after with output := w.output }) := by
      rw [Render.captured, outcome_ofOutcome, hrun, ← hwritten]
      rfl
    exact .effect hcaptured hafter String.append_empty.symm

end Determined

end Render

end Stencil
