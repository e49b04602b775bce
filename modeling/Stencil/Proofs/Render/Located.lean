import Stencil.Proofs.Render.Sections

/-!
# The place of a tag

A tag is blamed for the render errors that come out of it and are blamed on no place yet. This is the
last thing that happens to them: a node is rendered as if its tag had no place, and then the tag is
blamed.
-/

namespace Stencil

open Render

/-- Nothing is blamed on a tag without a place. -/
@[simp] theorem Failure.locate_none (f : Failure) : f.locate none = f := by
  cases f with
  | render cause place => cases place <;> rfl
  | _ => rfl

theorem Failure.locate_eq_render {f : Failure} {place found : Option Location} {cause : RenderError}
    (h : f.locate place = .render cause found) :
    (f = .render cause none ∧ found = place) ∨ ∃ known, f = .render cause (some known) ∧
      found = some known := by
  cases f with
  | render own inner =>
    cases inner with
    | none =>
      cases h
      exact .inl ⟨rfl, rfl⟩
    | some known =>
      cases h
      exact .inr ⟨known, rfl, rfl⟩
  | _ => cases h

section

variable {α β : Type} {place : Option Location}

theorem outcome_located (m : Render α) (w : World) :
    (Render.located place m).outcome w =
      (m.outcome w).map fun (r, after) => (r.mapError (Failure.locate place), after) := rfl

theorem located_none (m : Render α) : Render.located none m = m := by
  apply Render.ext
  intro w
  rw [outcome_located]
  cases m.outcome w with
  | none => rfl
  | some found =>
    obtain ⟨r, after⟩ := found
    cases r with
    | ok a => rfl
    | error f =>
      show some (Except.error (f.locate none), after) = _
      rw [Failure.locate_none]

/-- The frame of a step is pushed and popped whatever is blamed for its failure. -/
theorem located_inFrame (m : Render α) :
    Render.located place (Render.inFrame m) = Render.inFrame (Render.located place m) := by
  apply Render.ext
  intro w
  rw [outcome_located, outcome_inFrame, outcome_inFrame]
  cases w.side.frames.push with
  | error cause => rfl
  | ok pushed =>
    dsimp only
    rw [outcome_located, Option.bind_map]
    cases m.outcome (w.withFrames pushed) with
    | none => rfl
    | some found =>
      obtain ⟨r, after⟩ := found
      simp only [Option.bind_some, Function.comp]
      cases after.side.frames.pop <;> rfl

/-- Defining inline partials fails with faults only, for which no tag is blamed. -/
theorem defineInlines_faults (nodes : List Node) :
    (defineInlines nodes).Keeps (fun _ => True) (fun f => ∃ cause, f = .fault cause)
      fun _ => True := by
  induction nodes with
  | nil => exact Keeps.pure trivial
  | cons n rest ih =>
    cases n with
    | inlinePartial place name body delimiters =>
      refine Keeps.bind (Keeps.changeFrames fun w _ => ?_) fun _ _ => ih
      exact .of_cases (fun _ _ => trivial) fun cause _ => ⟨cause, rfl⟩
    | _ => exact ih

theorem located_defineInlines (nodes : List Node) (m : Render β) :
    Render.located place (defineInlines nodes >>= fun _ => m) =
      defineInlines nodes >>= fun _ => Render.located place m := by
  apply Render.ext
  intro w
  rw [outcome_located]
  cases hr : (defineInlines nodes).outcome w with
  | none =>
    rw [outcome_bind, outcome_bind, hr]
    rfl
  | some found =>
    obtain ⟨r, after⟩ := found
    cases r with
    | ok _ =>
      rw [outcome_bind_of_ok hr, outcome_bind_of_ok hr]
      rfl
    | error f =>
      obtain ⟨-, hmeets⟩ := defineInlines_faults nodes w _ after trivial hr
      obtain ⟨cause, rfl⟩ := hmeets.of_error rfl
      rw [outcome_bind_of_error hr, outcome_bind_of_error hr]
      rfl

/-- What a node does, before its tag is blamed for what it fails with. -/
def renderBare (e : Engine) (render : Renderer) (scope : Scope) : Node → Render Unit
  | .text _ content => Render.emit content
  | .output place style call marks => renderOutput e render scope style (call.placed place) marks
  | .block head (some body) inverse =>
    renderBlock e render scope { head.placed with place := none } body
      ⟨head.elsePlace, inverse.getD []⟩
  | .inclusion place name args hash _ =>
    renderInclusion e render scope name (Param.placedArgs place [] args)
      (Param.placedHash place [] hash)
  | .block _ none _ | .comment .. | .inlinePartial .. => pure ()

/-- A node does what it does, and then its tag is blamed. -/
theorem renderNode_eq_located (e : Engine) (render : Renderer) (scope : Scope) (n : Node) :
    renderNode e render scope n = Render.located n.place (renderBare e render scope n) := by
  cases n with
  | text | comment | inlinePartial | output | inclusion => rfl
  | block head body inverse =>
    cases body with
    | none => rfl
    | some body =>
      show renderBlock e render scope head.placed body _ = Render.located head.place
        (renderBlock e render scope { head.placed with place := none } body _)
      rw [renderBlock_eq, renderBlock_eq, located_inFrame, insideBlock_eq, insideBlock_eq,
        located_defineInlines]
      congr 2
      funext _
      exact congrArg (Render.located head.place) (located_none _).symm

end

end Stencil
