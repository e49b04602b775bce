import Stencil.Proofs.Render.Aside
import Stencil.Proofs.Render.Composed

/-!
# The nodes that a render comes upon

A render finds nodes in the tree that it is given, in the inline partials and in what the cache gives.
If all these are of some material, and so is whatever may be compiled, then they stay so throughout:
the elementary steps put no others there, and the ways in which steps are put together do not either.
-/

namespace Stencil

namespace Material

open Render

variable {M : Material} {e : Engine} {α : Type} {V : α → Prop}

/-- An elementary step finds nodes of the material in the world and leaves no others there. -/
theorem Elementary.holding (L : M.Lawful e) {m : Render α} (h : M.Elementary e m V) :
    m.Keeps (World.Holding M.node) (fun _ => True) V := by
  have haside {β : Type} {m : Render β} {U : β → Prop} (hm : m.AsideOf M.node U) :
      m.Keeps (World.Holding M.node) (fun _ => True) U :=
    hm.mono (fun _ _ => trivial) fun _ hu => hu
  cases h with
  | pure h => exact Keeps.pure h
  | throw f => exact Keeps.throw trivial
  | get scope reference => exact haside (aside_get scope reference)
  | display v => exact haside (aside_display v)
  | items v => exact haside (aside_items v)
  | freshLabel => exact haside aside_freshLabel
  | emit text => exact haside (aside_emit text)
  | partials => exact Keeps.read fun _ hw => hw.partials
  | define _ hbody => exact haside (aside_define hbody)
  | compiled name => exact haside (aside_compiled L.parse name)
  | data | frames => exact Keeps.read fun _ _ => trivial
  | setData => exact haside (aside_setData _ _)
  | log level message =>
    refine Keeps.update fun w hw => ?_
    split
    · exact hw
    · exact ⟨hw.partials, hw.cache⟩
  | note entry => exact Keeps.update fun _ hw => ⟨hw.partials, hw.cache⟩

theorem whole (hdefinition : ∀ name body, M.definition name body) {nodes : List Node}
    (h : Node.Every M.node nodes) : M.Whole nodes := by
  refine ⟨h, fun n _ => ?_⟩
  cases n with
  | inlinePartial place name body marks => exact hdefinition name body
  | _ => trivial

theorem holding_inFrame {P : Node → Prop} {F : Failure → Prop} (hF : ∀ cause, F (.fault cause))
    {m : Render α} (h : m.Keeps (World.Holding P) F V) :
    (Render.inFrame m).Keeps (World.Holding P) F V := by
  intro w r after hw hr
  cases hpush : w.side.frames.push with
  | error cause =>
    rw [outcome_inFrame, hpush] at hr
    cases hr
    exact ⟨hw, .error (hF cause)⟩
  | ok pushed =>
    rw [outcome_inFrame_of_push hpush] at hr
    obtain ⟨⟨r', inner⟩, hinner, hr⟩ := Option.map_eq_some_iff.1 hr
    obtain ⟨hheld, hmeets⟩ := h _ r' inner (hw.withFrames (hw.partials.push hpush)) hinner
    unfold popped at hr
    cases hpop : inner.side.frames.pop with
    | error cause =>
      rw [hpop] at hr
      cases hr
      exact ⟨hheld, .error (hF cause)⟩
    | ok frames =>
      rw [hpop] at hr
      cases hr
      exact ⟨hheld.withFrames (hheld.partials.pop hpop), hmeets⟩

/-- So does everything that is composed of the material. -/
theorem Composed.holding (L : M.Lawful e) {render : Renderer} (hrender : render.Holding M.node)
    {m : Renderer → Render α} (h : M.Composed e m V) :
    (m render).Keeps (World.Holding M.node) (fun _ => True) V := by
  induction h with
  | elementary h => exact h.holding L
  | fragment scope h => exact hrender _ scope h
  | bind _ _ ihm ihk => exact ihm.bind ihk
  | observe _ ih => exact ih.observe.weaken
  | mapFailure g _ ih => exact ih.mapFailure fun _ _ => trivial
  | captured _ ih =>
    exact Keeps.captured ih.weaken (fun _ hw => hw.withOutput "")
      (fun _ before hw _ => hw.withOutput before.output) fun _ _ => trivial
  | inFrame _ ih => exact holding_inFrame (fun _ => trivial) ih

section

variable (L : M.Lawful e) (hdefinition : ∀ name body, M.definition name body)
  (hinclusions : M.inclusions)

include L hdefinition hinclusions

theorem renderNodes_holding {render : Renderer} (hrender : render.Holding M.node) (scope : Scope)
    {nodes : List Node} (hnodes : Node.Every M.node nodes) :
    (renderNodes e render scope nodes).Keeps (World.Holding M.node) (fun _ => True)
      fun _ => True :=
  (composed_renderNodes L hinclusions scope (whole hdefinition hnodes)).holding L hrender

/-- Whole fragments, by induction on how deep they nest. -/
theorem renderFragment_holding (depth : Nat) : (renderFragment e depth).Holding M.node := by
  induction depth with
  | zero => exact fun _ _ _ => Keeps.exhausted
  | succ depth ih =>
    intro fragment scope hnodes
    exact (composed_fragment L hinclusions fragment scope (whole hdefinition hnodes)).holding L ih

end

/-- Everything that renders can be composed of. -/
def any : Material := ⟨fun _ => True, fun _ _ => True, fun _ => True, True⟩

theorem any_lawful (e : Engine) : any.Lawful e where
  binds _ _ _ _ _ _ := .of_all (fun _ => trivial) _
  registry _ _ _ _ _ := .of_all (fun _ => trivial) _
  parse _ _ _ _ _ _ _ := trivial
  text _ _ := trivial

/-- What is composed of anything has results as it should, since nothing is asked of the nodes that
it comes upon. -/
theorem Composed.gives {m : Renderer → Render α} (h : any.Composed e m V) {render : Renderer}
    {w after : World} {a : α} (hr : (m render).outcome w = some (.ok a, after)) : V a := by
  have hworld (w : World) : w.Holding any.node :=
    ⟨fun _ _ _ _ _ _ _ => trivial, fun _ _ _ _ _ _ => trivial⟩
  have hrender : render.Holding any.node := fun _ _ _ _ _ _ _ _ =>
    ⟨hworld _, .of_cases (fun _ _ => trivial) fun _ _ => trivial⟩
  exact (h.holding (any_lawful e) hrender w _ after (hworld w) hr).2.of_ok rfl

end Material

end Stencil
