import Stencil.Proofs.Node.Binding
import Stencil.Proofs.Node.Places
import Stencil.Proofs.Render.Subrenders

/-!
# What a render does aside from rendering

Most steps of a node read, write and look things up, and render no fragment. With helpers that raise
fresh errors they leave the nodes of a world accountable, and whatever they fail with is new: no tag
has been blamed for it.
-/

namespace Stencil

open Render

/-- Nodes whose helpers are fresh, with places. -/
structure Node.Accountable (n : Node) : Prop where
  fresh : n.TagBinds fun b => b.2.Fresh
  placed : n.IsPlaced

theorem Failure.IsOfSource.not_isPlaced {f : Failure} (h : f.IsOfSource) : ¬f.IsPlaced := by
  cases f with
  | render => exact h.elim
  | _ => exact fun hplaced => hplaced

theorem Failure.IsOfReading.not_isPlaced {f : Failure} (h : f.IsOfReading) : ¬f.IsPlaced := by
  cases f with
  | render cause place =>
    cases place with
    | none => exact fun hplaced => hplaced
    | some place => cases cause <;> exact h.elim
  | _ => exact fun hplaced => hplaced

/-- Templates of accountable nodes. -/
def Template.Accountable (t : Template) : Prop := Node.Every Node.Accountable t.root

/-- Whatever is compiled with fresh helpers is accountable; what does not compile is blamed on no
tag of the render. -/
theorem Template.ofSource_accountable {helperOf : String → Option Helper}
    (h : BindsOnly helperOf fun b => b.2.Fresh) (marks : Delimiters) (name source : String) :
    Meets (fun f => ¬f.IsPlaced) Template.Accountable
      (Template.ofSource helperOf marks name source) := by
  have hmeets := Template.ofSource_meets h marks name source
  refine .of_cases (fun t ht n hn => ?_) fun f hf => (hmeets.of_error hf).not_isPlaced
  exact ⟨hmeets.of_ok ht n hn, Template.ofSource_isPlaced ht n hn⟩

/-! ### Steps that render nothing -/

/-- A step that renders nothing: worlds stay as they should be, and it fails with new failures. -/
abbrev Render.Aside {α : Type} (m : Render α) (V : α → Prop) : Prop :=
  m.Keeps (World.Holding Node.Accountable) (fun f => ¬f.IsPlaced) V

/-- The same of other nodes than accountable ones. -/
abbrev Render.AsideOf {α : Type} (P : Node → Prop) (m : Render α) (V : α → Prop) : Prop :=
  m.Keeps (World.Holding P) (fun f => ¬f.IsPlaced) V

section

variable {P : Node → Prop}

theorem aside_ofFault {α : Type} (x : Except Fault α) :
    (Render.ofFault x).AsideOf P fun a => x = .ok a :=
  Keeps.ofFault (.of_cases (fun _ h => h) fun _ _ hplaced => hplaced)

theorem aside_get (scope : Scope) (reference : String) :
    (Render.get scope reference).AsideOf P fun _ => True := by
  unfold Render.get
  refine Keeps.bind (V := fun _ => True) (Keeps.read fun _ _ => trivial) fun data _ => ?_
  have hmeets : Meets Failure.IsOfReading (fun _ => True) (scope.get data reference) :=
    Scope.get_meets (fun _ _ _ _ _ _ => trivial) trivial
      (fun _ _ => ⟨trivial, fun _ _ => trivial⟩) (fun _ _ => trivial) reference
  exact Keeps.ofExcept (hmeets.mono (fun _ hf => hf.not_isPlaced) fun _ hv => hv)

theorem aside_display (v : Value) : (Render.display v).AsideOf P fun _ => True := by
  unfold Render.display
  refine Keeps.bind (V := fun _ => True) (Keeps.read fun _ _ => trivial) fun drawn _ => ?_
  refine Keeps.bind (aside_ofFault _) fun found _ => ?_
  refine Keeps.bind (V := fun _ => True) ?_ fun _ _ => Keeps.pure trivial
  exact Keeps.update fun _ hw => ⟨hw.partials, hw.cache⟩

theorem aside_items (v : Value) : (Render.items v).AsideOf P fun _ => True := by
  cases v with
  | iterator label found =>
    refine Keeps.bind (V := fun _ => True) (Keeps.read fun _ _ => trivial) fun drawn _ => ?_
    refine Keeps.ite (fun _ => Keeps.pure trivial) fun _ => ?_
    refine Keeps.bind (V := fun _ => True) ?_ fun _ _ => Keeps.pure trivial
    exact Keeps.update fun _ hw => ⟨hw.partials, hw.cache⟩
  | _ => exact Keeps.pure trivial

theorem aside_emit (s : String) : (Render.emit s).AsideOf P fun _ => True :=
  Keeps.update fun _ hw => hw.withOutput _

theorem aside_freshLabel : Render.freshLabel.AsideOf P fun _ => True :=
  Keeps.freshLabel fun _ hw => ⟨hw.partials, hw.cache⟩

/-- Data variables may be set, even those that stand for the frames: what a helper puts there holds
no nodes. -/
theorem aside_setData (name : String) (v : Value) :
    (Render.update fun w => { w with side := w.side.set name v }).AsideOf P fun _ => True := by
  refine Keeps.update fun w hw => ⟨?_, hw.cache⟩
  show (w.side.set name v).frames.Every P
  unfold SideChannel.set
  split
  · exact Frames.Every.ofValue v
  · exact hw.partials

theorem aside_define {name : String} {body : List Node} (hbody : Node.Every P body) :
    (Render.changeFrames (Frames.define name (.nodes body))).AsideOf P fun _ => True := by
  refine Keeps.changeFrames fun w hw => .of_cases (fun g hg => ?_) fun _ _ hplaced => hplaced
  exact hw.withFrames (hw.partials.define hbody hg)

theorem aside_defineInlines {nodes : List Node} (hnodes : Node.Every P nodes) :
    (defineInlines nodes).AsideOf P fun _ => True := by
  induction nodes with
  | nil => exact Keeps.pure trivial
  | cons n rest ih =>
    obtain ⟨-, hchildren, hrest⟩ := Node.Every.cons_iff.1 hnodes
    cases n with
    | inlinePartial place name body delimiters =>
      exact Keeps.bind (aside_define hchildren) fun _ _ => ih hrest
    | _ => exact ih hrest

/-- The template at a location, through the cache. What does not compile is blamed on no tag. -/
theorem aside_compiled {e : Engine} (hparse : ∀ marks name text t,
      e.parse marks name text = .ok t → Node.Every P t.root) (name : String) :
    (partialOf.compiled e name).AsideOf P fun fragment => Node.Every P fragment.nodes := by
  have hfails {marks : Delimiters} {name text : String} {f : Failure}
      (hf : e.parse marks name text = .error f) : ¬f.IsPlaced :=
    ((Template.ofSource_meets (P := fun _ => True) (fun _ _ _ => trivial) marks name
      text).of_error hf).not_isPlaced
  intro w r after hw hr
  cases hr
  obtain ⟨hcache, hmeets⟩ := Engine.compile_gives (F := fun f => ¬f.IsPlaced) hw.cache
    (fun _ _ hplaced => hplaced)
    (fun name text => .of_cases (hparse e.delimiters name text) fun _ => hfails)
    w.nextTree name
  exact ⟨⟨hw.partials, hcache⟩,
    Meets.map (U := fun fragment : Fragment => Node.Every P fragment.nodes) hmeets⟩

end

section

variable (e : Engine)

theorem aside_transform (v : Value) : (transform e v).Aside fun _ => True :=
  aside_freshLabel.bind fun _ _ => Keeps.pure trivial

theorem aside_outputText (style : OutputStyle) (v : Value) :
    (outputText e style v).Aside fun _ => True := by
  rw [Regime.outputText_eq]
  exact (aside_display v).bind fun _ _ => Keeps.pure trivial

theorem aside_writeAnswer (v : Value) : (writeAnswer v).Aside fun _ => True := by
  refine Keeps.ite (fun _ => Keeps.pure trivial) fun _ => ?_
  exact (aside_display v).bind fun text _ => aside_emit text

variable {e} (he : e.registry.Fresh)

include he

/-! ### What is found in an engine of fresh helpers -/

theorem aside_helperFor {name : String} {bound : Option Helper}
    (hbound : ∀ helper, bound = some helper → helper.Fresh) :
    (e.helperFor name bound).Aside Helper.Fresh := by
  unfold Engine.helperFor
  split
  · exact Keeps.pure (hbound _ rfl)
  · split
    · rename_i helper hhelper
      exact Keeps.pure (he _ helper hhelper)
    · exact Keeps.throw fun hplaced => hplaced

theorem aside_implicitHelper (head : BlockHead) (which : Builtin) (v : Value) :
    (implicitHelper e head which v).Aside fun found => found.1.Fresh := by
  unfold implicitHelper
  split
  · rename_i helper _ hhelper
    exact Keeps.pure (he _ helper hhelper)
  · split
    · rename_i helper hhelper
      exact Keeps.pure (he _ helper hhelper)
    · exact Keeps.throw fun hplaced => hplaced

theorem aside_parse (marks : Delimiters) (name text : String) :
    (Render.ofExcept (e.parse marks name text)).Aside Template.Accountable :=
  Keeps.ofExcept (Template.ofSource_accountable he marks name text)

theorem aside_lambdaMarkup (scope : Scope) (section_ : Option String) (marks : Delimiters)
    (v : Value) : (lambdaMarkup e scope section_ marks v).Aside fun fragment =>
      Node.Every Node.Accountable fragment.nodes := by
  have hanswer : (lambdaAnswer scope section_ v).Aside fun _ => True := by
    unfold lambdaAnswer
    split
    · rename_i call
      refine Keeps.ofExcept ?_
      cases call with
      | returns | surround => exact .ok trivial
      | raises => exact .error fun hplaced => hplaced
    · exact aside_get scope _
    · exact Keeps.pure trivial
  have htext (text : String) : Node.Accountable (.text none text) :=
    ⟨fun b hb => absurd hb List.not_mem_nil, trivial⟩
  refine hanswer.bind fun found _ => ?_
  split
  · exact (aside_parse he _ _ _).bind fun t ht => Keeps.pure ht
  · refine (aside_display _).bind fun text _ => Keeps.pure ?_
    exact Node.Every.cons_iff.2 ⟨htext text, Node.Every.nil, Node.Every.nil⟩

theorem aside_treatment (scope : Scope) (head : BlockHead) {body : List Node}
    (hbody : Node.Every Node.Accountable body) (v : Value) :
    (treatment e scope head body v).Aside fun treated =>
      Node.Every Node.Accountable treated.body.nodes := by
  unfold treatment
  refine Keeps.ite (fun _ => Keeps.pure hbody) fun _ =>
    Keeps.ite (fun _ => Keeps.pure hbody) fun _ => ?_
  split
  · exact Keeps.pure hbody
  · refine Keeps.ite (fun _ => ?_) fun _ => Keeps.pure hbody
    exact (aside_lambdaMarkup he scope _ _ v).bind fun markup hmarkup => Keeps.pure hmarkup

theorem aside_fragmentOf {clauses : Clauses}
    (hbody : Node.Every Node.Accountable clauses.body.nodes)
    (hinverse : Node.Every Node.Accountable clauses.inverse.nodes) (what : Markup) :
    (Render.ofExcept (fragmentOf e clauses what)).Aside fun fragment =>
      Node.Every Node.Accountable fragment.nodes := by
  refine Keeps.ofExcept ?_
  cases what with
  | body => exact .ok hbody
  | inverse => exact .ok hinverse
  | source name text =>
    exact (Template.ofSource_accountable he e.delimiters name text).bind fun t ht => .ok ht

/-- The partial of a name: an inline one that has been defined, or what the loader has. -/
theorem aside_partialOf (name : String) :
    (partialOf e name).Aside fun fragment => Node.Every Node.Accountable fragment.nodes := by
  have hcompiled := aside_compiled
    (fun marks name text t => (Template.ofSource_accountable he marks name text).of_ok) name
  unfold partialOf
  refine Keeps.bind (V := Frames.Every Node.Accountable) (Keeps.read fun w hw => hw.partials) ?_
  intro frames hframes
  refine (aside_ofFault _).bind fun visible hvisible => ?_
  split
  · rename_i body hbody
    exact Keeps.pure (hframes.lookup hvisible hbody)
  · exact Keeps.ite (fun _ => hcompiled) fun _ => Keeps.throw fun hplaced => hplaced
  · exact hcompiled

end

end Stencil
