import Stencil.Proofs.Helper.Clauses

/-!
# Sections around a node

A section calls its helper, the helper asks for a clause in some scope, and rendering the clause comes
to the nodes in it, which may be sections again. What happens to a node at any depth of sections is
shown for one section around it and carried on by induction on the sections.
-/

namespace Stencil

open Render

/-- A node rendered in a scope, from a world on, with fragments nested at most so deep in it. -/
structure Visit where
  depth : Nat
  scope : Scope
  node : Node
  world : World

namespace Visit

/-- How the node is rendered. -/
def outcome (e : Engine) (v : Visit) : Option (Except Failure Unit × World) :=
  (renderNode e (renderFragment e v.depth) v.scope v.node).outcome v.world

end Visit

/-- A fragment rendered in a scope reaches one of its nodes: its inline partials are defined and the
nodes before it are rendered. -/
inductive Fragment.Reaches (e : Engine) (fragment : Fragment) (scope : Scope) (w : World) :
    Visit → Prop where
  | intro {depth : Nat} {before after : List Node} {n : Node} {defined v : World} :
      fragment.nodes = before ++ n :: after →
      (defineInlines fragment.nodes).outcome w = some (.ok (), defined) →
      (renderNodes e (renderFragment e depth) scope before).outcome defined = some (.ok (), v) →
      Reaches e fragment scope w ⟨depth, scope, n, v⟩

/-- A section comes to call its helper: in a frame of its own, with its inline partials defined. -/
def CallsHelper (e : Engine) (render : Renderer) (scope : Scope) (head : BlockHead)
    (body : List Node) (w : World) (told : SectionCall) (called : World) : Prop :=
  ∃ pushed defined, w.side.frames.push = .ok pushed ∧
    (defineInlines body).outcome (w.withFrames pushed) = some (.ok (), defined) ∧
    (sectionCall e render scope head.placed body).outcome defined = some (.ok told, called)

theorem CallsHelper.unique {e : Engine} {render : Renderer} {scope : Scope} {head : BlockHead}
    {body : List Node} {w called called' : World} {told told' : SectionCall}
    (h : CallsHelper e render scope head body w told called)
    (h' : CallsHelper e render scope head body w told' called') :
    told = told' ∧ called = called' := by
  obtain ⟨pushed, defined, hpush, hdefine, hcall⟩ := h
  obtain ⟨pushed', defined', hpush', hdefine', hcall'⟩ := h'
  cases hpush.symm.trans hpush'
  cases hdefine.symm.trans hdefine'
  cases hcall.symm.trans hcall'
  exact ⟨rfl, rfl⟩

/-- A section around a node: how it is opened, what its helper is called with and where, and which
clause the node stands in. -/
structure Layer where
  head : BlockHead
  told : SectionCall
  called : World
  what : Markup
  clause : Fragment

/-- A section with a built-in helper, its own or that of its value, has a clause rendered and comes to
a node in it. -/
inductive Opens (e : Engine) : Visit → Layer → Visit → Prop where
  | intro {scope inner : Scope} {head : BlockHead} {body : List Node}
      {inverse : Option (List Node)} {w called asked : World} {told : SectionCall}
      {which : Builtin} {what : Markup} {clause : Fragment} {visit : Visit} :
      CallsHelper e (renderFragment e (visit.depth + 1)) scope head body w told called →
      told.helper.behaviour = .builtin which →
      (which.act told.subject told.call).Asks
        (answer e (renderFragment e (visit.depth + 1)) told.call
          ⟨told.body, ⟨head.elsePlace, inverse.getD []⟩, true⟩)
        called (.render what inner) asked →
      fragmentOf e ⟨told.body, ⟨head.elsePlace, inverse.getD []⟩, true⟩ what = .ok clause →
      clause.Reaches e inner { asked with output := "" } visit →
      Opens e ⟨visit.depth + 1, scope, .block head (some body) inverse, w⟩
        ⟨head, told, called, what, clause⟩ visit

/-- Built-in sections nested in one another, the outermost first: each has the next one in a clause
of it, and the last one a node. -/
inductive Nesting (e : Engine) : Visit → List Layer → Visit → Prop where
  | here (visit : Visit) : Nesting e visit [] visit
  | inside {outer between inner : Visit} {layer : Layer} {layers : List Layer} :
      Opens e outer layer between → Nesting e between layers inner →
      Nesting e outer (layer :: layers) inner

/-! ### What a section is called with -/

section

variable {e : Engine} {render : Renderer} {scope : Scope} {head : BlockHead} {body : List Node}
  {told : SectionCall} {w after : World}

theorem callOf_blockParams {name : String} {tag : TagKind} {args : List Param} {hash : HashParams}
    {blockParams : List String} {call : Call}
    (h : (callOf e render name tag scope args hash blockParams).outcome w =
      some (.ok call, after)) : call.blockParams = blockParams := by
  obtain ⟨params, w₁, -, h⟩ := outcome_bind_ok h
  obtain ⟨named, w₂, -, h⟩ := outcome_bind_ok h
  cases h
  rfl

theorem treatment_child {subject : Value} {treated : Treatment}
    (h : (treatment e scope head body subject).outcome w = some (.ok treated, after)) :
    treated.scope = scope ∨ ∃ model, treated.scope = scope.child model [] := by
  unfold treatment at h
  split at h
  · cases h
    exact .inl rfl
  · split at h
    · cases h
      exact .inl rfl
    · split at h
      · cases h
        exact .inl rfl
      · split at h
        · obtain ⟨markup, w₁, -, h⟩ := outcome_bind_ok h
          cases h
          exact .inl rfl
        · cases h
          exact .inr ⟨subject, rfl⟩

/-- The helper is told which names are declared, and called in the scope of the section or in a child
for its value. -/
theorem sectionCall_told
    (h : (sectionCall e render scope head body).outcome w = some (.ok told, after)) :
    told.call.blockParams = head.blockParams ∧
      (told.call.scope = scope ∨ ∃ model, told.call.scope = scope.child model []) := by
  unfold sectionCall at h
  split at h
  · obtain ⟨v, w₁, -, h⟩ := outcome_bind_ok h
    obtain ⟨subject, w₂, -, h⟩ := outcome_bind_ok h
    obtain ⟨call, w₃, hcall, h⟩ := outcome_bind_ok h
    cases h
    exact ⟨callOf_blockParams hcall, .inl (callOf_scope hcall)⟩
  · obtain ⟨v, w₁, -, h⟩ := outcome_bind_ok h
    obtain ⟨subject, w₂, -, h⟩ := outcome_bind_ok h
    obtain ⟨treated, w₃, htreated, h⟩ := outcome_bind_ok h
    obtain ⟨⟨helper, name⟩, w₄, -, h⟩ := outcome_bind_ok h
    obtain ⟨call, w₅, hcall, h⟩ := outcome_bind_ok h
    cases h
    refine ⟨callOf_blockParams hcall, ?_⟩
    rw [callOf_scope hcall]
    exact treatment_child htreated

end

/-! ### One section -/

/-- The first node of a fragment is reached once the inline partials are defined. -/
theorem Fragment.Reaches.first {e : Engine} {fragment : Fragment} {scope : Scope} {w v : World}
    {depth : Nat} {n : Node} {after : List Node} (hnodes : fragment.nodes = n :: after)
    (hdefine : (defineInlines fragment.nodes).outcome w = some (.ok (), v)) :
    fragment.Reaches e scope w ⟨depth, scope, n, v⟩ := by
  have hbefore : (renderNodes e (renderFragment e depth) scope []).outcome v = some (.ok (), v) :=
    rfl
  exact .intro hnodes hdefine hbefore

theorem Fragment.Reaches.scope_eq {e : Engine} {fragment : Fragment} {scope : Scope} {w : World}
    {visit : Visit} (h : fragment.Reaches e scope w visit) : visit.scope = scope := by
  cases h
  rfl

namespace Opens

variable {e : Engine} {outer inner : Visit} {layer : Layer}

/-- The helper knows the declared names, and is called where the section stands or in a child. -/
theorem call (h : Opens e outer layer inner) :
    layer.told.call.blockParams = layer.head.blockParams ∧
      (layer.told.call.scope = outer.scope ∨
        ∃ model, layer.told.call.scope = outer.scope.child model []) := by
  cases h with
  | intro hcalls =>
    obtain ⟨pushed, defined, hpush, hdefine, hcall⟩ := hcalls
    have htold := sectionCall_told hcall
    exact htold

/-- The clause is one that a built-in helper asks for, in the scope of the node. -/
theorem asks (h : Opens e outer layer inner) :
    ∃ which render clauses asked, layer.told.helper.behaviour = .builtin which ∧
      (which.act layer.told.subject layer.told.call).Asks
        (answer e render layer.told.call clauses) layer.called
        (.render layer.what inner.scope) asked := by
  cases h with
  | intro hcalls hwhich hasks hclause hreaches =>
    rw [← hreaches.scope_eq] at hasks
    exact ⟨_, _, _, _, hwhich, hasks⟩

end Opens

end Stencil
