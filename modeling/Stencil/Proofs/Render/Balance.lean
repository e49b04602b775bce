import Stencil.Proofs.Cache.Giving
import Stencil.Proofs.Helper.BuiltIn
import Stencil.Proofs.Loader.Sources
import Stencil.Proofs.Node.Binding
import Stencil.Proofs.Render.Fragment

/-!
# Frames in balance

However a render ends, the frames of inline partials below the innermost one are as they were, and
a section leaves all of them as they were. All that is asked of the helpers is that none overwrites
the frames through the data; they may render what they like in any scope, fail, or recover from
failures. Popping a frame then never finds too few of them.
-/

namespace Stencil

/-- Requests that leave the frames to the render. -/
def Request.SparesFrames : Request → Prop
  | .setData name _ => name ≠ SideChannel.framesName
  | _ => True

/-- An action that never overwrites the frames, whatever it is answered; its failures satisfy `F` as
long as those that it is answered do. -/
def Action.Orderly {α : Type} (F : Failure → Prop) : Action α → Prop
  | .done _ => True
  | .fail f => F f
  | .ask q next => q.SparesFrames ∧ ∀ reply, Meets F (fun _ => True) reply → Orderly F (next reply)

/-- A helper whose actions are orderly. -/
def Helper.Orderly (F : Failure → Prop) (helper : Helper) : Prop :=
  ∀ subject call, (helper.act subject call).Orderly F

/-- All helpers that a render of some nodes can come to call satisfy `Q`: those that names are bound
to in the nodes, in the inline partials and in the templates at hand, and those that names will be
bound to when more is compiled. -/
structure HelpersAtHand (Q : Helper → Prop) (e : Engine) (nodes : List Node) (w : World) :
    Prop where
  registry : ∀ name helper, e.registry.lookup name = some helper → Q helper
  nodes : Node.Every (Node.TagBinds fun b => Q b.2) nodes
  partials : w.side.frames.Every (Node.TagBinds fun b => Q b.2)
  cache : w.cache.Gives (Template.Binds fun b => Q b.2) fun _ => True

/-- Failures that a host may tell apart from others: those that arise in a render are among them,
and being blamed on a place or a helper does not matter. -/
structure FailureKind (F : Failure → Prop) : Prop where
  own : ∀ {f : Failure}, ¬f.IsUnderflow → F f
  locate : ∀ {f : Failure} place, F f → F (f.locate place)
  fromHelper : ∀ {f : Failure} name, F f → F (f.fromHelper name)

theorem FailureKind.any : FailureKind fun _ => True :=
  ⟨fun _ => trivial, fun _ _ => trivial, fun _ _ => trivial⟩

theorem FailureKind.noUnderflow : FailureKind fun f => ¬f.IsUnderflow where
  own h := h
  locate := by
    intro f place h
    cases f with
    | render cause known => cases cause <;> cases known <;> exact h
    | _ => exact h
  fromHelper := by
    intro f name h
    cases f <;> exact h

namespace Regime

/-- The regime that demands nothing but orderly helpers. -/
def ofHelpers (F : Failure → Prop) : Regime where
  value _ := True
  text _ := True
  source _ := True
  failure := F
  node := Node.TagBinds fun b => b.2.Orderly F
  cache c := c.Gives (Template.Binds fun b => b.2.Orderly F) fun _ => True

variable {F : Failure → Prop}

theorem obeys_of_orderly {α : Type} {action : Action α} (h : action.Orderly F) {V : α → Prop}
    (hV : ∀ a, V a) : (ofHelpers F).Obeys V action := by
  induction action with
  | done a => exact hV a
  | fail f => exact h
  | ask q next ih =>
    refine ⟨?_, fun reply hreply => ih reply (h.2 reply ?_)⟩
    case refine_2 => exact hreply.mono (fun _ hf => hf) fun _ _ => trivial
    cases q with
    | render what scope =>
      have hscope : scope.All (ofHelpers F).value := fun _ _ => ⟨trivial, fun _ _ => trivial⟩
      cases what with
      | body | inverse => exact hscope
      | source name text => exact ⟨trivial, hscope⟩
    | setData name v => exact ⟨h.1, trivial⟩
    | _ => trivial

theorem answers_ofHelpers (q : Request) (reply : q.Reply) : (ofHelpers F).Answers q reply := by
  cases q with
  | data name => exact fun _ _ _ => trivial
  | items v => exact fun _ _ => trivial
  | _ => trivial

theorem orderly_of_obeys {α : Type} {action : Action α} {V : α → Prop}
    (h : (ofHelpers F).Obeys V action) : action.Orderly F := by
  induction action with
  | done a => trivial
  | fail f => exact h
  | ask q next ih =>
    refine ⟨?_, fun reply hreply => ih reply (h.2 reply ?_)⟩
    · cases q with
      | setData name v => exact h.1.1
      | _ => trivial
    · exact hreply.mono (fun _ hf => hf) fun a _ => answers_ofHelpers q a

theorem serves_of_orderly {helper : Helper} (h : helper.Orderly F) (tag : TagKind) :
    (ofHelpers F).Serves tag helper :=
  fun subject call _ _ _ =>
    obeys_of_orderly (h subject call) fun _ => ⟨trivial, fun _ _ _ _ _ => trivial⟩

theorem ofHelpers_closed (hF : FailureKind F) : (ofHelpers F).Closed where
  text_empty := trivial
  text_append _ _ := trivial
  failure_own := hF.own
  failure_locate := hF.locate
  failure_fromHelper := hF.fromHelper
  value_literal _ := trivial
  value_member _ _ _ _ _ _ := trivial
  value_inner _ _ _ := trivial

/-- The built-in helpers are orderly. -/
theorem orderly_builtIn (hF : FailureKind F) {name : String} {helper : Helper}
    (h : helper.IsBuiltIn name) : helper.Orderly F := by
  obtain ⟨which, hwhich, -⟩ := h
  intro subject call
  rw [Helper.act, hwhich]
  have hcall : (ofHelpers F).Tells call :=
    ⟨fun _ _ => ⟨trivial, fun _ _ => trivial⟩, fun _ _ => trivial, fun _ _ => trivial⟩
  have hobeys : (ofHelpers F).Obeys ((ofHelpers F).Result .plain) (which.act subject call) :=
    builtin_obeys (ofHelpers_closed hF) which trivial hcall fun h => by cases h
  exact orderly_of_obeys hobeys

/-- What is compiled while rendering is bound to helpers of the registry. -/
theorem parse_ofHelpers (hF : FailureKind F) {e : Engine}
    (hregistry : ∀ name helper, e.registry.lookup name = some helper → helper.Orderly F)
    (marks : Delimiters) (name text : String) :
    Meets F (Template.Binds fun b => b.2.Orderly F) (e.parse marks name text) := by
  have hbinds : BindsOnly e.registry.lookup fun b => b.2.Orderly F := hregistry
  refine (Template.ofSource_meets hbinds marks name text).mono (fun f hf => ?_) fun _ h => h
  refine hF.own fun hunder => ?_
  cases f with
  | fault cause =>
    cases (hunder : cause = .frameUnderflow)
    exact hf
  | render cause place => exact hf
  | _ => exact hunder

theorem ofHelpers_lawful (hF : FailureKind F) {e : Engine}
    (hregistry : ∀ name helper, e.registry.lookup name = some helper → helper.Orderly F) :
    (ofHelpers F).Lawful e where
  toClosed := ofHelpers_closed hF
  value_transform _ _ := trivial
  node_text _ := trivial
  node_output {_ _ call _} h :=
    ⟨fun b hb => serves_of_orderly (h b (List.mem_append_right _ hb)) _, fun helper hhelper =>
      serves_of_orderly
        (h (call.name, helper)
          (List.mem_append_left _ (Invocation.mem_ownBound.2 ⟨rfl, hhelper⟩))) _⟩
  node_written _ _ _ := trivial
  node_block {head _ _} h :=
    ⟨fun b hb => serves_of_orderly (h b (List.mem_append_right _ hb)) _, fun helper hhelper =>
      serves_of_orderly (h (head.call.name, helper)
        (List.mem_append_left _ (Invocation.mem_ownBound.2 ⟨rfl, hhelper⟩))) _⟩
  node_inclusion h b hb := serves_of_orderly (h b hb) _
  compile {_ name _ _ _} _ next _ hcache :=
    Engine.compile_gives hcache (fun _ _ => hF.own fun hunder => hunder)
      (fun name text => parse_ofHelpers hF hregistry e.delimiters name text) next name
  registry h tag _ := serves_of_orderly (hregistry _ _ h) tag
  parse marks name _ := parse_ofHelpers hF hregistry marks name _
  lambda _ _ := ⟨fun _ => trivial, fun _ => trivial, fun _ => trivial, fun _ _ _ hb => nomatch hb⟩

/-- The regime holds of a world in which all helpers at hand are orderly. -/
theorem holds_ofHelpers {e : Engine} {nodes : List Node} {w : World}
    (h : HelpersAtHand (Helper.Orderly F) e nodes w) : (ofHelpers F).Holds w.side.frames w :=
  ⟨fun _ _ => trivial, trivial, h.cache, h.partials, Frames.SameBelow.refl _⟩

theorem scope_ofHelpers (scope : Scope) : scope.All (ofHelpers F).value :=
  fun _ _ => ⟨trivial, fun _ _ => trivial⟩

end Regime

/-- How rendering some nodes leaves the frames. -/
structure LeavesFrames (e : Engine) (depth : Nat) (scope : Scope) (nodes : List Node) (w : World) :
    Prop where
  /-- Rendered as a list, the nodes may define partials in the innermost frame. -/
  list : ∀ place r after,
    (renderFragment e depth ⟨place, nodes⟩ scope).outcome w = some (r, after) →
      w.side.frames.SameBelow after.side.frames ∧
        after.side.frames.all.length = w.side.frames.all.length
  /-- So may a single node, by rendering a partial. -/
  node : ∀ n ∈ nodes, ∀ r after,
    (renderNode e (renderFragment e depth) scope n).outcome w = some (r, after) →
      w.side.frames.SameBelow after.side.frames ∧
        after.side.frames.all.length = w.side.frames.all.length
  /-- A section gives the frames back as they were. -/
  section_ : ∀ head body inverse, .block head body inverse ∈ nodes → ∀ r after,
    (renderNode e (renderFragment e depth) scope (.block head body inverse)).outcome w =
        some (r, after) →
      after.side.frames = w.side.frames
  /-- The frame of a section is there to be popped however its inside has ended. -/
  popped : ∀ head body inverse, .block head (some body) inverse ∈ nodes → ∀ pushed r inner,
    w.side.frames.push = .ok pushed →
    (insideBlock e (renderFragment e depth) scope head.placed body
        ⟨head.elsePlace, inverse.getD []⟩).outcome (w.withFrames pushed) = some (r, inner) →
      inner.side.frames.pop = .ok w.side.frames

/-- Rendering some nodes does not fail for want of a frame to pop. -/
structure NeverUnderflows (e : Engine) (depth : Nat) (scope : Scope) (nodes : List Node)
    (w : World) : Prop where
  list : ∀ place f after,
    (renderFragment e depth ⟨place, nodes⟩ scope).outcome w = some (.error f, after) →
      ¬f.IsUnderflow
  node : ∀ n ∈ nodes, ∀ f after,
    (renderNode e (renderFragment e depth) scope n).outcome w = some (.error f, after) →
      ¬f.IsUnderflow

section

variable {F : Failure → Prop} {e : Engine} {nodes : List Node} {w : World}

/-- A node among those at hand is a tree of its own. -/
theorem Node.Every.single {P : Node → Prop} (h : Node.Every P nodes) {n : Node} (hn : n ∈ nodes) :
    Node.Every P [n] := by
  obtain ⟨before, after, rfl⟩ := List.append_of_mem hn
  have hrest := (Node.Every.append_iff.1 h).2
  obtain ⟨hn, hchildren, -⟩ := Node.Every.cons_iff.1 hrest
  exact Node.Every.cons_iff.2 ⟨hn, hchildren, Node.Every.nil⟩

/-- Failures that orderly helpers have are all the failures that there are. -/
theorem renderFragment_orderly (hF : FailureKind F)
    (h : HelpersAtHand (Helper.Orderly F) e nodes w) (depth : Nat) (scope : Scope)
    {place : Option Location} {r : Except Failure Unit} {after : World}
    (hr : (renderFragment e depth ⟨place, nodes⟩ scope).outcome w = some (r, after)) :
    w.side.frames.SameBelow after.side.frames ∧ Meets F (fun _ => True) r := by
  have L := Regime.ofHelpers_lawful hF h.registry
  obtain ⟨hafter, hmeets⟩ := Regime.renderFragment_within L depth w.side.frames ⟨place, nodes⟩ scope
    h.nodes (Regime.scope_ofHelpers scope) w r after (Regime.holds_ofHelpers h) hr
  exact ⟨hafter.below, hmeets⟩

theorem renderNode_orderly (hF : FailureKind F)
    (h : HelpersAtHand (Helper.Orderly F) e nodes w) (depth : Nat) (scope : Scope) {n : Node}
    (hn : n ∈ nodes) {r : Except Failure Unit} {after : World}
    (hr : (renderNode e (renderFragment e depth) scope n).outcome w = some (r, after)) :
    w.side.frames.SameBelow after.side.frames ∧ Meets F (fun _ => True) r := by
  have L := Regime.ofHelpers_lawful hF h.registry
  have hrender := Regime.renderFragment_within L depth
  obtain ⟨hafter, hmeets⟩ := Regime.keeps_renderNode L hrender (Regime.scope_ofHelpers scope)
    (h.nodes.single hn) w r after (Regime.holds_ofHelpers h) hr
  exact ⟨hafter.below, hmeets⟩

end

/-- Orderly helpers leave the frames in balance, at every depth and in every scope: what is below
the innermost frame stays, sections restore all frames, and every frame that was pushed can be
popped. Unless a helper makes an underflow up, nothing ends with one, not even on the way: a helper
that is answered with one need not be orderly from then on. -/
theorem frames_restored {e : Engine} {nodes : List Node} {w : World}
    (h : HelpersAtHand (Helper.Orderly fun _ => True) e nodes w) (depth : Nat) (scope : Scope) :
    LeavesFrames e depth scope nodes w ∧
      (HelpersAtHand (Helper.Orderly fun f => ¬f.IsUnderflow) e nodes w →
        NeverUnderflows e depth scope nodes w) := by
  have L := Regime.ofHelpers_lawful FailureKind.any h.registry
  have hrender := Regime.renderFragment_within L depth
  have hscope := Regime.scope_ofHelpers (F := fun _ => True) scope
  have hw := Regime.holds_ofHelpers h
  refine ⟨⟨?list, ?node, ?section_, ?popped⟩, fun hquiet => ⟨?listFails, ?nodeFails⟩⟩
  case list =>
    intro place r after hr
    have hbelow := (renderFragment_orderly FailureKind.any h depth scope hr).1
    exact ⟨hbelow, hbelow.length_all.symm⟩
  case node =>
    intro n hn r after hr
    have hbelow := (renderNode_orderly FailureKind.any h depth scope hn hr).1
    exact ⟨hbelow, hbelow.length_all.symm⟩
  case section_ =>
    intro head body inverse hmem r after hr
    cases body with
    | none =>
      cases hr
      rfl
    | some body =>
      exact (Regime.renderBlock_restores L hrender hscope (h.nodes.single hmem) hw hr).1
  case popped =>
    intro head body inverse hmem pushed r inner hpush hr
    have hinside := fun g =>
      Regime.keeps_insideBlock (f := g) L hrender hscope (h.nodes.single hmem)
    exact (Regime.pop_inFrame hinside hw hpush hr).1
  case listFails =>
    intro place f after hr
    have hmeets := (renderFragment_orderly FailureKind.noUnderflow hquiet depth scope hr).2
    exact (Meets.error_iff f).1 hmeets
  case nodeFails =>
    intro n hn f after hr
    have hmeets := (renderNode_orderly FailureKind.noUnderflow hquiet depth scope hn hr).2
    exact (Meets.error_iff f).1 hmeets

/-- A helper that fails with a fault of its own. -/
def failingHelper : Helper := ⟨1, .host fun _ _ => Action.fault (.raised .runtime "boom")⟩

/-- An engine with the built-in helpers and the failing one. -/
def failingEngine : Engine :=
  { Engine.standard with registry := (Registry.standard false 0).put "boom" failingHelper }

/-- A section that defines a partial and whose helper fails. -/
def failingSection : Node :=
  .block
    { place := none, inverted := false, call := { name := "boom", helper := some failingHelper },
      blockParams := [], label := .word, elsePlace := none, delimiters := .standard }
    (some [.inlinePartial none "p" [.text none "x"] .standard]) none

/-- The helpers of the failing engine are orderly. -/
theorem failingSection_orderly {F : Failure → Prop} (hF : FailureKind F) :
    HelpersAtHand (Helper.Orderly F) failingEngine [failingSection] {} := by
  have hfailing : failingHelper.Orderly F :=
    fun _ _ => hF.own fun hunder => nomatch (hunder : Fault.raised _ _ = .frameUnderflow)
  refine ⟨fun name helper hlookup => ?_, ?_, Frames.Every.initial, Cache.Gives.none⟩
  · rw [failingEngine, Registry.lookup_put] at hlookup
    split at hlookup
    · cases hlookup
      exact hfailing
    · exact Regime.orderly_builtIn hF (Registry.BuiltIn.standard false 0 name helper hlookup)
  · refine Node.Every.cons_iff.2 ⟨?_, ?_, Node.Every.nil⟩
    · intro b hb
      rw [List.mem_singleton.1 hb]
      exact hfailing
    · refine Node.Every.cons_iff.2 ⟨(fun b hb => nomatch hb), ?_, Node.Every.nil⟩
      exact Node.Every.cons_iff.2 ⟨(fun b hb => nomatch hb), Node.Every.nil, Node.Every.nil⟩

theorem frames_restored_failingSection :
    (renderNode failingEngine (renderFragment failingEngine 3) (.ofModel .null [])
        failingSection).outcome {} =
      some (.error (.render (.helperFailed "boom" (.raised .runtime "boom")) none),
        { nextLabel := 1 }) ∧
    HelpersAtHand (Helper.Orderly fun _ => True) failingEngine [failingSection] {} ∧
    HelpersAtHand (Helper.Orderly fun f => ¬f.IsUnderflow) failingEngine [failingSection] {} ∧
    LeavesFrames failingEngine 3 (.ofModel .null []) [failingSection] {} ∧
    NeverUnderflows failingEngine 3 (.ofModel .null []) [failingSection] {} := by
  have hany := failingSection_orderly FailureKind.any
  have hquiet := failingSection_orderly FailureKind.noUnderflow
  exact ⟨rfl, hany, hquiet, (frames_restored hany 3 _).1, (frames_restored hany 3 _).2 hquiet⟩

end Stencil
