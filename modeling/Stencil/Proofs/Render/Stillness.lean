import Stencil.Proofs.Cache.Giving
import Stencil.Proofs.Helper.Blind
import Stencil.Proofs.Node.Binding
import Stencil.Proofs.Render.Fragment
import Stencil.Proofs.Value.Still

/-!
# Still renders

The regime of renders against still data with the built-in helpers: nothing that is read, answered or
passed around can be called or drawn, and every name is bound to the built-in of that name.
-/

namespace Stencil

/-- A bound name is the name of the built-in it is bound to. -/
def Bound.IsBuiltIn (b : Bound) : Prop := b.2.IsBuiltIn b.1

/-- All names of some nodes that are bound to helpers are bound to the built-ins of these names. -/
abbrev Node.AllBuiltIn (nodes : List Node) : Prop := Node.Every (Node.TagBinds Bound.IsBuiltIn) nodes

/-- Engines with the built-in helpers only that put only still data in place of texts. -/
structure Engine.Still (e : Engine) : Prop where
  registry : e.registry.BuiltIn
  transformer : e.transformer.Still

theorem Engine.Still.standard : Engine.standard.Still :=
  ⟨Registry.BuiltIn.standard false 0, Transformer.Still.standard⟩

namespace Regime

/-- Still data, and nodes that are bound to built-ins only; nothing is asked of texts and failures. -/
def still : Regime where
  value := Value.Still
  text _ := True
  source _ := False
  failure _ := True
  node := Node.TagBinds Bound.IsBuiltIn
  cache c := c.Gives (Template.Binds Bound.IsBuiltIn) fun _ => True

theorem still_closed : still.Closed where
  text_empty := trivial
  text_append _ _ := trivial
  failure_own _ := trivial
  failure_locate _ _ := trivial
  failure_fromHelper _ _ := trivial
  value_literal := Value.Still.literal
  value_member := membersKeep_still
  value_inner hv := hv.inner

/-- Any still value is an answer for every tag. -/
theorem still_result (tag : TagKind) : still.Result tag = Value.Still := by
  funext v
  exact propext ⟨fun h => h.1, fun h => ⟨h, fun _ _ _ _ _ => trivial⟩⟩

theorem still_serves {name : String} {helper : Helper} (h : helper.IsBuiltIn name)
    (tag : TagKind) : still.Serves tag helper := by
  obtain ⟨which, hwhich, -⟩ := h
  intro subject call hsubject hcall _
  -- A section named `lookup` is no exception here, since every text may be written.
  have hobeys : still.Obeys (still.Result .plain) (which.act subject call) :=
    builtin_obeys still_closed which hsubject hcall fun h => by cases h
  rw [still_result] at hobeys ⊢
  rw [Helper.act, hwhich]
  exact hobeys

/-- Built-in helpers are blind in still renders. -/
theorem still_blind {name : String} {helper : Helper} (h : helper.IsBuiltIn name) {subject : Value}
    {call : Call} (hsubject : subject.Still) (hcall : still.Tells call) :
    (helper.act subject call).Blind := by
  obtain ⟨which, hwhich, -⟩ := h
  rw [Helper.act, hwhich]
  exact which.act_blind hsubject hcall.params hcall.scope.model

theorem still_servesAll {bound : List Bound} (h : ∀ b ∈ bound, b.IsBuiltIn) :
    still.ServesAll bound :=
  fun b hb => still_serves (h b hb) .call

theorem still_serves_own {call : Invocation} {others : List Bound}
    (h : ∀ b ∈ call.ownBound ++ others, b.IsBuiltIn) (tag : TagKind) {helper : Helper}
    (hhelper : call.helper = some helper) : still.Serves tag helper := by
  have hown : (call.name, helper) ∈ call.ownBound := Invocation.mem_ownBound.2 ⟨rfl, hhelper⟩
  exact still_serves (h _ (List.mem_append_left _ hown)) tag

variable {e : Engine}

/-- What is compiled while rendering is bound to built-ins when the registry holds nothing else. -/
theorem still_parse (hregistry : e.registry.BuiltIn) (marks : Delimiters) (name text : String) :
    Meets (fun _ => True) (Template.Binds Bound.IsBuiltIn) (e.parse marks name text) := by
  have hbinds : BindsOnly e.registry.lookup Bound.IsBuiltIn := hregistry
  exact (Template.ofSource_meets hbinds marks name text).mono (fun _ _ => trivial) fun _ h => h

theorem still_lawful (he : e.Still) : still.Lawful e where
  toClosed := still_closed
  value_transform label hv := by
    obtain ⟨u, hu, heq⟩ := he.transformer.apply hv
    rw [heq label]
    exact hu
  node_text _ := trivial
  node_output {_ style _ _} h :=
    ⟨still_servesAll fun b hb => h b (List.mem_append_right _ hb),
      fun _ => still_serves_own h style.tag⟩
  node_written _ _ _ := trivial
  node_block h :=
    ⟨still_servesAll fun b hb => h b (List.mem_append_right _ hb),
      fun _ => still_serves_own h .block⟩
  node_inclusion h := still_servesAll h
  compile {_ name _ _ _} _ next _ hcache :=
    Engine.compile_gives hcache (fun _ _ => trivial)
      (fun name text => still_parse he.registry e.delimiters name text) next name
  registry h tag _ := still_serves (he.registry _ _ h) tag
  parse _ _ h := h.elim
  lambda hv hlambda := by
    rw [hv.not_lambda] at hlambda
    cases hlambda

end Regime

end Stencil
