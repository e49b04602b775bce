import Stencil.Proofs.Render.Reordered

/-!
# The place of a definition does not matter

Definitions are registered before a list is rendered, and those of a section's body once more when
its helper renders the body. So it does not matter where in its list a definition stands, before or
behind the tags that use it: what counts is the last definition of each name. For sections this holds
with passive data only, as a lambda is given the source of the section and sees the order.
-/

namespace Stencil

open Render

namespace Reordering

open Mirroring (Shared)

variable {S : List Node → List Node → Prop} {e e' : Engine}

/-- Clauses of a section on the two sides. -/
structure ClausesPaired (S : List Node → List Node → Prop) (clauses clauses' : Clauses) :
    Prop where
  body : FragmentsPaired S clauses.body clauses'.body
  inverse : FragmentsPaired S clauses.inverse clauses'.inverse

/-- What sections on the two sides call their helpers with. -/
structure CallsPaired (S : List Node → List Node → Prop) (told told' : SectionCall) : Prop where
  helper : told.helper = told'.helper
  asks : told.helper.AsksOnly Request.IsPlain
  subject : told.subject = told'.subject
  call : told.call = told'.call
  body : FragmentsPaired S told.body told'.body

section

variable (hS : Node.Reordering S) (he : e.registry.BuiltIn) {render render' : Renderer}
  (hrender : RendersMatching S e e' render render')

include hS he hrender

theorem matching_answer (call : Call) {clauses clauses' : Clauses}
    (hclauses : ClausesPaired S clauses clauses') {q : Request} (hq : q.IsPlain) :
    Matching S e e' (answer e render call clauses q) (answer e render' call clauses' q) Eq := by
  cases q with
  | render what scope =>
    have hfragment : Agree Eq (FragmentsPaired S) (fragmentOf e clauses what)
        (fragmentOf e clauses' what) := by
      cases what with
      | body => exact .ok hclauses.body
      | inverse => exact .ok hclauses.inverse
      | source name text =>
        have hparse := Regime.still_parse he e.delimiters name text
        unfold fragmentOf
        dsimp only
        generalize e.parse e.delimiters name text = parsed at hparse ⊢
        cases hparse with
        | ok ht => exact .ok ⟨⟨rfl, .refl hS.refl _⟩, ht, ht⟩
        | error => exact .error rfl
    refine (Matches.ofExcept hfragment).bind ?_
    rintro fragment fragment' ⟨h, hleft, hright⟩
    exact matching_captured (hrender fragment fragment' scope h hleft hright)
  | display v => exact matching_display v
  | items v => exact matching_items v
  | log level message => exact (matching_elementary hS (.log level message)).mono fun _ _ h => h.1
  | source | hasSink | write | get | data | setData | label | frames | note => exact hq.elim

/-- An action is performed alike, by induction on its requests. -/
theorem matching_perform (call : Call) {clauses clauses' : Clauses}
    (hclauses : ClausesPaired S clauses clauses') {α : Type} {action : Action α}
    (haction : action.AsksOnly Request.IsPlain) :
    Matching S e e' (action.perform (answer e render call clauses))
      (action.perform (answer e render' call clauses')) Eq := by
  induction action with
  | done a => exact .pure rfl
  | fail failure => exact .throw failure
  | ask q next ih =>
    refine (matching_answer hS he hrender call hclauses haction.1).observe.bind ?_
    intro reply reply' hreply
    have hsame : reply = reply' := by
      cases hreply with
      | ok h => rw [h]
      | error h => rw [h]
    subst hsame
    exact ih reply (haction.2 reply)

theorem matching_invoke {helper : Helper} (hhelper : helper.AsksOnly Request.IsPlain)
    (subject : Value) (call : Call) {clauses clauses' : Clauses}
    (hclauses : ClausesPaired S clauses clauses') :
    Matching S e e' (invoke e render helper subject call clauses)
      (invoke e render' helper subject call clauses') Eq :=
  (matching_perform hS he hrender call hclauses (hhelper subject call)).mapFailure _

omit hS he hrender in
theorem matching_transform (htransformer : e.transformer.Passive) {v : Value} (hv : v.Passive) :
    Matching S e e' (transform e v) (transform e v) (Shared Value.Passive) := by
  unfold transform
  refine matching_freshLabel.bind ?_
  rintro label _ rfl
  exact .pure ⟨rfl, htransformer.apply label hv⟩

omit hS he hrender in
/-- Passive data are no lambdas, so the source of the section does not count. -/
theorem matching_treatment (scope : Scope) (head : BlockHead) {body body' : List Node}
    (h : FragmentsPaired S ⟨none, body⟩ ⟨none, body'⟩) {v : Value} (hv : v.Passive) :
    Matching S e e' (treatment e scope head body v) (treatment e scope head body' v)
      fun treated treated' => treated.helper = treated'.helper ∧ treated.scope = treated'.scope ∧
        FragmentsPaired S treated.body treated'.body := by
  unfold treatment
  refine .ite (fun _ => .pure ⟨rfl, rfl, h⟩) fun _ => ?_
  refine .ite (fun _ => .pure ⟨rfl, rfl, h⟩) fun _ => ?_
  split
  · exact .pure ⟨rfl, rfl, h⟩
  · rw [hv.not_lambda]
    exact .pure ⟨rfl, rfl, h⟩

theorem matching_sectionCall (htransformer : e.transformer.Passive) {head : BlockHead}
    (hbound : ∀ b ∈ head.call.argBound, b.2.AsksOnly Request.IsPlain)
    (hown : ∀ helper, head.call.helper = some helper → helper.AsksOnly Request.IsPlain)
    {scope : Scope} (hscope : scope.All Value.Passive) {body body' : List Node}
    (hbody : FragmentsPaired S ⟨none, body⟩ ⟨none, body'⟩) :
    Matching S e e' (sectionCall e render scope head body) (sectionCall e render' scope head body')
      (CallsPaired S) := by
  have L := Material.alone_lawful he
  unfold sectionCall
  cases hhelper : head.call.helper with
  | some helper =>
    refine (matching_composed hS hrender (Material.composed_subjectOf L hbound scope)).bind ?_
    rintro v _ ⟨rfl, -⟩
    refine (matching_composed hS hrender (Material.composed_transform v)).bind ?_
    rintro subject _ ⟨rfl, -⟩
    refine (matching_composed hS hrender
      (Material.composed_callOf L hbound _ .block scope head.blockParams)).bind ?_
    rintro call _ ⟨rfl, -⟩
    exact .pure ⟨rfl, hown helper hhelper, rfl, rfl, hbody⟩
  | none =>
    -- What the data give for the name is passive, so it is transformed but never called.
    have hget (data : Bindings) (hdata : data.All Value.Passive) :=
      (Scope.get_meets membersKeep_passive (.literal .null) hscope hdata head.call.name).mono
        (G := fun _ => True) (fun _ _ => trivial) fun _ h => h
    refine (matching_get hget).bind ?_
    rintro v _ ⟨rfl, hv⟩
    refine (matching_transform htransformer hv).bind ?_
    rintro subject _ ⟨rfl, hsubject⟩
    refine (matching_treatment scope head hbody hsubject).bind ?_
    rintro ⟨which, fragment, inner⟩ ⟨which', fragment', inner'⟩ ⟨hwhich, hinner, hfragment⟩
    cases (hwhich : which = which')
    cases (hinner : inner = inner')
    have himplicit := Material.composed_implicitHelper L head which subject
    refine (matching_composed hS hrender himplicit).bind ?_
    rintro ⟨helper, name⟩ _ ⟨rfl, hasks⟩
    refine (matching_composed hS hrender
      (Material.composed_callOf L hbound name .block inner head.blockParams)).bind ?_
    rintro call _ ⟨rfl, -⟩
    exact .pure ⟨rfl, hasks, rfl, rfl, hfragment⟩

end

section

variable (hS : Node.Reordering S) (he : e.registry.BuiltIn) (htransformer : e.transformer.Passive)
  {l : Loader} {scope : Scope} (hscope : scope.All Value.Passive)

include hS he htransformer hscope

/-- Sections with reordered clauses, whatever sources the engine on the other side has. -/
theorem matching_section {render render' : Renderer}
    (hrender : RendersMatching S e (e.withLoader l) render render') {head : BlockHead}
    {body body' : List Node} {inverse inverse' : Option (List Node)}
    (hhead : Node.AllBuiltIn [.block head none none])
    (hbody : FragmentsPaired S ⟨none, body⟩ ⟨none, body'⟩)
    (hinverse : FragmentsPaired S ⟨head.elsePlace, inverse.getD []⟩
      ⟨head.elsePlace, inverse'.getD []⟩) :
    Matching S e (e.withLoader l) (renderNode e render scope (.block head (some body) inverse))
      (renderNode (e.withLoader l) render' scope (.block head (some body') inverse')) Eq := by
  have L := Material.alone_lawful he
  obtain ⟨hbound, hown⟩ := Material.asksOnly_called L (Node.Every.cons_iff.1 hhead).1
    (Node.tagBound_block head none none)
  have hvalue : Matching S e (e.withLoader l)
      (blockValue e render scope head.placed body ⟨head.elsePlace, inverse.getD []⟩)
      (blockValue e render' scope head.placed body' ⟨head.elsePlace, inverse'.getD []⟩) Eq := by
    rw [blockValue_eq, blockValue_eq]
    refine (matching_sectionCall hS he hrender htransformer hbound hown hscope hbody).bind ?_
    rintro ⟨helper, subject, call, fragment⟩ ⟨helper', subject', call', fragment'⟩
      ⟨hhelper, hasks, hsubject, hcall, hfragment⟩
    cases (hhelper : helper = helper')
    cases (hsubject : subject = subject')
    cases (hcall : call = call')
    exact matching_invoke hS he hrender hasks subject call ⟨hfragment, hinverse⟩
  have hinside : Matching S e (e.withLoader l)
      (insideBlock e render scope head.placed body ⟨head.elsePlace, inverse.getD []⟩)
      (insideBlock e render' scope head.placed body' ⟨head.elsePlace, inverse'.getD []⟩) Eq := by
    rw [insideBlock_eq, insideBlock_eq]
    have hdefine : Matching S e (e.withLoader l) (defineInlines body) (defineInlines body') Eq :=
      matching_defineInlines hbody.1.nodes hbody.2.1 hbody.2.2
    refine hdefine.bind fun _ _ _ => .located _ (hvalue.bind ?_)
    rintro value _ rfl
    exact (matching_composed hS hrender (Material.composed_writeAnswer value)).mono fun _ _ h => h.1
  rw [renderNode_withLoader _ _ _ _ rfl]
  exact matching_inFrame hinside

end

end Reordering

/-- Where one of two lists stands: by itself, or as the body of a definition in a list. -/
inductive Node.Standing (S : List Node → List Node → Prop) (L L' : List Node) :
    List Node → List Node → Prop where
  | itself : Standing S L L' L L'
  | body (before after : List Node) (place : Option Location) (name : String)
      (marks : Delimiters) : S L L' → Standing S L L'
        (before ++ .inlinePartial place name L marks :: after)
        (before ++ .inlinePartial place name L' marks :: after)

theorem Node.Standing.reordered {S : List Node → List Node → Prop} (hS : Node.Reordering S)
    {L L' nodes nodes' : List Node} (hL : Node.Reordered S L L')
    (h : Node.Standing S L L' nodes nodes') : Node.Reordered S nodes nodes' := by
  cases h with
  | itself => exact hL
  | body before after place name marks h =>
    have hdefinition := Node.Reordered.definition h place name marks
    exact .append (.refl hS.refl before) (hdefinition.append (.refl hS.refl after))

open Reordering in
/-- Two lists with the same nodes besides their definitions, whose last definitions of every name
have the same body, are rendered alike wherever the definitions stand: as a root, as the body of a
section, as its inverse, by a partial tag that finds the one or the other at its location, and as
the body of an inline partial, which is in turn defined in any of these places. The worlds before may
be any that show the same inline partials; those afterwards have the same output and show the same
inline partials again. Where the lists are bodies of inline partials themselves, these may have the
one or the other. -/
theorem definitions_stand_anywhere {e : Engine} (he : e.registry.BuiltIn)
    (htransformer : e.transformer.Passive) (l : Loader) {L L' : List Node}
    (hothers : Node.others L = Node.others L')
    (hinlines : ∀ name, Node.inline? name L = Node.inline? name L')
    {S : List Node → List Node → Prop} (hS : S = Eq ∨ S = Node.Exchanged L L')
    {nodes nodes' : List Node} (h : Node.Standing S L L' nodes nodes')
    (hnodes : Node.AllBuiltIn nodes) (hnodes' : Node.AllBuiltIn nodes') {scope : Scope}
    (hscope : scope.All Value.Passive) (depth : Nat) :
    (∀ place, Matching S e (e.withLoader l) (renderFragment e depth ⟨place, nodes⟩ scope)
      (renderFragment (e.withLoader l) depth ⟨place, nodes'⟩ scope) Eq) ∧
    (∀ head inverse, Node.AllBuiltIn [.block head none inverse] → Matching S e (e.withLoader l)
      (renderNode e (renderFragment e depth) scope (.block head (some nodes) inverse))
      (renderNode (e.withLoader l) (renderFragment (e.withLoader l) depth) scope
        (.block head (some nodes') inverse)) Eq) ∧
    (∀ head body, Node.AllBuiltIn [.block head (some body) none] → Matching S e (e.withLoader l)
      (renderNode e (renderFragment e depth) scope (.block head (some body) (some nodes)))
      (renderNode (e.withLoader l) (renderFragment (e.withLoader l) depth) scope
        (.block head (some body) (some nodes'))) Eq) ∧
    ∀ n, Node.AllBuiltIn [n] → Matching S e (e.withLoader l)
      (renderNode e (renderFragment e depth) scope n)
      (renderNode (e.withLoader l) (renderFragment (e.withLoader l) depth) scope n) Eq := by
  have hreordering : Node.Reordering S := by
    rcases hS with rfl | rfl
    · exact .eq
    · exact .exchanged hothers hinlines
  have hreordered := h.reordered hreordering (.of_same hreordering.refl hothers hinlines)
  have hrender : RendersMatching S e (e.withLoader l) (renderFragment e depth)
      (renderFragment (e.withLoader l) depth) := matching_renderFragment hreordering he depth
  have hpaired (place : Option Location) : FragmentsPaired S ⟨place, nodes⟩ ⟨place, nodes'⟩ :=
    ⟨⟨rfl, hreordered⟩, hnodes, hnodes'⟩
  have hkept {place : Option Location} {kept : List Node} (h : Node.AllBuiltIn kept) :
      FragmentsPaired S ⟨place, kept⟩ ⟨place, kept⟩ := ⟨⟨rfl, .refl hreordering.refl _⟩, h, h⟩
  have hhead {head : BlockHead} {body inverse : Option (List Node)}
      (h : Node.AllBuiltIn [.block head body inverse]) : Node.AllBuiltIn [.block head none none] :=
    Node.Every.cons_iff.2 ⟨(Node.Every.cons_iff.1 h).1, .nil, .nil⟩
  refine ⟨fun place => ?_, fun head inverse hsection => ?_, fun head body hsection => ?_,
    fun n hn => ?_⟩
  · exact hrender _ _ scope (hpaired place).1 hnodes hnodes'
  · exact matching_section hreordering he htransformer hscope hrender (hhead hsection)
      (hpaired none) (hkept hsection.inverse)
  · exact matching_section hreordering he htransformer hscope hrender (hhead hsection)
      (hkept hsection.body) (hpaired head.elsePlace)
  · exact matching_renderNode hreordering he hrender scope hn

/-- At the beginning of a render engines have to agree on what their sources compile to. -/
theorem World.Reordered.initial {S : List Node → List Node → Prop} {e e' : Engine}
    (h : ∀ location, Agree Eq (Template.Reordered S) (e.templateAt .none location)
      (e'.templateAt .none location)) : World.Reordered S e e' {} {} :=
  .apart (w := {}) .nil (.stack (.cons (fun _ => .none) .nil)) h ⟨Frames.Every.initial, .none⟩
    ⟨Frames.Every.initial, .none⟩

namespace Greeting

/-- The definition of an inline partial with a text. -/
def define (name text : String) : Node := .inlinePartial none name [.text none text] .standard

/-- A tag that renders a partial. -/
def use (name : String) : Node := .inclusion none name [] [] .standard

/-- A greeting with its partials defined ahead of the tags, one of them twice. -/
def ahead : List Node :=
  [define "you" "all", define "hi" "Hi ", define "you" "you", use "hi", use "you"]

/-- The greeting with its partials defined between and behind the tags. -/
def behind : List Node := [use "hi", define "you" "you", use "you", define "hi" "Hi "]

/-- A page that renders a greeting as an inline partial. -/
def page (greeting : List Node) : Fragment :=
  ⟨none, [use "greeting", .inlinePartial none "greeting" greeting .standard]⟩

end Greeting

open Greeting in
theorem definitions_stand_anywhere_greeting :
    ∃ after after', (renderFragment .standard 3 (page ahead) (.ofModel .null [])).outcome {} =
        some (.ok (), after) ∧
      (renderFragment .standard 3 (page behind) (.ofModel .null [])).outcome {} =
        some (.ok (), after') ∧
      after.output = "Hi you" ∧
      World.Reordered (Node.Exchanged ahead behind) .standard .standard after after' := by
  have hothers : Node.others ahead = Node.others behind := rfl
  have hinlines (name : String) : Node.inline? name ahead = Node.inline? name behind := by
    by_cases hyou : name = "you"
    · simp [ahead, behind, define, use, Node.inline?, hyou]
    · simp [ahead, behind, define, use, Node.inline?, hyou]
  have hbuiltIn {greeting : List Node} (h : greeting = ahead ∨ greeting = behind) :
      Node.AllBuiltIn (page greeting).nodes := by
    rcases h with rfl | rfl <;>
      simp [page, ahead, behind, define, use, Node.Every.cons_iff, Node.children, Node.TagBinds,
        Node.tagBound, Param.argsBound, Param.hashBound]
  have hends : EndsMatch (World.Reordered (Node.Exchanged ahead behind) .standard .standard) Eq
      ((renderFragment .standard 3 (page ahead) (.ofModel .null [])).outcome {})
      ((renderFragment .standard 3 (page behind) (.ofModel .null [])).outcome {}) :=
    (definitions_stand_anywhere (e := .standard) (Registry.BuiltIn.standard false 0)
      Transformer.Passive.standard Engine.standard.loader hothers hinlines (.inr rfl)
      (.body [use "greeting"] [] none "greeting" .standard (.inr ⟨rfl, rfl⟩)) (hbuiltIn (.inl rfl))
      (hbuiltIn (.inr rfl)) (Scope.All.ofModel (.literal .null) []) 3).1 none {} {}
      (.initial fun _ => .refl (fun _ => rfl) (fun _ => ⟨rfl, .refl (fun _ => .inl rfl) _⟩) _)
  have houtput : ((renderFragment .standard 3 (page ahead) (.ofModel .null [])).outcome {}).map
      (fun ended => (ended.1, ended.2.output)) = some (.ok (), "Hi you") := by
    decide +kernel
  obtain ⟨⟨r, after⟩, hrun, hended⟩ := Option.map_eq_some_iff.1 houtput
  obtain ⟨rfl, htext⟩ := Prod.mk.inj hended
  rw [hrun] at hends
  generalize (renderFragment .standard 3 (page behind) (.ofModel .null [])).outcome {} = ended
    at hends ⊢
  cases hends with
  | ends hagree hafter =>
    cases hagree with
    | ok _ => exact ⟨after, _, hrun, rfl, htext, hafter⟩

end Stencil
