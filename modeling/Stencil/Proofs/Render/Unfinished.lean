import Stencil.Proofs.Render.Appending
import Stencil.Proofs.Render.Balance
import Stencil.Proofs.Render.Blame
import Stencil.Proofs.Render.Pieces
import Stencil.Proofs.Render.Quiet
import Stencil.Proofs.Render.Stillness

/-!
# What has been written when a render fails

Texts, output tags and sections write what they have to write at once and at their end, and partials
write on behalf of their tags. So a render that fails leaves behind the texts of the nodes that it has
finished, those of the page and, where the page has come to render a partial, those of the partial,
and so on. Whatever has been rendered inside an unfinished section, output tag or lambda is lost.
-/

namespace Stencil

open Render

/-- Nodes rendered one after the other, each to its end and into a buffer of its own: what they have
written, and the world after them. -/
inductive Finished (e : Engine) (depth : Nat) (scope : Scope) :
    List Node → World → List String → World → Prop where
  | nil (w : World) : Finished e depth scope [] w [] w
  | cons {n : Node} {rest : List Node} {w between after : World} {text : String}
      {texts : List String} :
      (Render.captured (renderNode e (renderFragment e depth) scope n)).outcome w =
        some (.ok text, between) →
      Finished e depth scope rest between texts after →
      Finished e depth scope (n :: rest) w (text :: texts) after

/-- A fragment fails at one of its nodes: its inline partials have been defined and the nodes before
have been finished, with these texts. -/
inductive Subrender.FailsAt (e : Engine) (c : Subrender) : Visit → List String → Prop where
  | intro {depth : Nat} {before rest : List Node} {n : Node} {defined w : World}
      {texts : List String} {f : Failure} :
      c.fragment.nodes = before ++ n :: rest →
      (defineInlines c.fragment.nodes).outcome c.world = some (.ok (), defined) →
      Finished e depth c.scope before defined texts w →
      Visit.FailsWith e ⟨depth, c.scope, n, w⟩ f →
      FailsAt e c ⟨depth, c.scope, n, w⟩ texts

/-- A node is a partial tag and comes to render its partial: the partial is there, and its scope. -/
inductive Visit.Includes (e : Engine) : Visit → Subrender → Prop where
  | intro {depth : Nat} {scope inner : Scope} {w found ready : World} {place : Option Location}
      {name : String} {args : List Param} {hash : HashParams} {marks : Delimiters}
      {fragment : Fragment} :
      (partialOf e name).outcome w = some (.ok fragment, found) →
      (partialScope e (renderFragment e depth) scope (Param.placedArgs place [] args)
        (Param.placedHash place [] hash)).outcome found = some (.ok inner, ready) →
      Includes e ⟨depth, scope, .inclusion place name args hash marks, w⟩ ⟨fragment, inner, ready⟩

/-- What is left of a fragment whose rendering fails. -/
inductive CutOff (e : Engine) : Nat → Subrender → String → Prop where
  /-- Its inline partials could not be defined. -/
  | undefined {depth : Nat} {c : Subrender} {f : Failure} {after : World} :
      (defineInlines c.fragment.nodes).outcome c.world = some (.error f, after) →
      CutOff e (depth + 1) c ""
  /-- It fails at a node that was rendering no partial: the nodes before are left. -/
  | alone {c : Subrender} {visit : Visit} {texts : List String} :
      c.FailsAt e visit texts → (∀ inner, ¬visit.Includes e inner) →
      CutOff e (visit.depth + 1) c (String.join texts)
  /-- It fails at a tag that was rendering a partial: what is left of the partial follows. -/
  | inside {c inner : Subrender} {visit : Visit} {texts : List String} {text : String} :
      c.FailsAt e visit texts → visit.Includes e inner → CutOff e visit.depth inner text →
      CutOff e (visit.depth + 1) c (String.join texts ++ text)

/-! ### Nodes that are finished -/

section

variable {e : Engine} {depth : Nat} {scope : Scope}

/-- Nodes that are rendered write what they write into buffers of their own, one after the other. -/
theorem renderNodes_finished {nodes : List Node} {w after : World}
    (h : (renderNodes e (renderFragment e depth) scope nodes).outcome w = some (.ok (), after)) :
    ∃ texts, Finished e depth scope nodes w.blank texts after.blank ∧
      after.output = w.output ++ String.join texts := by
  induction nodes generalizing w with
  | nil =>
    cases h
    exact ⟨[], .nil _, by simp⟩
  | cons n rest ih =>
    obtain ⟨_, between, hn, hrest⟩ := outcome_bind_ok h
    obtain ⟨written, hblank, rfl⟩ := (renderNode_appends e depth scope n).outcome_blank hn
    obtain ⟨texts, hfinished, houtput⟩ := ih hrest
    have hcaptured : (Render.captured (renderNode e (renderFragment e depth) scope n)).outcome
        w.blank = some (.ok written.output, written.blank) := by
      rw [Render.captured, outcome_ofOutcome]
      show Option.map _ ((renderNode e (renderFragment e depth) scope n).outcome w.blank) = _
      rw [hblank]
      rfl
    refine ⟨written.output :: texts, .cons hcaptured hfinished, ?_⟩
    rw [houtput, World.behind_output, String.join_cons, String.append_assoc]

/-- A node that is finished does not fail. -/
theorem not_failing_of_captured {n : Node} {w between : World} {text : String} {f : Failure}
    (hcaptured : (Render.captured (renderNode e (renderFragment e depth) scope n)).outcome w =
      some (.ok text, between)) : ¬Visit.FailsWith e ⟨depth, scope, n, w⟩ f := by
  rintro ⟨after, hfails⟩
  obtain ⟨written, hblank, -⟩ := (renderNode_appends e depth scope n).outcome_blank hfails
  obtain ⟨⟨r, inner⟩, hinner, heq⟩ := Option.map_eq_some_iff.1 hcaptured
  cases hblank.symm.trans hinner
  cases heq

/-- There is one node at which a list of nodes fails, and one list of texts of those before. -/
theorem Finished.unique {before before' rest rest' : List Node} {n n' : Node} {u w w' : World}
    {texts texts' : List String} {f f' : Failure} (h : Finished e depth scope before u texts w)
    (h' : Finished e depth scope before' u texts' w')
    (hsplit : before ++ n :: rest = before' ++ n' :: rest')
    (hn : Visit.FailsWith e ⟨depth, scope, n, w⟩ f)
    (hn' : Visit.FailsWith e ⟨depth, scope, n', w'⟩ f') : texts = texts' ∧ n = n' ∧ w = w' := by
  induction h generalizing before' texts' with
  | nil =>
    cases h' with
    | nil =>
      cases hsplit
      exact ⟨rfl, rfl, rfl⟩
    | cons hcaptured =>
      cases hsplit
      exact absurd hn (not_failing_of_captured hcaptured)
  | cons hcaptured _ ih =>
    cases h' with
    | nil =>
      cases hsplit
      exact absurd hn' (not_failing_of_captured hcaptured)
    | cons hcaptured' hrest =>
      obtain ⟨rfl, htail⟩ := List.cons.inj hsplit
      cases hcaptured.symm.trans hcaptured'
      obtain ⟨rfl, hsame⟩ := ih hrest htail hn
      exact ⟨rfl, hsame⟩

end

section

variable {e : Engine} {c inner inner' : Subrender} {visit visit' : Visit}
  {texts texts' : List String}

theorem Subrender.FailsAt.not_undefined (h : c.FailsAt e visit texts) {f : Failure}
    {after : World} :
    (defineInlines c.fragment.nodes).outcome c.world ≠ some (.error f, after) := by
  intro hundefined
  cases h with
  | intro _ hdefined => cases hundefined.symm.trans hdefined

theorem Subrender.FailsAt.unique (h : c.FailsAt e visit texts) (h' : c.FailsAt e visit' texts')
    (hdepth : visit.depth = visit'.depth) : visit = visit' ∧ texts = texts' := by
  cases h with
  | intro hsplit hdefined hfinished hfails =>
    cases h' with
    | intro hsplit' hdefined' hfinished' hfails' =>
      cases (hdepth : _ = _)
      cases hdefined.symm.trans hdefined'
      obtain ⟨rfl, rfl, rfl⟩ :=
        hfinished.unique hfinished' (hsplit.symm.trans hsplit') hfails hfails'
      exact ⟨rfl, rfl⟩

theorem Visit.Includes.unique (h : visit.Includes e inner) (h' : visit.Includes e inner') :
    inner = inner' := by
  cases h with
  | intro hfound hready =>
    cases h' with
    | intro hfound' hready' =>
      cases hfound.symm.trans hfound'
      cases hready.symm.trans hready'
      rfl

/-- One text is left of a fragment that fails. -/
theorem CutOff.unique {depth : Nat} {text text' : String} (h : CutOff e depth c text)
    (h' : CutOff e depth c text') : text = text' := by
  induction h generalizing text' with
  | undefined hundefined =>
    cases h' with
    | undefined => rfl
    | alone hat | inside hat => exact absurd hundefined hat.not_undefined
  | alone hat halone =>
    generalize hdepth : _ + 1 = depth at h'
    cases h' with
    | undefined hundefined => exact absurd hundefined hat.not_undefined
    | alone hat' =>
      obtain ⟨rfl, rfl⟩ := hat.unique hat' (Nat.succ.inj hdepth)
      rfl
    | inside hat' hincludes' =>
      obtain ⟨rfl, rfl⟩ := hat.unique hat' (Nat.succ.inj hdepth)
      exact absurd hincludes' (halone _)
  | inside hat hincludes _ ih =>
    generalize hdepth : _ + 1 = depth at h'
    cases h' with
    | undefined hundefined => exact absurd hundefined hat.not_undefined
    | alone hat' halone' =>
      obtain ⟨rfl, rfl⟩ := hat.unique hat' (Nat.succ.inj hdepth)
      exact absurd hincludes (halone' _)
    | inside hat' hincludes' hleft' =>
      obtain ⟨rfl, rfl⟩ := hat.unique hat' (Nat.succ.inj hdepth)
      cases hincludes.unique hincludes'
      rw [ih hleft']

end

/-! ### Steps that write nothing unless they end -/

namespace Render

variable {α β : Type}

/-- A step that has written nothing when it fails. -/
def FailsSilently (m : Render α) : Prop :=
  ∀ w f after, m.outcome w = some (.error f, after) → after.output = w.output

namespace FailsSilently

variable {m : Render α}

theorem of_quiet (h : m.Quiet) : m.FailsSilently := fun w f after hr => h w (.error f) after hr

/-- What comes after a step that writes nothing. -/
theorem bind {k : α → Render β} (hm : m.Quiet) (hk : ∀ a, (k a).FailsSilently) :
    (m >>= k).FailsSilently := by
  intro w f after hr
  rcases outcome_bind_failing hr with hfirst | ⟨a, between, hfirst, hnext⟩
  · exact hm w _ after hfirst
  · exact (hk a between f after hnext).trans (hm w _ between hfirst)

theorem ite {p : Prop} [Decidable p] {m' : Render α} (hm : m.FailsSilently)
    (hm' : m'.FailsSilently) : (if p then m else m').FailsSilently := by
  by_cases h : p
  · rw [if_pos h]
    exact hm
  · rw [if_neg h]
    exact hm'

theorem mapFailure (g : Failure → Failure) (hm : m.FailsSilently) :
    (Render.mapFailure g m).FailsSilently := by
  intro w f after hr
  obtain ⟨cause, hfails, -⟩ := outcome_mapFailure_failing hr
  exact hm w cause after hfails

theorem emit (s : String) : (Render.emit s).FailsSilently := by
  intro w f after hr
  cases hr

end FailsSilently

end Render

/-! ### With the built-in helpers -/

/-- What the renders with built-in helpers are composed of. -/
def Material.builtIns : Material :=
  ⟨Node.TagBinds Bound.IsBuiltIn, fun _ _ => True, Request.IsPlain, True⟩

theorem Request.IsPlain.isSilent {q : Request} (h : q.IsPlain) : q.IsSilent := by
  cases q with
  | write => exact h.elim
  | _ => trivial

section

variable {e : Engine} (he : e.registry.BuiltIn)

include he

theorem Material.builtIns_lawful : Material.builtIns.Lawful e where
  binds _ hn b hb := (hn b hb).asksOnly fun _ h => h
  registry name helper hlookup := (he name helper hlookup).asksOnly fun _ h => h
  parse marks name text _ ht := (Regime.still_parse he marks name text).of_ok ht
  text _ _ _ hb := absurd hb List.not_mem_nil

theorem silent_registered (name : String) (helper : Helper)
    (h : e.registry.lookup name = some helper) : helper.AsksOnly Request.IsSilent :=
  (he name helper h).asksOnly fun _ hq => hq.isSilent

variable {depth : Nat} {scope : Scope} {w after : World} {f : Failure}

omit he in
theorem silent_bound {call : Invocation} {others : List Bound}
    (h : ∀ b ∈ call.ownBound ++ others, b.IsBuiltIn) (helper : Helper)
    (hhelper : call.helper = some helper) : helper.AsksOnly Request.IsSilent := by
  have hown : (call.name, helper) ∈ call.ownBound := Invocation.mem_ownBound.2 ⟨rfl, hhelper⟩
  exact (h _ (List.mem_append_left _ hown)).asksOnly fun _ hq => hq.isSilent

/-- An output tag writes its text when it has all of it. -/
theorem renderOutput_failsSilently (render : Renderer) {place : Option Location}
    {style : OutputStyle} {call : Invocation} {marks : Delimiters}
    (hn : Node.TagBinds Bound.IsBuiltIn (.output place style call marks)) :
    (renderOutput e render scope style (call.placed place) marks).FailsSilently := by
  rw [Node.TagBinds, Node.tagBound_output] at hn
  have hvalue := outputValue_quiet render (silent_registered he) scope style (silent_bound hn) marks
  refine .bind hvalue fun value => .ite (.of_quiet (.pure _)) ?_
  exact .bind (outputText_quiet e style value) fun text => .emit text

/-- So does a section, inside its frame. -/
theorem insideBlock_failsSilently (render : Renderer) {head : BlockHead} {body : List Node}
    {inverse : Option (List Node)}
    (hn : Node.TagBinds Bound.IsBuiltIn (.block head (some body) inverse)) (clause : Fragment) :
    (insideBlock e render scope head.placed body clause).FailsSilently := by
  rw [Node.TagBinds, Node.tagBound_block] at hn
  have hvalue := blockValue_quiet render (silent_registered he) scope (silent_bound hn) body clause
  refine .bind (defineInlines_quiet body) fun _ => .mapFailure _ (.bind hvalue fun value => ?_)
  exact .ite (.of_quiet (.pure _)) (.bind (.display value) fun text => .emit text)

/-- Built-in helpers are orderly wherever they are bound. -/
theorem World.Holding.orderly {nodes : List Node} (hnodes : Node.AllBuiltIn nodes)
    (hw : w.Holding (Node.TagBinds Bound.IsBuiltIn)) :
    HelpersAtHand (Helper.Orderly fun _ => True) e nodes w := by
  have horderly {b : Bound} (hb : b.IsBuiltIn) : b.2.Orderly fun _ => True :=
    Regime.orderly_builtIn FailureKind.any hb
  refine ⟨fun name helper h => Regime.orderly_builtIn FailureKind.any (he name helper h), ?_, ?_, ?_⟩
  · exact fun n hn b hb => horderly (hnodes n hn b hb)
  · exact fun frame hframe name body hbody n hn b hb =>
      horderly (hw.partials frame hframe name body hbody n hn b hb)
  · exact fun source hsource found hfound n hn b hb =>
      horderly (hw.cache source hsource found hfound n hn b hb)

/-- The frame that was pushed for a section can be popped, so a section fails before it has written
anything. -/
theorem renderBlock_failsSilently {head : BlockHead} {body : List Node}
    {inverse : Option (List Node)} (hn : Node.AllBuiltIn [.block head (some body) inverse])
    (hw : w.Holding (Node.TagBinds Bound.IsBuiltIn))
    (h : (renderBlock e (renderFragment e depth) scope head.placed body
      ⟨head.elsePlace, inverse.getD []⟩).outcome w = some (.error f, after)) :
    after.output = w.output := by
  rw [renderBlock_eq] at h
  cases hpush : w.side.frames.push with
  | error cause =>
    rw [outcome_inFrame, hpush] at h
    cases h
    rfl
  | ok pushed =>
    rw [outcome_inFrame_of_push hpush] at h
    obtain ⟨⟨r, inner⟩, hinside, h⟩ := Option.map_eq_some_iff.1 h
    have hpop := (frames_restored (hw.orderly he hn) depth scope).1.popped head body inverse
      List.mem_cons_self pushed r inner hpush hinside
    rw [popped, hpop] at h
    cases h
    show inner.output = (w.withFrames pushed).output
    exact insideBlock_failsSilently he _ (Node.Every.cons_iff.1 hn).1 _ _ f inner hinside

/-- A node that fails was rendering a partial that has failed, and has written nothing else, or it
was rendering none and has written nothing. -/
theorem Visit.failing_cases {v : Visit} (hn : Node.AllBuiltIn [v.node])
    (hw : v.world.Holding (Node.TagBinds Bound.IsBuiltIn))
    (h : v.outcome e = some (.error f, after)) :
    (∃ inner cause, v.Includes e inner ∧ inner.world.output = v.world.output ∧
        inner.outcome (renderFragment e v.depth) = some (.error cause, after)) ∨
      after.output = v.world.output ∧ ∀ inner, ¬v.Includes e inner := by
  obtain ⟨depth, scope, n, w⟩ := v
  cases n with
  | text | comment | inlinePartial => cases h
  | output place style call marks =>
    refine .inr ⟨?_, fun inner hinner => by cases hinner⟩
    exact (renderOutput_failsSilently he _ (Node.Every.cons_iff.1 hn).1).mapFailure _ w f after h
  | block head body inverse =>
    refine .inr ⟨?_, fun inner hinner => by cases hinner⟩
    cases body with
    | none => cases h
    | some body => exact renderBlock_failsSilently he hn hw h
  | inclusion place name args hash marks =>
    obtain ⟨cause, h, -⟩ := outcome_mapFailure_failing h
    have hpartial := partialOf_quiet e name w
    rcases outcome_bind_failing h with hfound | ⟨fragment, found, hfound, h⟩
    · refine .inr ⟨hpartial _ after hfound, fun inner hinner => ?_⟩
      cases hinner with
      | intro hfound' => cases hfound.symm.trans hfound'
    have hscope := partialScope_quiet e (renderFragment e depth) scope (Param.placedArgs place [] args)
      (Param.placedHash place [] hash) found
    have hsame := hpartial _ found hfound
    rcases outcome_bind_failing h with hready | ⟨inner, ready, hready, h⟩
    · refine .inr ⟨(hscope _ after hready).trans hsame, fun inner hinner => ?_⟩
      cases hinner with
      | intro hfound' hready' =>
        cases hfound.symm.trans hfound'
        cases hready.symm.trans hready'
    · exact .inl ⟨⟨fragment, inner, ready⟩, cause, .intro hfound hready,
        (hscope _ ready hready).trans hsame, h⟩

/-! ### Fragments that fail -/

/-- Whatever is rendered, the nodes that a world holds stay bound to built-ins. -/
theorem renderFragment_builtIns (depth : Nat) :
    (renderFragment e depth).Holding (Node.TagBinds Bound.IsBuiltIn) :=
  Material.renderFragment_holding (Material.builtIns_lawful he) (fun _ _ => trivial) trivial depth

/-- The partial of a tag is made of nodes that are bound to built-ins, as the tag is. -/
theorem Visit.Includes.holding {v : Visit} {inner : Subrender} (h : v.Includes e inner)
    (hn : Node.AllBuiltIn [v.node]) (hw : v.world.Holding (Node.TagBinds Bound.IsBuiltIn)) :
    inner.Holding (Node.TagBinds Bound.IsBuiltIn) := by
  have L := Material.builtIns_lawful he
  cases h with
  | @intro depth scope _ w found ready place name args hash marks fragment hfound hready =>
    have hrender := renderFragment_builtIns he depth
    have hbound := L.binds _ (Node.Every.cons_iff.1 hn).1
    rw [Node.TagBinds, Node.tagBound_inclusion] at hbound
    obtain ⟨hheld, hfragment⟩ :=
      (Material.composed_partialOf trivial name).holding L hrender w _ found hw hfound
    obtain ⟨hready, -⟩ := (Material.composed_partialScope L hbound scope).holding L hrender found _
      ready hheld hready
    exact ⟨hfragment.of_ok rfl, hready⟩

/-- What is left of a fragment that fails is what it has written, by induction on how deep fragments
nest. -/
theorem renderFragment_cutOff (depth : Nat) {c : Subrender} {f : Failure} {after : World}
    (hc : c.Holding (Node.TagBinds Bound.IsBuiltIn)) (hblank : c.world.output = "")
    (h : c.outcome (renderFragment e depth) = some (.error f, after)) :
    CutOff e depth c after.output := by
  induction depth generalizing c f after with
  | zero => cases h
  | succ depth ih =>
    obtain ⟨hnodes, hworld⟩ := hc
    have hdefine := defineInlines_quiet c.fragment.nodes c.world
    rcases outcome_bind_failing h with hundefined | ⟨_, defined, hdefined, h⟩
    · rw [(hdefine _ after hundefined).trans hblank]
      exact .undefined hundefined
    obtain ⟨cause, h, -⟩ := outcome_mapFailure_failing h
    obtain ⟨before, n, rest, v, hsplit, hbefore, hfails⟩ := renderNodes_failing h
    -- The node is there and is bound to built-ins, and so is what its world holds.
    rw [hsplit] at hnodes
    have hn : Node.AllBuiltIn [n] :=
      hnodes.single (List.mem_append_right _ List.mem_cons_self)
    have hheld := (aside_defineInlines (hsplit ▸ hnodes) _ _ defined hworld hdefined).1
    have hv := (Material.renderNodes_holding (Material.builtIns_lawful he) (fun _ _ => trivial) trivial
      (renderFragment_builtIns he depth) c.scope (Node.Every.append_iff.1 hnodes).1 defined _ v
      hheld hbefore).1
    -- What it writes follows the texts of the nodes before.
    obtain ⟨texts, hfinished, houtput⟩ := renderNodes_finished hbefore
    have hstart := (hdefine _ defined hdefined).trans hblank
    rw [World.blank_of_output hstart] at hfinished
    rw [hstart, String.empty_append] at houtput
    obtain ⟨written, hwritten, rfl⟩ := (renderNode_appends e depth c.scope n).outcome_blank hfails
    have hvisit : Visit.outcome e ⟨depth, c.scope, n, v.blank⟩ = some (.error cause, written) :=
      hwritten
    have hat : c.FailsAt e ⟨depth, c.scope, n, v.blank⟩ texts :=
      .intro hsplit hdefined hfinished ⟨written, hvisit⟩
    rw [World.behind_output, houtput]
    have hv : v.blank.Holding (Node.TagBinds Bound.IsBuiltIn) := hv.withOutput ""
    rcases Visit.failing_cases he hn hv hvisit with
      ⟨inner, cause, hincludes, hsame, hinner⟩ | ⟨hsilent, halone⟩
    · exact .inside hat hincludes (ih (hincludes.holding he hn hv) hsame hinner)
    · rw [hsilent, World.blank_output, String.append_empty]
      exact .alone hat halone

end

/-- Unfinished sections write nothing. With the built-in helpers, what a page that fails has written
is the texts of the nodes before the one at which it fails and, if that is a partial tag whose partial
was being rendered, what is left of the partial in the same way, and nothing else. -/
theorem output_of_failed_page {e : Engine} {t : Template} {w : World} {model : Value}
    {data : List (String × Value)} {resolvers : List Resolver} {page : Rendering} {f : Failure}
    (hregistry : e.registry.BuiltIn) (ht : t.BuiltIn)
    (hcache : ∀ source found, w.cache.find? source = .ok (some found) → found.template.BuiltIn)
    (hpage : t.renderAgainst e (.ofModel model data resolvers) w = some page)
    (hresult : page.result = .error f) (text : String) :
    CutOff e standardDepth
      ⟨t.fragment, .ofModel model resolvers, { w with side := .ofData data, output := "" }⟩ text ↔
      text = page.output := by
  obtain ⟨⟨r, after⟩, hrun, rfl⟩ := Option.map_eq_some_iff.1 hpage
  cases (hresult : r = .error f)
  have hside : (SideChannel.ofData data).data.All (fun _ => True) ∧
      (SideChannel.ofData data).frames.Every (Node.TagBinds Bound.IsBuiltIn) :=
    SideChannel.ofData_holds fun _ _ => trivial
  have hleft := renderFragment_cutOff hregistry standardDepth
    (c := ⟨t.fragment, .ofModel model resolvers, { w with side := .ofData data, output := "" }⟩)
    ⟨ht, hside.2, fun source _ found => hcache source found⟩ rfl hrun
  constructor
  · exact fun h => h.unique hleft
  · rintro rfl
    exact hleft

/-- A page with a tag whose partial fails inside of a section. -/
def guestsSource : String := "Hi \x7b\x7b> p\x7d\x7d bye"

/-- The engine with that partial. -/
def guestsEngine : Engine :=
  { Engine.standard with
    loader := .memory ⟨⟨"", ""⟩, [("p", "in \x7b\x7b#each guests\x7d\x7d[\x7b\x7blookup\x7d\x7d]" ++
      "\x7b\x7b/each\x7d\x7d")]⟩ }

/-- The guests. -/
def guests : Value := .map 0 [(.text "guests", .list 1 [.text "a", .text "b"])]

theorem output_of_failed_page_guests :
    ∃ t page, Template.ofSource guestsEngine.registry.lookup .standard "main" guestsSource = .ok t ∧
      t.renderAgainst guestsEngine (.ofModel guests [] guestsEngine.resolvers) {} = some page ∧
      page.output = "Hi in " ∧
      page.result = .error (.render (.helperFailed "lookup" .lookupArity) (some ⟨"p", 1, 21⟩)) ∧
      ∀ text, CutOff guestsEngine standardDepth
        ⟨t.fragment, .ofModel guests guestsEngine.resolvers, {}⟩ text ↔ text = page.output := by
  have hends : ((Template.ofSource guestsEngine.registry.lookup .standard "main"
      guestsSource).toOption.bind fun t =>
        (t.renderAgainst guestsEngine (.ofModel guests [] guestsEngine.resolvers) {}).map
          fun page => (page.output, page.result)) =
      some ("Hi in ",
        .error (.render (.helperFailed "lookup" .lookupArity) (some ⟨"p", 1, 21⟩))) := by
    decide +kernel
  have hregistry : guestsEngine.registry.BuiltIn := Registry.BuiltIn.standard false 0
  cases ht : Template.ofSource guestsEngine.registry.lookup .standard "main" guestsSource with
  | error f =>
    rw [ht] at hends
    cases hends
  | ok t =>
    rw [ht] at hends
    obtain ⟨page, hpage, heq⟩ := Option.map_eq_some_iff.1 hends
    obtain ⟨houtput, hresult⟩ := Prod.mk.inj heq
    have hbuiltIn : t.BuiltIn := (Regime.still_parse hregistry _ _ _).of_ok ht
    have hcache (source : Source) (found : Compiled) (h : Cache.none.find? source = .ok (some found)) :
        found.template.BuiltIn := by cases h
    exact ⟨t, page, rfl, hpage, houtput, hresult,
      output_of_failed_page hregistry hbuiltIn hcache hpage hresult⟩

end Stencil
