import Stencil.Proofs.Render.Balance
import Stencil.Proofs.Render.Watched
import Stencil.Render.Context

/-!
# Data that a host hands over

The data of a host and what the engine keeps for itself live under names in one place. The engine has
reserved two names. The argument count is never kept there, so a host that uses its name is not
noticed. The frames of inline partials are kept there: a host that leaves their name alone can hand
over what it likes and is shown only partials that the templates it renders have defined; a host that
uses the name has put its own value in their place.
-/

namespace Stencil

open Render

/-- Data of a host without the names that the engine has reserved. -/
def unreserved (data : List (String × Value)) : List (String × Value) :=
  data.filter fun (name, _) => !SideChannel.reserved.contains name

namespace Bindings

variable {data bindings : Bindings}

/-- The argument count can be left out before or after other data are laid over. -/
theorem countless_merge (bindings later : Bindings) :
    (bindings.merge later).countless = bindings.countless.merge later.countless := by
  unfold merge
  induction later generalizing bindings with
  | nil => rfl
  | cons entry rest ih =>
    obtain ⟨n, v⟩ := entry
    rw [List.foldl_cons, ih, countless_set]
    by_cases hn : n = SideChannel.arityName
    · have hrest : countless ((n, v) :: rest) = countless rest :=
        List.filter_cons_of_neg (by simpa using hn)
      rw [if_pos hn, hrest]
    · have hrest : countless ((n, v) :: rest) = (n, v) :: countless rest :=
        List.filter_cons_of_pos (by simpa using hn)
      rw [if_neg hn, hrest]
      rfl

theorem countless_ofPairs (data : List (String × Value)) :
    (ofPairs data).countless = ofPairs (countless data) := countless_merge [] data

theorem countless_countless (data : Bindings) : data.countless.countless = data.countless :=
  List.filter_filter.trans (List.filter_congr fun _ _ => Bool.and_self _)

end Bindings

/-- A host that leaves the name of the frames alone starts with one empty frame. -/
theorem SideChannel.ofData_eq {data : List (String × Value)} (h : ∀ v, (framesName, v) ∉ data) :
    ofData data = ⟨Bindings.ofPairs data, .initial⟩ := by
  have hfold (c : SideChannel) : data.foldl (fun c entry => c.set entry.1 entry.2) c =
      ⟨c.data.merge data, c.frames⟩ := by
    induction data generalizing c with
    | nil => rfl
    | cons entry rest ih =>
      obtain ⟨name, v⟩ := entry
      have hname : (name == framesName) = false := by
        refine beq_eq_false_iff_ne.2 ?_
        rintro rfl
        exact h v List.mem_cons_self
      rw [List.foldl_cons, ih fun v hv => h v (List.mem_cons_of_mem _ hv), set, hname]
      rfl
  exact hfold {}

theorem unreserved_eq {data : List (String × Value)} (h : ∀ v, (SideChannel.framesName, v) ∉ data) :
    unreserved data = Bindings.countless data := by
  refine List.filter_congr ?_
  rintro ⟨name, v⟩ hmem
  have hname : name ≠ SideChannel.framesName := by
    rintro rfl
    exact h v hmem
  show (!(name == SideChannel.framesName || (name == SideChannel.arityName || false))) =
    (name != SideChannel.arityName)
  rw [beq_eq_false_iff_ne.2 hname, Bool.or_false, Bool.false_or]
  rfl

/-! ### What a render comes to -/

/-- The world in which a template is rendered against a context. -/
def Context.enter (c : Context) (w : World) : World := { w with side := c.side, output := "" }

/-- What a host sees of a rendering: how it has ended, what it wrote, the world it left, and what the
next render against the same context can read. -/
def Rendering.seen (r : Rendering) : Except Failure Unit × String × World × Frames × Bindings :=
  (r.result, r.output, r.world, r.context.side.frames, r.context.side.readable)

/-- A template comes to one of some fragments when it is rendered: it has no outcome without. -/
def Template.ComesTo (t : Template) (e : Engine) (c : Context) (w : World)
    (X : Subrender → Prop) : Prop :=
  (renderRefusing e X standardDepth t.fragment c.scope).outcome (c.enter w) = none

/-- A fragment defines a partial, at any depth of its sections. -/
def Fragment.Defines (fragment : Fragment) (name : String) (body : List Node) : Prop :=
  ∃ place marks, Node.inlinePartial place name body marks ∈ Node.withinAll fragment.nodes

/-- Host data and what the engine keeps do not get into each other's way. -/
structure Template.KeepsApart (t : Template) (e : Engine) (model : Value)
    (data : List (String × Value)) (S : String → Prop) (w : World) : Prop where
  /-- Reserved names make no difference. -/
  same : (t.renderAgainst e (.ofModel model data e.resolvers) w).map Rendering.seen =
    (t.renderAgainst e (.ofModel model (unreserved data) e.resolvers) w).map Rendering.seen
  /-- A partial that is shown, at the end or when a fragment is about to be rendered, is one that a
  rendered fragment defines. -/
  defined : ∀ rendering, t.renderAgainst e (.ofModel model data e.resolvers) w = some rendering →
    ∀ name found, (rendering.context.side.frames.Shows name found ∨
      t.ComesTo e (.ofModel model data e.resolvers) w fun c =>
        c.world.side.frames.Shows name found) →
    ∃ body, found = .nodes body ∧
      t.ComesTo e (.ofModel model data e.resolvers) w fun c => c.fragment.Defines name body
  /-- Data that no helper sets are as the host has handed them over. -/
  kept : ∀ rendering, t.renderAgainst e (.ofModel model data e.resolvers) w = some rendering →
    ∀ name, ¬S name → rendering.context.side.data.lookup name = (Bindings.ofPairs data).lookup name

namespace Watch

variable {W : Watch} {e : Engine}

/-- An engine of discreet helpers compiles nodes that bind discreet helpers. -/
theorem material_lawful (h : ∀ name helper, e.registry.lookup name = some helper →
    helper.AsksOnly (Request.Discreet W.settable)) : W.material.Lawful e where
  binds _ hn := hn
  registry := h
  parse marks name text t ht := by
    have hbinds : BindsOnly e.registry.lookup
        fun b => b.2.AsksOnly (Request.Discreet W.settable) := h
    exact (Template.ofSource_meets hbinds marks name text).of_ok ht
  text _ _ b hb := absurd hb List.not_mem_nil

end Watch

section

variable {e : Engine} {t : Template} {model : Value} {data other : List (String × Value)}
  {S : String → Prop} {w : World}

/-- The worlds in which renders with such data begin are twins. -/
theorem Context.enter_twin (hdata : ∀ v, (SideChannel.framesName, v) ∉ data)
    (hother : ∀ v, (SideChannel.framesName, v) ∉ other)
    (hcount : Bindings.countless data = Bindings.countless other) :
    ((Context.ofModel model data e.resolvers).enter w).Twin
      ((Context.ofModel model other e.resolvers).enter w) := by
  unfold enter ofModel
  rw [SideChannel.ofData_eq hdata, SideChannel.ofData_eq hother]
  refine @World.Twin.intro { w with side := ⟨Bindings.ofPairs data, .initial⟩, output := "" }
    (Bindings.ofPairs other) ?_
  show (Bindings.ofPairs data).countless = _
  rw [Bindings.countless_ofPairs, Bindings.countless_ofPairs, hcount]

section

variable
  (hhelpers : HelpersAtHand (Helper.AsksOnly (Request.Discreet S)) e t.root
    ((Context.ofModel model data e.resolvers).enter w))
  (hdata : ∀ v, (SideChannel.framesName, v) ∉ data)

include hhelpers hdata

/-- A render is under watch from its beginning, whatever partials are hidden. -/
theorem Watch.holds_enter (hidden : String → InlinePartial → Prop) :
    Watch.Holds ⟨S, hidden, Bindings.ofPairs data⟩
      ((Context.ofModel model data e.resolvers).enter w) := by
  have hside : ((Context.ofModel model data e.resolvers).enter w).side =
      ⟨Bindings.ofPairs data, .initial⟩ := SideChannel.ofData_eq hdata
  refine ⟨⟨hhelpers.partials, hhelpers.cache⟩, ?_, ?_⟩
  · rw [hside]
    exact fun name found hshown => absurd hshown Frames.not_shows_initial
  · rw [hside]
    exact fun name _ => rfl

/-- What a template comes to that is refused the fragments of `X`, it comes to in every twin when it
is refused those of `Y`, and the watch goes on to the end. -/
theorem Watch.enter_follows (hidden : String → InlinePartial → Prop) {X Y : Subrender → Prop}
    (hX : ∀ c : Subrender, ¬X c → Node.Every (fun n => ∀ place name body marks,
      n = .inlinePartial place name body marks → ¬hidden name (.nodes body)) c.fragment.nodes)
    (hY : ∀ c : Subrender, Y c → ∃ name found, c.world.side.frames.Shows name found ∧
      hidden name found)
    {w' after : World} {r : Except Failure Unit}
    (htwin : ((Context.ofModel model data e.resolvers).enter w).Twin w')
    (hr : (renderRefusing e X standardDepth t.fragment (.ofModel model e.resolvers)).outcome
      ((Context.ofModel model data e.resolvers).enter w) = some (r, after)) :
    (∃ after', (renderRefusing e Y standardDepth t.fragment (.ofModel model e.resolvers)).outcome
      w' = some (r, after') ∧ after.Twin after') ∧
      Watch.Holds ⟨S, hidden, Bindings.ofPairs data⟩ after := by
  have L : (Watch.material ⟨S, hidden, Bindings.ofPairs data⟩).Lawful e :=
    material_lawful hhelpers.registry
  have hdefines : ∀ c : Subrender, ¬X c →
      Node.Every (Watch.material ⟨S, hidden, Bindings.ofPairs data⟩).Defines c.fragment.nodes := by
    intro c hc n hn
    cases n with
    | inlinePartial place name body marks => exact hX c hc _ hn place name body marks rfl
    | _ => trivial
  have hrefused : ∀ (fragment : Fragment) (scope : Scope) (w w' : World),
      Watch.Holds ⟨S, hidden, Bindings.ofPairs data⟩ w → w.Twin w' → ¬Y ⟨fragment, scope, w'⟩ := by
    intro fragment scope w w' hw htwin hc
    obtain ⟨name, found, hshown, hhidden⟩ := hY _ hc
    have hframes : w'.side.frames.Shows name found := hshown
    rw [htwin.frames] at hframes
    exact hw.hidden name found hframes hhidden
  obtain ⟨hfollows, hholds, -⟩ := renderRefusing_alike L hdefines hrefused standardDepth t.fragment
    (.ofModel model e.resolvers) hhelpers.nodes _ w' r after (holds_enter hhelpers hdata hidden)
    htwin hr
  exact ⟨hfollows, hholds⟩

/-- A render with data that differ in the argument count at most is seen as the same. -/
theorem renderAgainst_seen (hother : ∀ v, (SideChannel.framesName, v) ∉ other)
    (hcount : Bindings.countless data = Bindings.countless other) {rendering : Rendering}
    (h : t.renderAgainst e (.ofModel model data e.resolvers) w = some rendering) :
    ∃ rendering', t.renderAgainst e (.ofModel model other e.resolvers) w = some rendering' ∧
      rendering'.seen = rendering.seen := by
  obtain ⟨⟨r, after⟩, hr, rfl⟩ := Option.map_eq_some_iff.1 h
  have hnothing : renderRefusing e (fun _ => False) standardDepth = renderFragment e standardDepth :=
    renderRefusing_nothing e (fun _ h => h) standardDepth
  have hrun : (renderRefusing e (fun _ => False) standardDepth t.fragment
      (.ofModel model e.resolvers)).outcome ((Context.ofModel model data e.resolvers).enter w) =
        some (r, after) := by
    rw [hnothing]
    exact hr
  obtain ⟨⟨after', hrun', htwin⟩, -⟩ := Watch.enter_follows hhelpers hdata (fun _ _ => False)
    (Y := fun _ => False) (fun _ _ _ _ _ _ _ _ _ h => h) (fun _ h => h.elim)
    (Context.enter_twin hdata hother hcount) hrun
  rw [hnothing] at hrun'
  refine ⟨_, congrArg (Option.map _) hrun', ?_⟩
  have hread := htwin.readable
  cases htwin
  exact congrArg (fun readable => (r, after.output,
    { after with side := w.side, output := w.output }, after.side.frames, readable)) hread.symm

omit hhelpers hdata in
/-- A render that comes to no definition of a partial has an outcome when all of them are refused. A
partial that is no list of nodes has no definition. -/
theorem exists_refusing {result : Except Failure Unit × World}
    (hr : (renderFragment e standardDepth t.fragment (.ofModel model e.resolvers)).outcome
      ((Context.ofModel model data e.resolvers).enter w) = some result) {name : String}
    {found : InlinePartial} (hnone : ¬∃ body, found = .nodes body ∧
      t.ComesTo e (.ofModel model data e.resolvers) w fun c => c.fragment.Defines name body) :
    ∃ ended, (renderRefusing e (fun c => ∃ body, found = .nodes body ∧ c.fragment.Defines name body)
      standardDepth t.fragment (.ofModel model e.resolvers)).outcome
        ((Context.ofModel model data e.resolvers).enter w) = some ended := by
  refine Option.ne_none_iff_exists'.1 fun hnever => ?_
  cases found with
  | nodes body =>
    have hsame : (fun c : Subrender => ∃ own, InlinePartial.nodes body = .nodes own ∧
        c.fragment.Defines name own) = fun c => c.fragment.Defines name body := by
      funext c
      refine propext ⟨?_, fun hc => ⟨body, rfl, hc⟩⟩
      rintro ⟨own, heq, hc⟩
      cases heq
      exact hc
    rw [hsame] at hnever
    exact hnone ⟨body, rfl, hnever⟩
  | foreign v =>
    rw [renderRefusing_nothing e fun c hc => by obtain ⟨_, heq, _⟩ := hc; cases heq] at hnever
    cases hnever.symm.trans hr

/-- A partial that is shown at the end, or when a fragment is about to be rendered, is one that a
rendered fragment defines: with a renderer that refuses these fragments, nothing would show it. -/
theorem comesTo_definition {rendering : Rendering}
    (h : t.renderAgainst e (.ofModel model data e.resolvers) w = some rendering) {name : String}
    {found : InlinePartial} (hshown : rendering.context.side.frames.Shows name found ∨
      t.ComesTo e (.ofModel model data e.resolvers) w fun c =>
        c.world.side.frames.Shows name found) :
    ∃ body, found = .nodes body ∧
      t.ComesTo e (.ofModel model data e.resolvers) w fun c => c.fragment.Defines name body := by
  obtain ⟨⟨r, after⟩, hr, rfl⟩ := Option.map_eq_some_iff.1 h
  by_contra hnone
  obtain ⟨⟨r₁, end₁⟩, hrun⟩ := exists_refusing hr hnone
  have hdefined : ∀ c : Subrender, (¬∃ body, found = .nodes body ∧ c.fragment.Defines name body) →
      Node.Every (fun n => ∀ place other body marks, n = .inlinePartial place other body marks →
        ¬(other = name ∧ InlinePartial.nodes body = found)) c.fragment.nodes := by
    rintro c hc n hn place other body marks rfl ⟨rfl, hbody⟩
    exact hc ⟨body, hbody.symm, place, marks, hn⟩
  have hwatch {Y : Subrender → Prop} (hY : ∀ c : Subrender, Y c → ∃ other shown,
      c.world.side.frames.Shows other shown ∧ other = name ∧ shown = found) :=
    Watch.enter_follows (Y := Y) hhelpers hdata (fun other shown => other = name ∧ shown = found)
      hdefined hY (.refl _) hrun
  rcases hshown with hshown | hnever
  · -- The render comes to the end that it comes to when it is refused the definitions.
    obtain ⟨⟨end₂, hrun₂, htwin⟩, hholds⟩ := hwatch (Y := fun _ => False) fun _ h => h.elim
    rw [renderRefusing_nothing e fun _ h => h] at hrun₂
    cases hrun₂.symm.trans hr
    refine hholds.hidden name found ?_ ⟨rfl, rfl⟩
    rw [← htwin.frames]
    exact hshown
  · obtain ⟨⟨end₂, hrun₂, -⟩, -⟩ := hwatch (Y := fun c => c.world.side.frames.Shows name found)
      fun c hc => ⟨name, found, hc, rfl, rfl⟩
    cases hrun₂.symm.trans hnever

/-- What no helper sets is there at the end as the host has handed it over. -/
theorem lookup_kept {rendering : Rendering}
    (h : t.renderAgainst e (.ofModel model data e.resolvers) w = some rendering) {name : String}
    (hname : ¬S name) :
    rendering.context.side.data.lookup name = (Bindings.ofPairs data).lookup name := by
  obtain ⟨⟨r, after⟩, hr, rfl⟩ := Option.map_eq_some_iff.1 h
  have hrun : (renderRefusing e (fun _ => False) standardDepth t.fragment
      (.ofModel model e.resolvers)).outcome ((Context.ofModel model data e.resolvers).enter w) =
        some (r, after) := by
    rw [renderRefusing_nothing e fun _ h => h]
    exact hr
  obtain ⟨-, hholds⟩ := Watch.enter_follows hhelpers hdata (fun _ _ => False)
    (Y := fun _ => False) (fun _ _ _ _ _ _ _ _ _ h => h) (fun _ h => h.elim) (.refl _) hrun
  exact hholds.data name hname

/-- Data that a host hands over and what the engine keeps for itself do not get into each other's way,
as long as the host leaves the name of the frames alone and the helpers leave alone the names that are
reserved: the render comes to the same without the reserved names, partials that it shows are defined
by the templates that it renders, and data that no helper sets stay. -/
theorem keeps_apart : t.KeepsApart e model data S w := by
  have hother : ∀ v, (SideChannel.framesName, v) ∉ unreserved data :=
    fun v hv => hdata v (List.mem_filter.1 hv).1
  have hcount : Bindings.countless data = Bindings.countless (unreserved data) := by
    rw [unreserved_eq hdata, Bindings.countless_countless]
  have hhelpers' : HelpersAtHand (Helper.AsksOnly (Request.Discreet S)) e t.root
      ((Context.ofModel model (unreserved data) e.resolvers).enter w) := by
    refine ⟨hhelpers.registry, hhelpers.nodes, ?_, hhelpers.cache⟩
    show (SideChannel.ofData (unreserved data)).frames.Every _
    rw [SideChannel.ofData_eq hother]
    exact Frames.Every.initial
  refine ⟨?_, fun rendering h name found hshown => comesTo_definition hhelpers hdata h hshown,
    fun rendering h name hname => lookup_kept hhelpers hdata h hname⟩
  cases hrun : t.renderAgainst e (.ofModel model data e.resolvers) w with
  | some rendering =>
    obtain ⟨rendering', hrun', hseen⟩ := renderAgainst_seen hhelpers hdata hother hcount hrun
    rw [hrun', Option.map_some, Option.map_some, hseen]
  | none =>
    cases hrun' : t.renderAgainst e (.ofModel model (unreserved data) e.resolvers) w with
    | none => rfl
    | some rendering' =>
      obtain ⟨rendering, hrun'', -⟩ := renderAgainst_seen hhelpers' hother hdata hcount.symm hrun'
      cases hrun.symm.trans hrun''

end

end

/-- A page that greets through an inline partial. -/
def greetingPage : Template where
  name := "page"
  root := [
    .inlinePartial none "greet" [.output none .plain { name := "@greeting" } .standard] .standard,
    .inclusion none "greet" [] [] .standard]

/-- Data with a greeting, and with the name of the argument count. -/
def greetingData : List (String × Value) := [("param_size", .int 7), ("greeting", .text "hi")]

theorem keeps_apart_greeting :
    greetingPage.KeepsApart .standard .null greetingData (fun _ => False) {} ∧
      (greetingPage.renderAgainst .standard (.ofModel .null greetingData Resolver.standard) {}).map
        (·.output) = some "hi" := by
  have hhelpers : HelpersAtHand (Helper.AsksOnly (Request.Discreet fun _ => False)) .standard
      greetingPage.root ((Context.ofModel .null greetingData Engine.standard.resolvers).enter {}) := by
    refine ⟨fun name helper hlookup => ?_, ?_, Frames.Every.initial, Cache.Gives.none⟩
    · refine (Registry.BuiltIn.standard false 0 name helper hlookup).asksOnly fun q hq => ?_
      cases q with
      | data | setData => exact hq.elim
      | _ => trivial
    · have hnone : ∀ n ∈ Node.withinAll greetingPage.root, n.tagBound = [] := by
        refine List.forall_mem_cons.2 ⟨rfl, List.forall_mem_cons.2 ⟨rfl, ?_⟩⟩
        exact List.forall_mem_singleton.2 rfl
      intro n hn b hb
      rw [hnone n hn] at hb
      cases hb
  have hdata : ∀ v, (SideChannel.framesName, v) ∉ greetingData := by
    intro v hv
    simp [greetingData, SideChannel.framesName] at hv
  exact ⟨keeps_apart hhelpers hdata, rfl⟩

/-- A section whose helper is `if`. -/
def decidedPage : Template where
  name := "page"
  root := [.block
    { place := none, inverted := false,
      call := { name := "if", args := [.reference "t"], helper := some ⟨0, .builtin .branch⟩ },
      blockParams := [], label := .word, elsePlace := none, delimiters := .standard }
    (some [.text none "a"]) none]

/-- A host that uses the name of the frames has no frame to render a section in. -/
theorem framesName_taken :
    let model := .map 0 [(.text "t", .bool true)]
    let data := [("inline_partials", .list 1 [])]
    ((decidedPage.renderAgainst .standard (.ofModel model data Resolver.standard) {}).map fun r =>
        (r.result, r.output)) = some (.error (.fault Frames.noFrame), "") ∧
      ((decidedPage.renderAgainst .standard
        (.ofModel model (unreserved data) Resolver.standard) {}).map fun r => (r.result, r.output)) =
          some (.ok (), "a") :=
  ⟨rfl, rfl⟩

end Stencil
