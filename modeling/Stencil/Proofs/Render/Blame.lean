import Stencil.Proofs.Render.Holding
import Stencil.Proofs.Render.Nesting
import Stencil.Proofs.Render.Tracing
import Stencil.Render.Context

/-!
# The tag that is blamed for an error

A render error is raised while some node is rendered, from inside other nodes that are being rendered:
sections whose clauses the node stands in, tags that render the partial it belongs to, tags of the
lambda that has answered its markup, helpers that have asked for one of these in between. The error is
blamed on the innermost of these nodes that has a place, and keeps this place all the way out.
-/

namespace Stencil

open Render

namespace Visit

/-- The node is rendered, and its tag is not blamed for what it fails with. -/
def bare (e : Engine) (v : Visit) : Renderer → Render Unit :=
  fun render => renderBare e render v.scope v.node

/-- A fragment is rendered on behalf of the node. -/
def ComesTo (e : Engine) (v : Visit) (c : Subrender) : Prop :=
  Reaching (v.bare e) (renderFragment e v.depth) v.world c

/-- The node fails. -/
def FailsWith (e : Engine) (v : Visit) (f : Failure) : Prop :=
  ∃ after, v.outcome e = some (.error f, after)

/-- The node itself raises an error: it fails with one that is blamed on no place, and that it has got
from no fragment rendered on its behalf. -/
structure Raises (e : Engine) (v : Visit) (cause : RenderError) : Prop where
  fails : ∃ after, (v.bare e (renderFragment e v.depth)).outcome v.world =
    some (.error (.render cause none), after)
  own : ∀ c, v.ComesTo e c → ¬c.FailsWith (renderFragment e v.depth) (.render cause none)

end Visit

/-- The innermost of some places that is known. -/
def innermost (places : List (Option Location)) : Option Location := places.findSome? id

/-- An error is raised inside a fragment: `places` are those of the nodes and fragments that are being
rendered, from the node that raises it outwards. Every fragment and every node that the error has
passed through has failed with it, blamed on the innermost place that was known by then. -/
inductive RaisedIn (e : Engine) (cause : RenderError) :
    Nat → Subrender → List (Option Location) → Prop where
  /-- A node of the fragment raises it. -/
  | here {c : Subrender} {visit : Visit} :
      c.fragment.Reaches e c.scope c.world visit → visit.Raises e cause →
      RaisedIn e cause (visit.depth + 1) c [visit.node.place, c.fragment.place]
  /-- It is raised inside a fragment that is rendered on behalf of a node. -/
  | inside {c inner : Subrender} {visit : Visit} {places : List (Option Location)} :
      c.fragment.Reaches e c.scope c.world visit → visit.ComesTo e inner →
      RaisedIn e cause visit.depth inner places →
      inner.FailsWith (renderFragment e visit.depth) (.render cause (innermost places)) →
      visit.FailsWith e (.render cause (innermost places)) →
      RaisedIn e cause (visit.depth + 1) c (places ++ [visit.node.place, c.fragment.place])

theorem innermost_append {places : List (Option Location)} {place : Location}
    (h : innermost places = some place) (outer : List (Option Location)) :
    innermost (places ++ outer) = some place := by
  rw [innermost, List.findSome?_append, ← innermost, h]
  rfl

/-! ### Worlds of accountable nodes -/

/-- What renders of accountable nodes are composed of. -/
def Material.accountable : Material := ⟨Node.Accountable, fun _ _ => True, fun _ => True, True⟩

section

variable {e : Engine} (he : e.registry.Fresh) {render : Renderer} {depth : Nat} {scope : Scope}

include he

theorem Material.accountable_lawful : Material.accountable.Lawful e where
  binds _ _ _ _ _ _ := .of_all (fun _ => trivial) _
  registry _ _ _ _ _ := .of_all (fun _ => trivial) _
  parse marks name text _ ht := (Template.ofSource_accountable he marks name text).of_ok ht
  text _ _ := ⟨fun _ hb => absurd hb List.not_mem_nil, trivial⟩

/-- Whatever is rendered, the nodes that a world holds stay accountable. -/
theorem renderFragment_holding (depth : Nat) :
    (renderFragment e depth).Holding Node.Accountable :=
  Material.renderFragment_holding (Material.accountable_lawful he) (fun _ _ => trivial) trivial depth

/-- What a fragment of accountable nodes reaches is an accountable node in such a world. -/
theorem Fragment.Reaches.holding {fragment : Fragment} {w : World} {visit : Visit}
    (h : fragment.Reaches e scope w visit) (hnodes : Node.Every Node.Accountable fragment.nodes)
    (hw : w.Holding Node.Accountable) :
    Node.Every Node.Accountable [visit.node] ∧ visit.world.Holding Node.Accountable := by
  cases h with
  | @intro depth before rest n defined v hsplit hdefine hbefore =>
    have hall := hnodes
    rw [hsplit] at hall
    obtain ⟨hfront, hback⟩ := Node.Every.append_iff.1 hall
    obtain ⟨hn, hchildren, -⟩ := Node.Every.cons_iff.1 hback
    obtain ⟨hdefined, -⟩ := aside_defineInlines hnodes w _ defined hw hdefine
    obtain ⟨hv, -⟩ := Material.renderNodes_holding (Material.accountable_lawful he)
      (fun _ _ => trivial) trivial (renderFragment_holding he depth) scope hfront defined _ v
      hdefined hbefore
    exact ⟨Node.Every.cons_iff.2 ⟨hn, hchildren, Node.Every.nil⟩, hv⟩

end

/-! ### From the outside to the node that raises the error -/

section

variable {e : Engine} {depth : Nat} {scope : Scope} {w after : World}

/-- Nodes fail with the failure of the first of them that fails. -/
theorem renderNodes_failing {render : Renderer} {nodes : List Node} {f : Failure}
    (h : (renderNodes e render scope nodes).outcome w = some (.error f, after)) :
    ∃ before n rest v, nodes = before ++ n :: rest ∧
      (renderNodes e render scope before).outcome w = some (.ok (), v) ∧
      (renderNode e render scope n).outcome v = some (.error f, after) := by
  induction nodes generalizing w with
  | nil => cases h
  | cons n rest ih =>
    rw [renderNodes] at h
    rcases outcome_bind_failing h with hn | ⟨_, between, hn, hrest⟩
    · exact ⟨[], n, rest, w, rfl, rfl, hn⟩
    · obtain ⟨before, m, others, v, rfl, hbefore, hm⟩ := ih hrest
      refine ⟨n :: before, m, others, v, rfl, ?_, hm⟩
      rw [renderNodes, outcome_bind_of_ok hn]
      exact hbefore

/-- A fragment fails with a render error because of a node that it has reached. -/
theorem renderFragment_failing {fragment : Fragment} {cause : RenderError} {place : Option Location}
    (h : (renderFragment e (depth + 1) fragment scope).outcome w =
      some (.error (.render cause place), after)) :
    ∃ visit f, visit.depth = depth ∧ fragment.Reaches e scope w visit ∧
      visit.outcome e = some (.error f, after) ∧
      f.locate fragment.place = .render cause place := by
  rcases outcome_bind_failing h with hundefined | ⟨_, defined, hdefine, h⟩
  · obtain ⟨-, hmeets⟩ := defineInlines_faults fragment.nodes w _ after trivial hundefined
    obtain ⟨fault, hfault⟩ := hmeets.of_error rfl
    cases hfault
  · obtain ⟨f, hnodes, hlocate⟩ := outcome_mapFailure_failing h
    obtain ⟨before, n, rest, v, hsplit, hbefore, hn⟩ := renderNodes_failing hnodes
    exact ⟨⟨depth, scope, n, v⟩, f, rfl, .intro hsplit hdefine hbefore, hn, hlocate⟩

/-- A node fails as it does without its place, and then its tag is blamed. -/
theorem Visit.bare_failing {v : Visit} {f : Failure} (h : v.outcome e = some (.error f, after)) :
    ∃ g, (v.bare e (renderFragment e v.depth)).outcome v.world = some (.error g, after) ∧
      g.locate v.node.place = f := by
  rw [Visit.outcome, renderNode_eq_located] at h
  exact outcome_mapFailure_failing h

end

/-- Nodes that fail have a place. -/
theorem Visit.place_of_failing {e : Engine} {v : Visit} (hplaced : v.node.IsPlaced) {f : Failure}
    {after : World} (h : v.outcome e = some (.error f, after)) : ∃ known, v.node.place = some known := by
  obtain ⟨depth, scope, n, w⟩ := v
  cases n with
  | text => cases h
  | _ => exact Option.isSome_iff_exists.1 hplaced

/-- An accountable node fails with a render error that has a place: its own, if it fails without a
place before its tag is blamed, or the one that the error had in a fragment it has come to. -/
theorem Visit.failing_inv {e : Engine} (he : e.registry.Fresh) {v : Visit}
    (hnode : Node.Every Node.Accountable [v.node]) (hworld : v.world.Holding Node.Accountable)
    {cause : RenderError} {place : Option Location}
    (h : v.FailsWith e (.render cause place)) :
    (∀ c, v.ComesTo e c → c.Holding Node.Accountable) ∧ ∃ known, place = some known ∧
      ((v.node.place = some known ∧ ∃ after, (v.bare e (renderFragment e v.depth)).outcome v.world =
          some (.error (.render cause none), after)) ∨
        ∃ c, v.ComesTo e c ∧ c.FailsWith (renderFragment e v.depth) (.render cause (some known))) := by
  obtain ⟨after, h⟩ := h
  obtain ⟨g, hbare, hlocate⟩ := Visit.bare_failing h
  obtain ⟨tag, htag⟩ := Visit.place_of_failing (Node.Every.cons_iff.1 hnode).1.placed h
  obtain ⟨-, hmeets, hcalls⟩ := (traced_renderBare he v.scope hnode _
    (renderFragment_holding he v.depth) v.world hworld).ends _ after hbare
  refine ⟨hcalls, ?_⟩
  rcases Failure.locate_eq_render hlocate with ⟨rfl, hplace⟩ | ⟨known, rfl, hplace⟩
  · exact ⟨tag, hplace.trans htag, .inl ⟨htag, after, hbare⟩⟩
  · exact ⟨known, hplace, .inr (hmeets.of_error rfl trivial)⟩

/-- A render error comes out of a fragment of accountable nodes with the place of the innermost node
that has one, by induction on how deep fragments nest. -/
theorem renderFragment_blames {e : Engine} (he : e.registry.Fresh) {cause : RenderError}
    {depth : Nat} {c : Subrender} (hc : c.Holding Node.Accountable) {place : Option Location}
    (h : c.FailsWith (renderFragment e depth) (.render cause place)) :
    ∃ places known, RaisedIn e cause depth c places ∧ innermost places = some known ∧
      place = some known := by
  induction depth generalizing c place with
  | zero =>
    obtain ⟨after, h⟩ := h
    cases h
  | succ depth ih =>
    obtain ⟨after, h⟩ := h
    obtain ⟨visit, f, rfl, hreaches, hvisit, hfragment⟩ := renderFragment_failing h
    obtain ⟨hnode, hworld⟩ := hreaches.holding he hc.1 hc.2
    obtain ⟨found, rfl⟩ : ∃ found, f = .render cause found := by
      rcases Failure.locate_eq_render hfragment with ⟨rfl, -⟩ | ⟨known, rfl, -⟩
      · exact ⟨none, rfl⟩
      · exact ⟨some known, rfl⟩
    obtain ⟨hcalls, known, rfl, hfails⟩ := Visit.failing_inv he hnode hworld ⟨after, hvisit⟩
    -- The node has been blamed, so the fragment is not.
    cases hfragment
    rcases hfails with ⟨htag, hbare⟩ | ⟨inner, hinner, hfails⟩
    · have hown (inner : Subrender) (hinner : visit.ComesTo e inner) :
          ¬inner.FailsWith (renderFragment e visit.depth) (.render cause none) := by
        intro hfails
        obtain ⟨places, other, -, -, hnone⟩ := ih (hcalls inner hinner) hfails
        cases hnone
      refine ⟨_, known, .here hreaches ⟨hbare, hown⟩, ?_, rfl⟩
      rw [htag]
      rfl
    · obtain ⟨places, other, hraised, hplaces, hsame⟩ := ih (hcalls inner hinner) hfails
      cases hsame
      rw [← hplaces] at hfails hvisit
      exact ⟨_, known, .inside hreaches hinner hraised hfails ⟨after, hvisit⟩,
        innermost_append hplaces _, rfl⟩

section

variable {e : Engine} {c : Context} {w : World} {page : Rendering} (hregistry : e.registry.Fresh)
  (hcache : w.cache.Gives Template.Accountable fun _ => True)
  (hframes : c.side.frames.Every Node.Accountable)

include hregistry hcache hframes

/-- Render errors blame the innermost tag. A page of a compiled template that ends with a render
error, with helpers that raise fresh errors, ends with one that has a place: that of the innermost
node, among those that were being rendered when the error was raised, of which a place is known.
Arguments and calls inside them are part of the tag that they stand in, and nothing on the way out
changes the place. -/
theorem error_blamed_on_innermost_tag {helperOf : String → Option Helper} {marks : Delimiters}
    {name source : String} {t : Template} {cause : RenderError} {place : Option Location}
    (hhelpers : BindsOnly helperOf fun b => b.2.Fresh)
    (ht : Template.ofSource helperOf marks name source = .ok t)
    (hpage : t.renderAgainst e c w = some page)
    (hresult : page.result = .error (.render cause place)) :
    ∃ places known,
      RaisedIn e cause standardDepth ⟨t.fragment, c.scope, { w with side := c.side, output := "" }⟩
        places ∧
      innermost places = some known ∧ place = some known := by
  obtain ⟨⟨r, after⟩, hrun, rfl⟩ := Option.map_eq_some_iff.1 hpage
  have hroot : t.Accountable := (Template.ofSource_accountable hhelpers marks name source).of_ok ht
  have hr : r = .error (.render cause place) := hresult
  subst hr
  have hstart : Subrender.Holding Node.Accountable
      ⟨t.fragment, c.scope, { w with side := c.side, output := "" }⟩ :=
    ⟨hroot, hframes, hcache⟩
  exact renderFragment_blames hregistry hstart ⟨after, hrun⟩

end

/-- A page whose section renders a partial, in which a call inside a tag has no helper. -/
def orphanedSource : String := "\x7b\x7b#if t\x7d\x7d\n\x7b\x7b> p\x7d\x7d\x7b\x7b/if\x7d\x7d"

/-- The engine with that partial. -/
def orphanedEngine : Engine :=
  { Engine.standard with loader := .memory ⟨⟨"", ""⟩, [("p", "x \x7b\x7blookup t (no t)\x7d\x7d")]⟩ }

/-- What the page is rendered against. -/
def orphanedContext : Context :=
  .ofModel (.map 0 [(.text "t", .bool true)]) [] orphanedEngine.resolvers

theorem error_blamed_on_innermost_tag_orphaned :
    ∃ t page places,
      Template.ofSource orphanedEngine.registry.lookup .standard "main" orphanedSource = .ok t ∧
      t.renderAgainst orphanedEngine orphanedContext {} = some page ∧
      page.result = .error (.render (.helperNotFound "no") (some ⟨"p", 1, 3⟩)) ∧
      RaisedIn orphanedEngine (.helperNotFound "no") standardDepth
        ⟨t.fragment, orphanedContext.scope, { ({} : World) with side := orphanedContext.side }⟩
        places ∧
      innermost places = some ⟨"p", 1, 3⟩ := by
  have hends : ((Template.ofSource orphanedEngine.registry.lookup .standard "main"
      orphanedSource).toOption.bind fun t =>
        (t.renderAgainst orphanedEngine orphanedContext {}).map (·.result)) =
      some (.error (.render (.helperNotFound "no") (some ⟨"p", 1, 3⟩))) := by
    decide +kernel
  cases ht : Template.ofSource orphanedEngine.registry.lookup .standard "main" orphanedSource with
  | error f =>
    rw [ht] at hends
    cases hends
  | ok t =>
    rw [ht] at hends
    obtain ⟨page, hpage, hresult⟩ := Option.map_eq_some_iff.1 hends
    have hregistry : orphanedEngine.registry.Fresh := (Registry.BuiltIn.standard false 0).fresh
    have hcache : ({} : World).cache.Gives Template.Accountable fun _ => True := Cache.Gives.none
    obtain ⟨places, known, hraised, hplaces, hknown⟩ := error_blamed_on_innermost_tag hregistry
      hcache Frames.Every.initial hregistry ht hpage hresult
    cases hknown
    exact ⟨t, page, places, rfl, hpage, hresult, hraised, hplaces⟩

end Stencil
