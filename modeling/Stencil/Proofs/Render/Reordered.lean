import Stencil.Proofs.Render.Matching
import Stencil.Proofs.Render.Mirroring
import Stencil.Proofs.Render.OtherLoader
import Stencil.Proofs.Render.Reordering
import Stencil.Proofs.Render.Unfinished
import Stencil.Proofs.Value.Passive

/-!
# Rendering reordered lists

Reordered lists define the same inline partials and render the same nodes. The frames that they
leave differ in the order of their names at most, and frames are only ever looked up by name. So
reordered fragments are rendered alike from worlds that are the same up to the order of their
definitions.
-/

namespace Stencil

open Render

/-- A world that shows inline partials and has compiled templates of its own. -/
def World.apart (w : World) (frames : Frames) (cache : Cache) (nextTree : Nat) : World :=
  { w with side := { w.side with frames }, cache, nextTree }

/-- Worlds of two engines that are the same up to their inline partials and their templates, and
these are reordered. The data are passive, and names are bound to built-in helpers only. -/
inductive World.Reordered (S : List Node → List Node → Prop) (e e' : Engine) (w : World) :
    World → Prop where
  | apart {frames : Frames} {cache : Cache} {nextTree : Nat} : w.side.data.All Value.Passive →
      w.side.frames.Reordered S frames →
      (∀ location, Agree Eq (Template.Reordered S) (e.templateAt w.cache location)
        (e'.templateAt cache location)) →
      w.Holding (Node.TagBinds Bound.IsBuiltIn) →
      (w.apart frames cache nextTree).Holding (Node.TagBinds Bound.IsBuiltIn) →
      Reordered S e e' w (w.apart frames cache nextTree)

/-- A change of both worlds that neither looks at the differences nor adds to them. -/
theorem World.Reordered.map {S : List Node → List Node → Prop} {e e' : Engine} {w w' : World}
    (h : w.Reordered S e e' w') {f : World → World}
    (hsame : ∀ w, (f w).side = w.side ∧ (f w).cache = w.cache)
    (hapart : ∀ w frames cache nextTree,
      f (w.apart frames cache nextTree) = (f w).apart frames cache nextTree) :
    (f w).Reordered S e e' (f w') := by
  cases h with
  | @apart frames cache nextTree hdata hframes htemplates hleft hright =>
    obtain ⟨hside, hcache⟩ := hsame w
    rw [hapart]
    refine .apart ?_ ?_ ?_ ⟨?_, ?_⟩ ⟨hright.partials, hright.cache⟩
    · rwa [hside]
    · rwa [hside]
    · rwa [hcache]
    · rw [hside]
      exact hleft.partials
    · rw [hcache]
      exact hleft.cache

/-- What is rendered with the built-in helpers without including partials. -/
def Material.alone : Material := { Material.builtIns with inclusions := False }

theorem Material.alone_lawful {e : Engine} (he : e.registry.BuiltIn) : Material.alone.Lawful e where
  binds := (Material.builtIns_lawful he).binds
  registry := (Material.builtIns_lawful he).registry
  parse := (Material.builtIns_lawful he).parse
  text := (Material.builtIns_lawful he).text

namespace Reordering

open Mirroring (Shared)

variable {S : List Node → List Node → Prop} {e e' : Engine}

/-- Steps on the two sides. -/
abbrev Matching (S : List Node → List Node → Prop) (e e' : Engine) {α β : Type} (m : Render α)
    (m' : Render β) (V : α → β → Prop) : Prop := Matches (World.Reordered S e e') m m' V

/-! ### Steps of the world -/

theorem matching_update {f : World → World}
    (hsame : ∀ w, (f w).side = w.side ∧ (f w).cache = w.cache)
    (hapart : ∀ w frames cache nextTree,
      f (w.apart frames cache nextTree) = (f w).apart frames cache nextTree) :
    Matching S e e' (Render.update f) (Render.update f) Eq :=
  .update fun _ _ hw => hw.map hsame hapart

theorem matching_emit (s : String) : Matching S e e' (Render.emit s) (Render.emit s) Eq :=
  matching_update (fun _ => ⟨rfl, rfl⟩) fun _ _ _ _ => rfl

theorem matching_drawn : Matching S e e' (Render.read (·.drawn)) (Render.read (·.drawn)) Eq :=
  .read fun _ _ hw => by
    cases hw
    rfl

/-- References are read in the data, and these are passive. -/
theorem matching_get {P : Value → Prop} {scope : Scope} {reference : String}
    (hP : ∀ data : Bindings, data.All Value.Passive →
      Meets (fun _ => True) P (scope.get data reference)) :
    Matching S e e' (Render.get scope reference) (Render.get scope reference) (Shared P) := by
  unfold Render.get
  refine (Matches.read (V := Shared (Bindings.All Value.Passive)) fun w w' hw => ?_).bind ?_
  · cases hw with
    | apart hdata => exact ⟨rfl, hdata.filter _⟩
  · rintro data _ ⟨rfl, hdata⟩
    have hmeets := hP data hdata
    generalize scope.get data reference = found at hmeets ⊢
    cases hmeets with
    | ok hv => exact .ofExcept (.ok ⟨rfl, hv⟩)
    | error => exact .ofExcept (.error rfl)

theorem matching_display (v : Value) :
    Matching S e e' (Render.display v) (Render.display v) Eq := by
  unfold Render.display
  refine matching_drawn.bind ?_
  rintro drawn _ rfl
  refine (Matches.ofFault (V := Eq) (.refl (fun _ => rfl) (fun _ => rfl) _)).bind ?_
  rintro ⟨text, drawn'⟩ _ rfl
  refine Matches.bind (V := Eq) ?_ fun _ _ _ => .pure rfl
  exact matching_update (fun _ => ⟨rfl, rfl⟩) fun _ _ _ _ => rfl

theorem matching_items (v : Value) : Matching S e e' (Render.items v) (Render.items v) Eq := by
  cases v with
  | iterator label items =>
    refine matching_drawn.bind ?_
    rintro drawn _ rfl
    refine .ite (fun _ => .pure rfl) fun _ => Matches.bind (V := Eq) ?_ fun _ _ _ => .pure rfl
    exact matching_update (fun _ => ⟨rfl, rfl⟩) fun _ _ _ _ => rfl
  | _ => exact .pure rfl

theorem matching_freshLabel : Matching S e e' Render.freshLabel Render.freshLabel Eq := by
  intro w w' hw
  have hafter := hw.map (f := fun w => { w with nextLabel := w.nextLabel + 1 })
    (fun _ => ⟨rfl, rfl⟩) fun _ _ _ _ => rfl
  cases hw with
  | apart => exact .ends (.ok rfl) hafter

theorem matching_captured {m m' : Render Unit} {V : Unit → Unit → Prop}
    (hm : Matching S e e' m m' V) :
    Matching S e e' (Render.captured m) (Render.captured m') Eq := by
  intro w w' hw
  have hblank := hm _ _ (hw.map (f := fun w => { w with output := "" }) (fun _ => ⟨rfl, rfl⟩)
    fun _ _ _ _ => rfl)
  rw [Render.captured, Render.captured, outcome_ofOutcome, outcome_ofOutcome]
  generalize m.outcome { w with output := "" } = x at hblank ⊢
  generalize m'.outcome { w' with output := "" } = y at hblank ⊢
  cases hblank with
  | nothing => exact .nothing
  | @ends r r' after after' hagree hafter =>
    have hleft : after'.output = after.output := by
      cases hafter
      rfl
    have hbefore : w'.output = w.output := by
      cases hw
      rfl
    refine .ends ?_ ?_
    · rw [hleft]
      exact .map (hagree.mono (fun _ _ hf => hf) fun _ _ _ => rfl)
    · rw [hbefore]
      exact hafter.map (f := fun after => { after with output := w.output }) (fun _ => ⟨rfl, rfl⟩)
        fun _ _ _ _ => rfl

/-- Inline partials on the two sides that belong to such worlds. -/
def FramesPaired (S : List Node → List Node → Prop) (f f' : Frames) : Prop :=
  f.Reordered S f' ∧ f.Every (Node.TagBinds Bound.IsBuiltIn) ∧
    f'.Every (Node.TagBinds Bound.IsBuiltIn)

theorem matching_changeFrames {change change' : Frames → Except Fault Frames}
    (h : ∀ f f', FramesPaired S f f' → Agree Eq (FramesPaired S) (change f) (change' f')) :
    Matching S e e' (Render.changeFrames change) (Render.changeFrames change') Eq := by
  unfold Render.changeFrames
  refine (Matches.read (V := FramesPaired S) fun w w' hw => ?_).bind fun f f' hf => ?_
  · cases hw with
    | apart _ hframes _ hleft hright => exact ⟨hframes, hleft.partials, hright.partials⟩
  refine (Matches.ofFault (h f f' hf)).bind fun g g' hg => .update fun w w' hw => ?_
  cases hw with
  | @apart frames cache nextTree hdata _ htemplates hleft hright =>
    obtain ⟨hframes, hevery, hevery'⟩ := hg
    exact .apart (w := w.withFrames g) hdata hframes htemplates ⟨hevery, hleft.cache⟩
      ⟨hevery', hright.cache⟩

theorem matching_inFrame {α β : Type} {m : Render α} {m' : Render β} {V : α → β → Prop}
    (hm : Matching S e e' m m' V) :
    Matching S e e' (Render.inFrame m) (Render.inFrame m') V := by
  refine .inFrame ((matching_changeFrames fun f f' hf => ?_).mono fun _ _ _ => trivial)
    ((matching_changeFrames fun f f' hf => ?_).mono fun _ _ _ => trivial) hm
  · exact hf.1.push.and_meets ((Frames.push_meets f).mono (fun _ h => h) fun _ => hf.2.1.push)
      ((Frames.push_meets f').mono (fun _ h => h) fun _ => hf.2.2.push)
  · have hpop {f : Frames} (h : f.Every (Node.TagBinds Bound.IsBuiltIn)) :
        Meets (fun _ => True) (Frames.Every (Node.TagBinds Bound.IsBuiltIn)) f.pop :=
      .of_cases (fun _ => h.pop) fun _ _ => trivial
    exact hf.1.pop.and_meets (hpop hf.2.1) (hpop hf.2.2)

theorem matching_define {name : String} {body body' : List Node} (h : S body body')
    (hbody : Node.AllBuiltIn body) (hbody' : Node.AllBuiltIn body') :
    Matching S e e' (Render.changeFrames (Frames.define name (.nodes body)))
      (Render.changeFrames (Frames.define name (.nodes body'))) Eq := by
  refine matching_changeFrames fun f f' hf => (hf.1.define name (.nodes h)).and_meets
    ((Frames.define_meets f _ _).mono (fun _ h => h) fun _ => hf.2.1.define hbody)
    ((Frames.define_meets f' _ _).mono (fun _ h => h) fun _ => hf.2.2.define hbody')

/-! ### Steps that include nothing -/

/-- Renderers that match on reordered fragments. -/
def RendersMatching (S : List Node → List Node → Prop) (e e' : Engine) (render render' : Renderer) :
    Prop :=
  ∀ fragment fragment' scope, fragment.Reordered S fragment' →
    Node.AllBuiltIn fragment.nodes → Node.AllBuiltIn fragment'.nodes →
    Matching S e e' (render fragment scope) (render' fragment' scope) Eq

theorem matching_elementary (hS : Node.Reordering S) {α : Type} {m : Render α} {V : α → Prop}
    (h : Material.alone.Elementary e m V) : Matching S e e' m m (Shared V) := by
  have htrivial {m : Render Unit} (hm : Matching S e e' m m Eq) :
      Matching S e e' m m (Shared fun _ => True) := hm.mono fun _ _ h => ⟨h, trivial⟩
  cases h with
  | pure h => exact .pure ⟨rfl, h⟩
  | throw f => exact .throw f
  | get scope reference =>
    exact matching_get fun _ _ => .of_cases (fun _ _ => trivial) fun _ _ => trivial
  | display v => exact (matching_display v).mono fun _ _ h => ⟨h, trivial⟩
  | items v => exact (matching_items v).mono fun _ _ h => ⟨h, trivial⟩
  | freshLabel => exact matching_freshLabel.mono fun _ _ h => ⟨h, trivial⟩
  | emit text => exact htrivial (matching_emit text)
  | define _ hbody => exact htrivial (matching_define (hS.refl _) hbody hbody)
  | partials h | compiled _ h | data h | setData h | frames h => exact False.elim h
  | log level message =>
    cases level == 0 with
    | true => exact htrivial (matching_update (fun _ => ⟨rfl, rfl⟩) fun _ _ _ _ => rfl)
    | false => exact htrivial (matching_update (fun _ => ⟨rfl, rfl⟩) fun _ _ _ _ => rfl)
  | note entry => exact htrivial (matching_update (fun _ => ⟨rfl, rfl⟩) fun _ _ _ _ => rfl)

/-- Everything that is composed without including partials matches itself with the other renderer,
by induction on how it is composed. -/
theorem matching_composed (hS : Node.Reordering S) {render render' : Renderer}
    (hrender : RendersMatching S e e' render render') {α : Type} {m : Renderer → Render α}
    {V : α → Prop} (h : Material.alone.Composed e m V) :
    Matching S e e' (m render) (m render') (Shared V) := by
  induction h with
  | elementary h => exact matching_elementary hS h
  | fragment scope h =>
    exact (hrender _ _ scope ⟨rfl, .refl hS.refl _⟩ h h).mono
      fun _ _ h => ⟨h, trivial⟩
  | bind _ _ ihm ihk =>
    refine ihm.bind ?_
    rintro a _ ⟨rfl, ha⟩
    exact ihk a ha
  | observe _ ih =>
    refine ih.observe.mono fun r r' h => ⟨?_, trivial⟩
    cases h with
    | ok h => rw [h.1]
    | error h => rw [h]
  | mapFailure g _ ih => exact ih.mapFailure g
  | captured _ ih => exact (matching_captured ih).mono fun _ _ h => ⟨h, trivial⟩
  | inFrame _ ih => exact matching_inFrame ih

/-! ### Definitions -/

/-- Where there is no frame, the first definition fails. -/
theorem outcome_defineInlines_refused (nodes : List Node) {w : World} {cause : Fault}
    (h : ∀ name found, w.side.frames.define name found = .error cause) :
    (defineInlines nodes).outcome w =
      some (if nodes.any Node.isDefinition then .error (.fault cause) else .ok (), w) := by
  induction nodes with
  | nil => rfl
  | cons n rest ih =>
    cases n with
    | inlinePartial place name body marks =>
      show (Render.changeFrames _ >>= fun _ => defineInlines rest).outcome w = _
      rw [outcome_bind, outcome_changeFrames, h]
      rfl
    | _ => exact ih

/-- Reordered lists define the same. -/
theorem matching_defineInlines {nodes nodes' : List Node}
    (h : Node.Reordered S nodes nodes') (hnodes : Node.AllBuiltIn nodes)
    (hnodes' : Node.AllBuiltIn nodes') :
    Matching S e e' (defineInlines nodes) (defineInlines nodes') Eq := by
  intro w w' hw
  have hkept := aside_defineInlines hnodes w
  have hkept' := aside_defineInlines hnodes' w'
  cases hw with
  | @apart frames cache nextTree hdata hframes htemplates hleft hright =>
    -- Frames without an innermost one refuse any definition, whichever comes first.
    rcases hframes.top_or_refused with
      ⟨top, below, top', below', htop, htop', htops, hbelow⟩ | ⟨cause, hrefused, hrefused'⟩
    · -- Otherwise the frames that are left have the same names, maybe in another order.
      obtain ⟨left, hrun, hlookup⟩ := outcome_defineInlines_top nodes htop
      obtain ⟨left', hrun', hlookup'⟩ := outcome_defineInlines_top nodes'
        (w := w.apart frames cache nextTree) htop'
      have hlefts : Frame.Reordered S left left' := by
        intro name
        rw [show left.lookup name = _ from congrFun hlookup name,
          show left'.lookup name = _ from congrFun hlookup' name]
        exact InlinePartial.Reordered.or (h.inlines name) (htops name)
      have hkept := (hkept _ _ hleft hrun).1
      have hkept' := (hkept' _ _ hright hrun').1
      rw [hrun, hrun']
      exact .ends (.ok rfl) (.apart (w := w.withFrames (.stack (left :: below))) hdata
        (.stack (.cons hlefts hbelow)) htemplates hkept hkept')
    · rw [outcome_defineInlines_refused nodes hrefused, outcome_defineInlines_refused nodes'
        (w := w.apart frames cache nextTree) hrefused', h.any_isDefinition]
      refine .ends ?_ (.apart hdata hframes htemplates hleft hright)
      cases nodes'.any Node.isDefinition with
      | true => exact .error rfl
      | false => exact .ok rfl

/-! ### Partials and nodes -/

/-- Templates that are reordered are compiled to fragments that are. -/
theorem compile_fragments {cache cache' : Cache} {name : String}
    (h : Agree Eq (Template.Reordered S) (e.templateAt cache name) (e'.templateAt cache' name))
    (next next' : Nat) :
    Agree Eq (Fragment.Reordered S) ((e.compile cache next name).1.map (·.template.fragment))
      ((e'.compile cache' next' name).1.map (·.template.fragment)) := by
  have hfragment (x : Except Failure Compiled) :
      x.map (·.template.fragment) = (x.map (·.template)).map (·.fragment) := by
    cases x <;> rfl
  rw [hfragment, hfragment, compile_templateAt, compile_templateAt]
  exact .map (h.mono (fun _ _ hf => hf) fun _ _ ht => ⟨ht.place, ht.root⟩)

/-- What stands for a partial on the two sides. -/
def FragmentsPaired (S : List Node → List Node → Prop) (fragment fragment' : Fragment) : Prop :=
  fragment.Reordered S fragment' ∧ Node.AllBuiltIn fragment.nodes ∧ Node.AllBuiltIn fragment'.nodes

section

variable (hS : Node.Reordering S) (he : e.registry.BuiltIn) {l : Loader}

include hS he

omit hS in
theorem matching_compiled (name : String) :
    Matching S e (e.withLoader l) (partialOf.compiled e name)
      (partialOf.compiled (e.withLoader l) name) (FragmentsPaired S) := by
  have hgives (e : Engine) (he : e.registry.BuiltIn) {cache : Cache}
      (hcache : cache.Gives (fun t => Node.AllBuiltIn t.root) fun _ => True) (next : Nat) :=
    Engine.compile_gives (F := fun _ => True) hcache (fun _ _ => trivial)
      (fun name text => Regime.still_parse he e.delimiters name text) next name
  intro w w' hw
  cases hw with
  | @apart frames cache nextTree hdata hframes htemplates hleft hright =>
    obtain ⟨hcache, hmeets⟩ := hgives e he hleft.cache w.nextTree
    obtain ⟨hcache', hmeets'⟩ := hgives (e.withLoader l) he hright.cache nextTree
    have hagree := compile_fragments (htemplates name) w.nextTree nextTree
    have htemplates' (location : String) : Agree Eq (Template.Reordered S)
        (e.templateAt (e.compile w.cache w.nextTree name).2.1 location)
        ((e.withLoader l).templateAt ((e.withLoader l).compile cache nextTree name).2.1
          location) := by
      rw [templateAt_compile, templateAt_compile]
      exact htemplates location
    let after : World := { w with
      cache := (e.compile w.cache w.nextTree name).2.1
      nextTree := (e.compile w.cache w.nextTree name).2.2 }
    have hafter : after.Reordered S e (e.withLoader l) (after.apart frames
        ((e.withLoader l).compile cache nextTree name).2.1
        ((e.withLoader l).compile cache nextTree name).2.2) :=
      .apart hdata hframes htemplates' ⟨hleft.partials, hcache⟩ ⟨hright.partials, hcache'⟩
    have hpaired := hagree.and_meets
      (Meets.map (U := fun fragment : Fragment => Node.AllBuiltIn fragment.nodes) hmeets)
      (Meets.map (U := fun fragment : Fragment => Node.AllBuiltIn fragment.nodes) hmeets')
    exact .ends hpaired hafter

theorem matching_partialOf (name : String) :
    Matching S e (e.withLoader l) (partialOf e name) (partialOf (e.withLoader l) name)
      (FragmentsPaired S) := by
  unfold partialOf
  refine (Matches.read (V := FramesPaired S) fun w w' hw => ?_).bind fun f f' hf => ?_
  · cases hw with
    | apart _ hframes _ hleft hright => exact ⟨hframes, hleft.partials, hright.partials⟩
  have hgiven (f : Frames) : Meets (fun _ => True) (fun top => f.visible = .ok top) f.visible :=
    .of_cases (fun _ h => h) fun _ _ => trivial
  refine (Matches.ofFault (hf.1.visible.and_meets (hgiven f) (hgiven f'))).bind ?_
  rintro top top' ⟨htops, htop, htop'⟩
  -- The innermost frames agree on the name, so either both have nodes for it or both compile.
  have hfound := htops name
  have hbody (body : List Node) (h : top.lookup name = some (.nodes body)) := hf.2.1.lookup htop h
  have hbody' (body : List Node) (h : top'.lookup name = some (.nodes body)) :=
    hf.2.2.lookup htop' h
  generalize top.lookup name = found at hfound hbody ⊢
  generalize top'.lookup name = found' at hfound hbody' ⊢
  cases hfound with
  | none => exact matching_compiled he name
  | some h =>
    cases h with
    | nodes h => exact .pure ⟨⟨rfl, hS.reordered h⟩, hbody _ rfl, hbody' _ rfl⟩
    | foreign v => exact .ite (fun _ => matching_compiled he name) fun _ => .throw _

section

variable {render render' : Renderer}
  (hrender : RendersMatching S e (e.withLoader l) render render') (scope : Scope)

include hrender

theorem matching_renderNode {n : Node} (hn : Node.AllBuiltIn [n]) :
    Matching S e (e.withLoader l) (renderNode e render scope n)
      (renderNode (e.withLoader l) render' scope n) Eq := by
  have L := Material.alone_lawful he
  by_cases hinclusion : n.isInclusion = true
  · cases n with
    | inclusion place name args hash marks =>
      refine .located place ((matching_partialOf hS he name).bind ?_)
      rintro fragment fragment' ⟨hfragment, hleft, hright⟩
      have hbound := L.binds _ (Node.Every.cons_iff.1 hn).1
      rw [Node.TagBinds, Node.tagBound_inclusion] at hbound
      rw [partialScope_withLoader]
      refine (matching_composed hS hrender (Material.composed_partialScope L hbound scope)).bind ?_
      rintro inner _ ⟨rfl, -⟩
      exact hrender fragment fragment' inner hfragment hleft hright
    | _ => cases hinclusion
  · rw [renderNode_withLoader _ _ _ _ (Bool.eq_false_iff.2 hinclusion)]
    exact (matching_composed hS hrender (Material.composed_renderNode L scope
      (Material.whole (fun _ _ => trivial) hn) fun h => absurd h hinclusion)).mono fun _ _ h => h.1

theorem matching_renderNodes {nodes : List Node} (hnodes : Node.AllBuiltIn nodes) :
    Matching S e (e.withLoader l) (renderNodes e render scope nodes)
      (renderNodes (e.withLoader l) render' scope nodes) Eq := by
  induction nodes with
  | nil => exact .pure rfl
  | cons n rest ih =>
    obtain ⟨hn, hrest⟩ :=
      Node.Every.append_iff.1 (show Node.Every _ ([n] ++ rest) from hnodes)
    exact (matching_renderNode hS he hrender scope hn).bind fun _ _ _ => ih hrest

end

omit hS he in
/-- Definitions are not rendered. -/
theorem renderNodes_others (e : Engine) (render : Renderer) (scope : Scope) (nodes : List Node) :
    renderNodes e render scope nodes = renderNodes e render scope (Node.others nodes) := by
  induction nodes with
  | nil => rfl
  | cons n rest ih =>
    cases n with
    | inlinePartial place name body marks =>
      show (Pure.pure () >>= fun _ => renderNodes e render scope rest) = _
      rw [pure_bind, ih]
      rfl
    | _ =>
      show (_ >>= fun _ => renderNodes e render scope rest) = _
      rw [ih]
      rfl

/-- Reordered fragments nested to any depth are rendered alike, by induction on the depth. -/
theorem matching_renderFragment (depth : Nat) :
    RendersMatching S e (e.withLoader l) (renderFragment e depth)
      (renderFragment (e.withLoader l) depth) := by
  induction depth with
  | zero => exact fun _ _ _ _ _ _ => .exhausted
  | succ depth ih =>
    intro fragment fragment' scope h hleft hright
    unfold renderFragment
    -- The definitions come first, and what is rendered then is the same list on both sides.
    rw [← h.place, renderNodes_others, renderNodes_others (e.withLoader l), ← h.nodes.others]
    refine (matching_defineInlines h.nodes hleft hright).bind fun _ _ _ => .located _ ?_
    exact matching_renderNodes hS he ih scope hleft.others

end

end Reordering

end Stencil
