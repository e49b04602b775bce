import Stencil.Proofs.Cache.Giving
import Stencil.Proofs.Render.Composed
import Stencil.Proofs.Render.Subrenders

/-!
# Two renders in worlds that are twins

An argument count could be kept among the data of a render. No reference reads it and the engine does
not, so worlds that differ in it alone are twins: as long as no helper asks for it, what is rendered
in one of them comes to the same in the other. On the way a watch is kept on what comes into the
world: which inline partials are shown, and which data are set.

A render that comes to a fragment has no outcome with a renderer that refuses it. So the fragments
that a render comes to are told by renderers that refuse some, and what is shown of two renders
relates what they come to: where the first refuses every fragment that defines a hidden partial, the
second may refuse every world that shows one.
-/

namespace Stencil

open Render

/-- The data without the argument count. -/
def Bindings.countless (data : Bindings) : Bindings :=
  data.filter fun (n, _) => n != SideChannel.arityName

namespace Bindings

theorem lookup_countless (data : Bindings) {name : String} (h : name ≠ SideChannel.arityName) :
    data.countless.lookup name = data.lookup name := by
  rw [countless, Table.lookup_without, if_neg h]

theorem countless_set (data : Bindings) (name : String) (v : Value) :
    (data.set name v).countless =
      if name = SideChannel.arityName then data.countless else data.countless.set name v := by
  rw [set_eq, set_eq]
  exact Table.without_put _ _ _ _

end Bindings

/-- The world with other data. -/
def World.withData (w : World) (data : Bindings) : World := { w with side := { w.side with data } }

/-- Worlds that differ in the argument count at most. -/
inductive World.Twin (w : World) : World → Prop where
  | intro {data : Bindings} : w.side.data.countless = data.countless → Twin w (w.withData data)

namespace World.Twin

variable {w w' : World}

theorem refl (w : World) : w.Twin w := @intro w w.side.data rfl

theorem symm (h : w.Twin w') : w'.Twin w := by
  cases h with
  | @intro data h => exact .intro (w := w.withData data) h.symm

theorem frames (h : w.Twin w') : w'.side.frames = w.side.frames := by
  cases h
  rfl

/-- References read the same in twins. -/
theorem readable (h : w.Twin w') : w.side.readable = w'.side.readable := by
  have hread (c : SideChannel) : c.readable =
      c.data.countless.filter fun (name, _) => !SideChannel.reserved.contains name := by
    unfold SideChannel.readable Bindings.countless
    rw [List.filter_filter]
    refine List.filter_congr ?_
    rintro ⟨name, v⟩ -
    show (!SideChannel.reserved.contains name) =
      (!SideChannel.reserved.contains name && name != SideChannel.arityName)
    by_cases hname : name = SideChannel.arityName
    · rw [hname]
      rfl
    · rw [bne_iff_ne.2 hname, Bool.and_true]
  cases h with
  | @intro data h =>
    rw [hread, hread]
    exact congrArg _ h

/-- So do requests for anything else. -/
theorem get?_eq (h : w.Twin w') {name : String} (hname : name ≠ SideChannel.arityName) :
    w.side.get? name = w'.side.get? name := by
  cases h with
  | @intro data h =>
    show (if name == _ then _ else w.side.data.lookup name) = if name == _ then _ else data.lookup name
    rw [← w.side.data.lookup_countless hname, h, data.lookup_countless hname]
    rfl

theorem drawn (h : w.Twin w') : w'.drawn = w.drawn := by
  cases h
  rfl

theorem setData (h : w.Twin w') (name : String) (v : Value) :
    World.Twin { w with side := w.side.set name v } { w' with side := w'.side.set name v } := by
  cases h with
  | @intro data h =>
    unfold SideChannel.set
    cases name == SideChannel.framesName with
    | true => exact .intro (w := { w with side := { w.side with frames := .ofValue v } }) h
    | false =>
      refine @intro { w with side := { w.side with data := w.side.data.set name v } }
        (data.set name v) ?_
      show (w.side.data.set name v).countless = _
      rw [Bindings.countless_set, Bindings.countless_set, h]

theorem withFrames (h : w.Twin w') (frames : Frames) :
    (w.withFrames frames).Twin (w'.withFrames frames) := by
  cases h with
  | intro h => exact .intro (w := w.withFrames frames) h

theorem withOutput (h : w.Twin w') (output : String) :
    World.Twin { w with output } { w' with output } := by
  cases h with
  | intro h => exact .intro (w := { w with output }) h

theorem output (h : w.Twin w') : w'.output = w.output := by
  cases h
  rfl

end World.Twin

/-! ### What is watched -/

/-- Frames show a partial: one of them, visible or covered, has it. -/
def Frames.Shows (f : Frames) (name : String) (found : InlinePartial) : Prop :=
  ∃ frame ∈ f.all, (name, found) ∈ frame

namespace Frames

variable {f g : Frames} {name other : String} {found shown : InlinePartial}

theorem not_shows_initial : ¬Frames.initial.Shows name found := by
  rintro ⟨frame, hframe, hmem⟩
  rw [List.mem_singleton.1 hframe] at hmem
  cases hmem

theorem Shows.of_define (hg : f.define name found = .ok g) (h : g.Shows other shown) :
    (other = name ∧ shown = found) ∨ f.Shows other shown := by
  obtain ⟨frame, hframe, hmem⟩ := h
  rcases f with (_ | ⟨top, below⟩) | v
  · cases hg
  · cases hg
    rcases List.mem_cons.1 hframe with rfl | hframe
    · rw [Frame.define_eq] at hmem
      rcases Table.mem_put hmem with heq | hmem
      · cases heq
        exact .inl ⟨rfl, rfl⟩
      · exact .inr ⟨top, List.mem_cons_self, hmem⟩
    · exact .inr ⟨frame, List.mem_cons_of_mem _ hframe, hmem⟩
  · cases hg

theorem Shows.of_push (hg : f.push = .ok g) (h : g.Shows other shown) : f.Shows other shown := by
  obtain ⟨frame, hframe, hmem⟩ := h
  rcases f with (_ | ⟨top, below⟩) | v
  · cases hg
  · cases hg
    rcases List.mem_cons.1 hframe with rfl | hframe
    · exact ⟨_, List.mem_cons_self, hmem⟩
    · exact ⟨frame, hframe, hmem⟩
  · cases hg

theorem Shows.of_pop (hg : f.pop = .ok g) (h : g.Shows other shown) : f.Shows other shown := by
  obtain ⟨frame, hframe, hmem⟩ := h
  rcases f with (_ | ⟨top, _ | ⟨below, rest⟩⟩) | v
  · cases hg
  · cases hg
  · cases hg
    exact ⟨frame, List.mem_cons_of_mem _ hframe, hmem⟩
  · cases hg

end Frames

/-- Requests that leave the names of the engine alone: the argument count is not asked for, the frames
are not overwritten, and data are set under the names `S` only. -/
def Request.Discreet (S : String → Prop) : Request → Prop
  | .data name => name ≠ SideChannel.arityName
  | .setData name _ => name ≠ SideChannel.framesName ∧ S name
  | _ => True

/-- What a render is watched for. -/
structure Watch where
  /-- The names under which helpers may set data. -/
  settable : String → Prop
  /-- The partials that are not to be shown. -/
  hidden : String → InlinePartial → Prop
  /-- The data at the beginning. -/
  start : Bindings

namespace Watch

variable (W : Watch)

/-- What the steps of a render are composed of that define no hidden partial. -/
def material : Material where
  node := Node.TagBinds fun b => b.2.AsksOnly (Request.Discreet W.settable)
  definition name body := ¬W.hidden name (.nodes body)
  request := Request.Discreet W.settable
  inclusions := True

/-- What is true of a world under watch. -/
structure Holds (w : World) : Prop where
  holding : w.Holding W.material.node
  hidden : ∀ name found, w.side.frames.Shows name found → ¬W.hidden name found
  data : ∀ name, ¬W.settable name → w.side.data.lookup name = W.start.lookup name

namespace Holds

variable {W} {w : World}

theorem withFrames (h : W.Holds w) {frames : Frames} (hevery : frames.Every W.material.node)
    (hshown : ∀ name found, frames.Shows name found → w.side.frames.Shows name found) :
    W.Holds (w.withFrames frames) :=
  ⟨h.holding.withFrames hevery, fun name found hfound => h.hidden name found (hshown _ _ hfound),
    h.data⟩

theorem withOutput (h : W.Holds w) (output : String) : W.Holds { w with output } :=
  ⟨h.holding.withOutput output, h.hidden, h.data⟩

/-- A world with the same side channel and cache. -/
theorem of_same (h : W.Holds w) {after : World} (hside : after.side = w.side)
    (hcache : after.cache = w.cache) : W.Holds after := by
  refine ⟨⟨?_, ?_⟩, ?_, ?_⟩
  · rw [hside]
    exact h.holding.partials
  · rw [hcache]
    exact h.holding.cache
  · rw [hside]
    exact h.hidden
  · rw [hside]
    exact h.data

end Holds

/-- What one step comes to in a world under watch, another comes to in every twin of the world, and
the watch goes on. -/
def Follows {α : Type} (m m' : Render α) (V : α → Prop) : Prop :=
  ∀ w w' r after, W.Holds w → w.Twin w' → m.outcome w = some (r, after) →
    (∃ after', m'.outcome w' = some (r, after') ∧ after.Twin after') ∧ W.Holds after ∧
      Meets (fun _ => True) V r

namespace Follows

variable {W} {α β : Type} {m m' : Render α} {V : α → Prop} {U : β → Prop}

/-! ### Rules -/

theorem bind {k k' : α → Render β} (hm : W.Follows m m' V)
    (hk : ∀ a, V a → W.Follows (k a) (k' a) U) : W.Follows (m >>= k) (m' >>= k') U := by
  intro w w' r after hw htwin hr
  rw [outcome_bind, Option.bind_eq_some_iff] at hr
  obtain ⟨⟨r₁, between⟩, hrun, hr⟩ := hr
  obtain ⟨⟨between', hrun', hbetween⟩, hholds, hmeets⟩ := hm w w' r₁ between hw htwin hrun
  cases hmeets with
  | ok ha =>
    obtain ⟨⟨after', hr', hafter⟩, hend⟩ := hk _ ha between between' r after hholds hbetween hr
    exact ⟨⟨after', (outcome_bind_of_ok hrun').trans hr', hafter⟩, hend⟩
  | error =>
    cases hr
    exact ⟨⟨between', outcome_bind_of_error hrun', hbetween⟩, hholds, .error trivial⟩

theorem observe (hm : W.Follows m m' V) :
    W.Follows (Render.observe m) (Render.observe m') fun _ => True := by
  intro w w' r after hw htwin hr
  obtain ⟨⟨r₁, _⟩, hrun, hr⟩ := Option.map_eq_some_iff.1 hr
  cases hr
  obtain ⟨⟨after', hrun', hafter⟩, hholds, -⟩ := hm w w' r₁ after hw htwin hrun
  refine ⟨⟨after', ?_, hafter⟩, hholds, .ok trivial⟩
  rw [Render.observe, outcome_ofOutcome, hrun']
  rfl

theorem mapFailure (g : Failure → Failure) (hm : W.Follows m m' V) :
    W.Follows (Render.mapFailure g m) (Render.mapFailure g m') V := by
  intro w w' r after hw htwin hr
  obtain ⟨⟨r₁, _⟩, hrun, hr⟩ := Option.map_eq_some_iff.1 hr
  cases hr
  obtain ⟨⟨after', hrun', hafter⟩, hholds, hmeets⟩ := hm w w' r₁ after hw htwin hrun
  refine ⟨⟨after', ?_, hafter⟩, hholds, hmeets.mapError fun _ _ => trivial⟩
  rw [Render.mapFailure, outcome_ofOutcome, hrun']
  rfl

theorem captured {m m' : Render Unit} {V : Unit → Prop} (hm : W.Follows m m' V) :
    W.Follows (Render.captured m) (Render.captured m') fun _ => True := by
  intro w w' r after hw htwin hr
  obtain ⟨⟨r₁, end₁⟩, hrun, hr⟩ := Option.map_eq_some_iff.1 hr
  cases hr
  obtain ⟨⟨end₂, hrun', hafter⟩, hholds, -⟩ :=
    hm _ _ r₁ end₁ (hw.withOutput "") (htwin.withOutput "") hrun
  refine ⟨⟨{ end₂ with output := w.output }, ?_, hafter.withOutput _⟩, hholds.withOutput _,
    .of_cases (fun _ _ => trivial) fun _ _ => trivial⟩
  rw [Render.captured, outcome_ofOutcome, hrun', htwin.output, Option.map_some]
  dsimp only
  rw [hafter.output]

theorem inFrame (hm : W.Follows m m' V) :
    W.Follows (Render.inFrame m) (Render.inFrame m') V := by
  intro w w' r after hw htwin hr
  cases hpush : w.side.frames.push with
  | error cause =>
    rw [outcome_inFrame, hpush] at hr
    cases hr
    refine ⟨⟨w', ?_, htwin⟩, hw, .error trivial⟩
    rw [outcome_inFrame, htwin.frames, hpush]
  | ok pushed =>
    rw [outcome_inFrame_of_push hpush] at hr
    obtain ⟨⟨r₁, inner⟩, hrun, hr⟩ := Option.map_eq_some_iff.1 hr
    have hstart := hw.withFrames (hw.holding.partials.push hpush) fun _ _ h => h.of_push hpush
    obtain ⟨⟨inner', hrun', hinner⟩, hholds, hmeets⟩ :=
      hm _ _ r₁ inner hstart (htwin.withFrames pushed) hrun
    have hpush' : w'.side.frames.push = .ok pushed := by rw [htwin.frames, hpush]
    rw [outcome_inFrame_of_push hpush', hrun', Option.map_some]
    unfold popped at hr ⊢
    dsimp only at hr ⊢
    rw [hinner.frames]
    cases hpop : inner.side.frames.pop with
    | error cause =>
      rw [hpop] at hr
      cases hr
      exact ⟨⟨inner', rfl, hinner⟩, hholds, .error trivial⟩
    | ok frames =>
      rw [hpop] at hr
      cases hr
      exact ⟨⟨_, rfl, hinner.withFrames frames⟩,
        hholds.withFrames (hholds.holding.partials.pop hpop) fun _ _ h => h.of_pop hpop, hmeets⟩

/-! ### Elementary steps -/

/-- A step that only reads what is the same in twins. -/
theorem read {f : World → α} (h : ∀ w w', w.Twin w' → f w = f w') (hV : ∀ w, W.Holds w → V (f w)) :
    W.Follows (Render.read f) (Render.read f) V := by
  intro w w' r after hw htwin hr
  cases hr
  exact ⟨⟨w', congrArg (fun a => some (Except.ok a, w')) (h w w' htwin).symm, htwin⟩, hw,
    .ok (hV w hw)⟩

/-- A step that changes neither the side channel nor the cache, and does not look at the data. -/
theorem update {f : World → World} (hside : ∀ w, (f w).side = w.side)
    (hcache : ∀ w, (f w).cache = w.cache)
    (hdata : ∀ w data, f (w.withData data) = (f w).withData data) :
    W.Follows (Render.update f) (Render.update f) fun _ => True := by
  intro w w' r after hw htwin hr
  cases hr
  refine ⟨⟨f w', rfl, ?_⟩, hw.of_same (hside w) (hcache w), .ok trivial⟩
  cases htwin with
  | @intro data htwin =>
    rw [hdata]
    rw [← hside w] at htwin
    exact .intro htwin

theorem pure {a : α} (h : V a) : W.Follows (Pure.pure a) (Pure.pure a) V := by
  intro w w' r after hw htwin hr
  cases hr
  exact ⟨⟨w', rfl, htwin⟩, hw, .ok h⟩

theorem throw (f : Failure) :
    W.Follows (MonadExcept.throw f : Render α) (MonadExcept.throw f) V := by
  intro w w' r after hw htwin hr
  cases hr
  exact ⟨⟨w', rfl, htwin⟩, hw, .error trivial⟩

theorem get (scope : Scope) (reference : String) :
    W.Follows (Render.get scope reference) (Render.get scope reference) fun _ => True := by
  intro w w' r after hw htwin hr
  rw [outcome_get] at hr
  obtain ⟨rfl, rfl⟩ := Prod.mk.inj (Option.some.inj hr)
  refine ⟨⟨w', ?_, htwin⟩, hw, .of_cases (fun _ _ => trivial) fun _ _ => trivial⟩
  rw [outcome_get, htwin.readable]

theorem drawn : W.Follows (Render.read (·.drawn)) (Render.read (·.drawn)) fun _ => True :=
  .read (fun _ _ h => h.drawn.symm) fun _ _ => trivial

theorem display (v : Value) : W.Follows (Render.display v) (Render.display v) fun _ => True := by
  unfold Render.display
  refine drawn.bind fun known _ => ?_
  cases v.display known with
  | error cause => exact .throw (.fault cause)
  | ok found =>
    refine .bind (V := fun _ => True) (.pure trivial) fun found _ => ?_
    exact .bind (V := fun _ => True) (update (fun _ => rfl) (fun _ => rfl) fun _ _ => rfl)
      fun _ _ => .pure trivial

theorem items (v : Value) : W.Follows (Render.items v) (Render.items v) fun _ => True := by
  cases v with
  | iterator label found =>
    refine drawn.bind fun known _ => ?_
    split
    · exact .pure trivial
    · exact .bind (V := fun _ => True) (update (fun _ => rfl) (fun _ => rfl) fun _ _ => rfl)
        fun _ _ => .pure trivial
  | _ => exact .pure trivial

theorem freshLabel : W.Follows Render.freshLabel Render.freshLabel fun _ => True := by
  intro w w' r after hw htwin hr
  cases hr
  refine ⟨⟨{ w' with nextLabel := w'.nextLabel + 1 }, ?_, ?_⟩, hw.of_same rfl rfl, .ok trivial⟩
  · cases htwin
    rfl
  · cases htwin with
    | intro htwin => exact .intro (w := { w with nextLabel := w.nextLabel + 1 }) htwin

theorem define {name : String} {body : List Node} (hname : ¬W.hidden name (.nodes body))
    (hbody : Node.Every W.material.node body) :
    W.Follows (Render.changeFrames (Frames.define name (.nodes body)))
      (Render.changeFrames (Frames.define name (.nodes body))) fun _ => True := by
  intro w w' r after hw htwin hr
  rw [outcome_changeFrames] at hr
  cases hdefine : w.side.frames.define name (.nodes body) with
  | error cause =>
    rw [hdefine] at hr
    cases hr
    refine ⟨⟨w', ?_, htwin⟩, hw, .error trivial⟩
    rw [outcome_changeFrames, htwin.frames, hdefine]
  | ok frames =>
    rw [hdefine] at hr
    cases hr
    refine ⟨⟨w'.withFrames frames, ?_, htwin.withFrames frames⟩, ⟨?_, ?_, hw.data⟩, .ok trivial⟩
    · rw [outcome_changeFrames, htwin.frames, hdefine]
    · exact hw.holding.withFrames (hw.holding.partials.define hbody hdefine)
    · intro other found hshown
      rcases hshown.of_define hdefine with ⟨rfl, rfl⟩ | hbefore
      · exact hname
      · exact hw.hidden other found hbefore

theorem setData {name : String} (hname : name ≠ SideChannel.framesName ∧ W.settable name)
    (v : Value) : W.Follows (Render.update fun w => { w with side := w.side.set name v })
      (Render.update fun w => { w with side := w.side.set name v }) fun _ => True := by
  intro w w' r after hw htwin hr
  cases hr
  have hset : w.side.set name v = { w.side with data := w.side.data.set name v } := by
    unfold SideChannel.set
    rw [beq_eq_false_iff_ne.2 hname.1]
    rfl
  refine ⟨⟨_, rfl, htwin.setData name v⟩, ?_, .ok trivial⟩
  show W.Holds { w with side := w.side.set name v }
  rw [hset]
  refine ⟨⟨hw.holding.partials, hw.holding.cache⟩, hw.hidden, fun other hother => ?_⟩
  show (w.side.data.set name v).lookup other = _
  have hne : other ≠ name := by
    rintro rfl
    exact hother hname.2
  rw [Bindings.set_eq, Table.lookup_put, if_neg hne]
  exact hw.data other hother

/-- What is compiled through the cache does not depend on the data. -/
theorem compiled {e : Engine} (hparse : ∀ marks name text t, e.parse marks name text = .ok t →
    Node.Every W.material.node t.root) (name : String) :
    W.Follows (partialOf.compiled e name) (partialOf.compiled e name) fun fragment =>
      Node.Every W.material.node fragment.nodes := by
  intro w w' r after hw htwin hr
  cases hr
  obtain ⟨hcache, hmeets⟩ := Engine.compile_gives (F := fun _ => True) hw.holding.cache
    (fun _ _ => trivial)
    (fun name text => .of_cases (fun t ht => hparse e.delimiters name text t ht)
      fun _ _ => trivial) w.nextTree name
  refine ⟨?_, ⟨⟨hw.holding.partials, hcache⟩, hw.hidden, hw.data⟩, ?_⟩
  · cases htwin with
    | @intro data htwin =>
      exact ⟨_, rfl, .intro (w := { w with
        cache := (e.compile w.cache w.nextTree name).2.1
        nextTree := (e.compile w.cache w.nextTree name).2.2 }) htwin⟩
  · exact Meets.map
      (U := fun fragment : Fragment => Node.Every W.material.node fragment.nodes) hmeets

end Follows

variable {W} {e : Engine}

/-- Elementary steps of the material are followed by themselves. -/
theorem follows_of_elementary (L : W.material.Lawful e) {α : Type} {m : Render α} {V : α → Prop}
    (h : W.material.Elementary e m V) : W.Follows m m V := by
  cases h with
  | pure h => exact .pure h
  | throw f => exact .throw f
  | get scope reference => exact .get scope reference
  | display v => exact .display v
  | items v => exact .items v
  | freshLabel => exact .freshLabel
  | emit | note => exact .update (fun _ => rfl) (fun _ => rfl) fun _ _ => rfl
  | log level message =>
    cases level == 0 with
    | true => exact .update (fun _ => rfl) (fun _ => rfl) fun _ _ => rfl
    | false => exact .update (fun _ => rfl) (fun _ => rfl) fun _ _ => rfl
  | partials => exact .read (fun w w' h => h.frames.symm) fun w hw => hw.holding.partials
  | define hname hbody => exact .define hname hbody
  | compiled name => exact .compiled L.parse name
  | data hname => exact .read (fun w w' h => h.get?_eq hname) fun _ _ => trivial
  | setData hname => exact .setData hname _
  | frames =>
    refine .read (fun w w' h => ?_) fun _ _ => trivial
    rw [h.frames]

/-- A renderer is followed by another on all fragments of the material. -/
def RendersAlike (W : Watch) (render render' : Renderer) : Prop :=
  ∀ fragment scope, Node.Every W.material.node fragment.nodes →
    W.Follows (render fragment scope) (render' fragment scope) fun _ => True

/-- So is everything that is composed of the material, by induction on how it is composed. -/
theorem follows_of_composed (L : W.material.Lawful e) {render render' : Renderer}
    (hrender : W.RendersAlike render render') {α : Type} {m : Renderer → Render α} {V : α → Prop}
    (h : W.material.Composed e m V) : W.Follows (m render) (m render') V := by
  induction h with
  | elementary h => exact follows_of_elementary L h
  | fragment scope h => exact hrender _ scope h
  | bind _ _ ihm ihk => exact ihm.bind ihk
  | observe _ ih => exact ih.observe
  | mapFailure g _ ih => exact ih.mapFailure g
  | captured _ ih => exact ih.captured
  | inFrame _ ih => exact ih.inFrame

end Watch

/-! ### Renderers that refuse fragments -/

open Classical in
/-- Fragments are rendered as they are, but there is no outcome once it comes to one of `X`. -/
noncomputable def renderRefusing (e : Engine) (X : Subrender → Prop) : Nat → Renderer
  | 0, _, _ => Render.exhausted
  | depth + 1, fragment, scope => Render.ofOutcome fun w =>
    if X ⟨fragment, scope, w⟩ then none
    else
      Render.outcome (do
        defineInlines fragment.nodes
        Render.located fragment.place
          (renderNodes e (renderRefusing e X depth) scope fragment.nodes)) w

/-- Nothing is refused where nothing is to be. -/
theorem renderRefusing_nothing (e : Engine) {X : Subrender → Prop} (hX : ∀ c, ¬X c) (depth : Nat) :
    renderRefusing e X depth = renderFragment e depth := by
  induction depth with
  | zero => rfl
  | succ depth ih =>
    funext fragment scope
    refine Render.ext fun w => ?_
    rw [renderRefusing, outcome_ofOutcome, if_neg (hX _), ih, renderFragment]

namespace Watch

variable {W : Watch} {e : Engine}

/-- A renderer that refuses every fragment with a definition that is hidden is followed by one that
refuses only worlds that are not under watch, by induction on how deep fragments nest. -/
theorem renderRefusing_alike (L : W.material.Lawful e) {X Y : Subrender → Prop}
    (hX : ∀ c : Subrender, ¬X c → Node.Every W.material.Defines c.fragment.nodes)
    (hY : ∀ (fragment : Fragment) (scope : Scope) (w w' : World), W.Holds w → w.Twin w' →
      ¬Y ⟨fragment, scope, w'⟩) (depth : Nat) :
    W.RendersAlike (renderRefusing e X depth) (renderRefusing e Y depth) := by
  induction depth with
  | zero =>
    intro fragment scope _ w w' r after _ _ hr
    cases hr
  | succ depth ih =>
    intro fragment scope hnodes w w' r after hw htwin hr
    rw [renderRefusing, outcome_ofOutcome] at hr
    by_cases hrefused : X ⟨fragment, scope, w⟩
    · rw [if_pos hrefused] at hr
      cases hr
    · rw [if_neg hrefused] at hr
      have hcomposed := Material.composed_fragment L trivial fragment scope
        ⟨hnodes, hX _ hrefused⟩
      rw [renderRefusing, outcome_ofOutcome, if_neg (hY fragment scope w w' hw htwin)]
      exact follows_of_composed L ih hcomposed w w' r after hw htwin hr

end Watch

end Stencil
