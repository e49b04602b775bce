import Stencil.Proofs.Cache.Giving
import Stencil.Proofs.Helper.Fresh
import Stencil.Proofs.Render.FrameStack
import Stencil.Proofs.Render.Sections

/-!
# Fragments rendered on the way

A step that is given a renderer uses it for the fragments that it comes to: clauses, partials, the
markup of lambdas. It uses it for a fragment exactly if it comes to nothing when the renderer has no
outcome for that fragment, in that scope and from that world. Steps are strict: without an outcome of
one of the fragments that they come to there is none of theirs, and a fragment that they do not come
to makes no difference. Errors that are blamed on a place come out of a step only if they come out of
a fragment that it has come to, because everything else that it does fails with new errors.
-/

namespace Stencil

open Render

/-- A fragment rendered in a scope, from a world on. -/
structure Subrender where
  fragment : Fragment
  scope : Scope
  world : World

namespace Subrender

/-- How a renderer renders it. -/
def outcome (render : Renderer) (c : Subrender) : Option (Except Failure Unit × World) :=
  (render c.fragment c.scope).outcome c.world

/-- A renderer fails on it. -/
def FailsWith (render : Renderer) (f : Failure) (c : Subrender) : Prop :=
  ∃ after, c.outcome render = some (.error f, after)

end Subrender

namespace Renderer

open Classical in
/-- The renderer without an outcome for one fragment in one scope and world. -/
noncomputable def without (render : Renderer) (c : Subrender) : Renderer := fun fragment scope =>
  Render.ofOutcome fun w =>
    if (⟨fragment, scope, w⟩ : Subrender) = c then none else (render fragment scope).outcome w

variable {render : Renderer} {c : Subrender} {fragment : Fragment} {scope : Scope} {w : World}

theorem without_of_eq (h : ⟨fragment, scope, w⟩ = c) :
    (render.without c fragment scope).outcome w = none := if_pos h

theorem without_of_ne (h : (⟨fragment, scope, w⟩ : Subrender) ≠ c) :
    (render.without c fragment scope).outcome w = (render fragment scope).outcome w := if_neg h

end Renderer

/-- A step comes to a fragment: it comes to nothing without. -/
def Reaching {α : Type} (m : Renderer → Render α) (render : Renderer) (w : World)
    (c : Subrender) : Prop :=
  (m (render.without c)).outcome w = none

/-- Every node that a render can come upon in a world satisfies `P`: those of the inline partials,
and those of the templates that the cache gives. -/
structure World.Holding (P : Node → Prop) (w : World) : Prop where
  partials : w.side.frames.Every P
  cache : w.cache.Gives (fun t => Node.Every P t.root) fun _ => True

namespace World.Holding

variable {P : Node → Prop} {w : World}

theorem withFrames (h : w.Holding P) {frames : Frames} (hframes : frames.Every P) :
    (w.withFrames frames).Holding P := ⟨hframes, h.cache⟩

theorem withOutput (h : w.Holding P) (output : String) :
    World.Holding P { w with output } := ⟨h.partials, h.cache⟩

end World.Holding

/-- A fragment of such nodes, in such a world. -/
def Subrender.Holding (P : Node → Prop) (c : Subrender) : Prop :=
  Node.Every P c.fragment.nodes ∧ c.world.Holding P

/-- A renderer that keeps worlds as they should be when it renders such nodes. -/
def Renderer.Holding (P : Node → Prop) (render : Renderer) : Prop :=
  ∀ fragment scope, Node.Every P fragment.nodes →
    (render fragment scope).Keeps (World.Holding P) (fun _ => True) fun _ => True

/-- The failure of a step comes from a fragment that the step has come to. -/
def ComesFrom {α : Type} (m : Renderer → Render α) (render : Renderer) (w : World) (f : Failure) :
    Prop :=
  ∃ c, Reaching m render w c ∧ c.FailsWith render f

/-- What a step does from a world on: the fragments that it comes to are made of known nodes, its
failures satisfy `F` and its results `V`. -/
structure TracedFrom {α : Type} (P : Node → Prop) (m : Renderer → Render α) (F : Failure → Prop)
    (V : α → Prop) (render : Renderer) (w : World) : Prop where
  /-- A fragment that the step does not come to makes no difference. -/
  strict : ∀ c, Reaching m render w c ∨ (m (render.without c)).outcome w = (m render).outcome w
  ends : ∀ r after, (m render).outcome w = some (r, after) →
    after.Holding P ∧ Meets F V r ∧ ∀ c, Reaching m render w c → c.Holding P

/-- With every renderer that keeps worlds as they should be, the failures of a step that are blamed
on a place come from the fragments that it has come to. -/
def Traced {α : Type} (P : Node → Prop) (m : Renderer → Render α) (V : α → Prop) : Prop :=
  ∀ render, Renderer.Holding P render → ∀ w, World.Holding P w →
    TracedFrom P m (fun f => f.IsPlaced → ComesFrom m render w f) V render w

section

variable {α β : Type} {P : Node → Prop} {m : Renderer → Render α} {F G : Failure → Prop}
  {V : α → Prop} {U : β → Prop} {render : Renderer} {w : World}

theorem TracedFrom.mono {W : α → Prop} (h : TracedFrom P m F V render w) (hF : ∀ f, F f → G f)
    (hV : ∀ a, V a → W a) : TracedFrom P m G W render w := by
  refine ⟨h.strict, fun r after hr => ?_⟩
  obtain ⟨hafter, hmeets, hcalls⟩ := h.ends r after hr
  exact ⟨hafter, hmeets.mono hF hV, hcalls⟩

/-- A step that does not use the renderer. -/
theorem TracedFrom.const {x : Render α} (h : x.Keeps (World.Holding P) F V) (hw : w.Holding P) :
    TracedFrom P (fun _ => x) F V render w := by
  refine ⟨fun c => .inr rfl, fun r after hr => ?_⟩
  obtain ⟨hafter, hmeets⟩ := h w r after hw hr
  refine ⟨hafter, hmeets, fun c hc => ?_⟩
  have hnone : x.outcome w = none := hc
  rw [hr] at hnone
  cases hnone

/-- Such a step has to fail with new failures. -/
theorem Traced.const {x : Render α} (h : x.Keeps (World.Holding P) (fun f => ¬f.IsPlaced) V) :
    Traced P (fun _ => x) V := by
  intro render hrender w hw
  exact .const (h.mono (fun f hf hplaced => absurd hplaced hf) fun _ hv => hv) hw

/-- The renderer used for one fragment. -/
theorem Traced.fragment {fragment : Fragment} (h : Node.Every P fragment.nodes) (scope : Scope) :
    Traced P (fun render => render fragment scope) fun _ => True := by
  intro render hrender w hw
  have hself (c : Subrender) (hc : c = ⟨fragment, scope, w⟩) :
      Reaching (fun render => render fragment scope) render w c :=
    Renderer.without_of_eq hc.symm
  refine ⟨fun c => ?_, fun r after hr => ?_⟩
  · by_cases hc : (⟨fragment, scope, w⟩ : Subrender) = c
    · exact .inl (hself c hc.symm)
    · exact .inr (Renderer.without_of_ne hc)
  · obtain ⟨hafter, -⟩ := hrender fragment scope h w r after hw hr
    refine ⟨hafter, .of_cases (fun _ _ => trivial) ?_, fun c hc => ?_⟩
    · rintro f rfl -
      exact ⟨⟨fragment, scope, w⟩, hself _ rfl, after, hr⟩
    · by_cases heq : (⟨fragment, scope, w⟩ : Subrender) = c
      · subst heq
        exact ⟨h, hw⟩
      · have hnone : (render.without c fragment scope).outcome w = none := hc
        rw [Renderer.without_of_ne heq, hr] at hnone
        cases hnone

theorem Traced.ite {p : Prop} [Decidable p] {m' : Renderer → Render α} (hm : p → Traced P m V)
    (hm' : ¬p → Traced P m' V) : Traced P (fun render => if p then m render else m' render) V := by
  by_cases h : p
  · simp only [if_pos h]
    exact hm h
  · simp only [if_neg h]
    exact hm' h

/-! ### Sequences -/

section

variable {k : Renderer → α → Render β} {between : World} {a : α} {c : Subrender} {f : Failure}

/-- A sequence comes to what its first step comes to. -/
theorem Reaching.bind (h : Reaching m render w c) :
    Reaching (fun render => m render >>= k render) render w c := by
  have hnone : (m (render.without c)).outcome w = none := h
  show (m (render.without c) >>= k (render.without c)).outcome w = none
  rw [outcome_bind, hnone]
  rfl

/-- It comes to what its second step comes to, once the first one is done. -/
theorem Reaching.bind_of_ok (h : Reaching (fun render => k render a) render between c)
    (hfirst : TracedFrom P m F V render w) (hr : (m render).outcome w = some (.ok a, between)) :
    Reaching (fun render => m render >>= k render) render w c := by
  rcases hfirst.strict c with hc | hsame
  · exact hc.bind
  · show (m (render.without c) >>= k (render.without c)).outcome w = none
    rw [outcome_bind, hsame, hr]
    exact h

theorem ComesFrom.bind (h : ComesFrom m render w f) :
    ComesFrom (fun render => m render >>= k render) render w f := by
  obtain ⟨c, hc, hfails⟩ := h
  exact ⟨c, hc.bind, hfails⟩

theorem ComesFrom.bind_of_ok (h : ComesFrom (fun render => k render a) render between f)
    (hfirst : TracedFrom P m F V render w) (hr : (m render).outcome w = some (.ok a, between)) :
    ComesFrom (fun render => m render >>= k render) render w f := by
  obtain ⟨c, hc, hfails⟩ := h
  exact ⟨c, hc.bind_of_ok hfirst hr, hfails⟩

/-- It comes to nothing else. -/
theorem TracedFrom.reaching_bind (hm : TracedFrom P m F V render w) {r : Except Failure α}
    (hr : (m render).outcome w = some (r, between))
    (hc : Reaching (fun render => m render >>= k render) render w c) :
    Reaching m render w c ∨ ∃ a, r = .ok a ∧ Reaching (fun render => k render a) render between c := by
  have hnone : (m (render.without c) >>= k (render.without c)).outcome w = none := hc
  rcases hm.strict c with hfirst | hsame
  · exact .inl hfirst
  · rw [hr] at hsame
    cases r with
    | error f => cases (outcome_bind_of_error hsame).symm.trans hnone
    | ok a => exact .inr ⟨a, rfl, (outcome_bind_of_ok hsame).symm.trans hnone⟩

section

variable (hm : TracedFrom P m F V render w)
  (hk : ∀ a between, (m render).outcome w = some (.ok a, between) → between.Holding P → V a →
    TracedFrom P (fun render => k render a) F U render between)

include hm hk

theorem TracedFrom.strict_bind (c : Subrender) :
    Reaching (fun render => m render >>= k render) render w c ∨
      (m (render.without c) >>= k (render.without c)).outcome w =
        (m render >>= k render).outcome w := by
  rcases hm.strict c with hfirst | hsame
  · exact .inl hfirst.bind
  · cases hr : (m render).outcome w with
    | none => exact .inl (Reaching.bind (hsame.trans hr))
    | some found =>
      obtain ⟨r, between⟩ := found
      rw [hr] at hsame
      cases r with
      | error f =>
        exact .inr ((outcome_bind_of_error hsame).trans (outcome_bind_of_error hr).symm)
      | ok a =>
        obtain ⟨hbetween, hmeets, -⟩ := hm.ends _ between hr
        rcases (hk a between hr hbetween (hmeets.of_ok rfl)).strict c with hnext | hnext
        · exact .inl (hnext.bind_of_ok hm hr)
        · exact .inr
            ((outcome_bind_of_ok hsame).trans (hnext.trans (outcome_bind_of_ok hr).symm))

/-- What a sequence does, by how its first step ends. -/
theorem TracedFrom.bind : TracedFrom P (fun render => m render >>= k render) F U render w := by
  refine ⟨hm.strict_bind hk, fun r' after hrun => ?_⟩
  have hrun : (m render >>= k render).outcome w = some (r', after) := hrun
  cases hr : (m render).outcome w with
  | none =>
    rw [outcome_bind, hr] at hrun
    cases hrun
  | some found =>
    obtain ⟨r, between⟩ := found
    obtain ⟨hbetween, hmeets, hcalls⟩ := hm.ends r between hr
    cases hmeets with
    | error hfailure =>
      cases (outcome_bind_of_error hr).symm.trans hrun
      refine ⟨hbetween, .error hfailure, fun c hc => ?_⟩
      rcases hm.reaching_bind hr hc with hfirst | ⟨a, ha, -⟩
      · exact hcalls c hfirst
      · cases ha
    | ok hresult =>
      obtain ⟨hafter, hmeets', hcalls'⟩ := (hk _ between hr hbetween hresult).ends r' after
        ((outcome_bind_of_ok hr).symm.trans hrun)
      refine ⟨hafter, hmeets', fun c hc => ?_⟩
      rcases hm.reaching_bind hr hc with hfirst | ⟨a, ha, hnext⟩
      · exact hcalls c hfirst
      · cases ha
        exact hcalls' c hnext

end

theorem Traced.bind (hm : Traced P m V) (hk : ∀ a, V a → Traced P (fun render => k render a) U) :
    Traced P (fun render => m render >>= k render) U := by
  intro render hrender w hw
  have hfirst := hm render hrender w hw
  have hfailure (f : Failure) (hf : f.IsPlaced → ComesFrom m render w f) :
      f.IsPlaced → ComesFrom (fun render => m render >>= k render) render w f :=
    fun hplaced => (hf hplaced).bind
  refine (hfirst.mono hfailure fun _ hv => hv).bind fun a between hr hbetween ha => ?_
  refine (hk a ha render hrender between hbetween).mono (fun f hf hplaced => ?_) fun _ hu => hu
  exact (hf hplaced).bind_of_ok hfirst hr

end

/-! ### Steps around a step -/

section

variable {m' : Renderer → Render β} {u : World}
  {behind : Except Failure α × World → Except Failure β × World}
  (hm' : ∀ render, (m' render).outcome w = ((m render).outcome u).map behind)

include hm'

/-- A step that begins another one in some world and makes something of how it ends comes to what
that one comes to. -/
theorem reaching_iff_through {c : Subrender} : Reaching m' render w c ↔ Reaching m render u c := by
  unfold Reaching
  rw [hm', Option.map_eq_none_iff]

theorem ComesFrom.through {f : Failure} (h : ComesFrom m render u f) :
    ComesFrom m' render w f := by
  obtain ⟨c, hc, hfails⟩ := h
  exact ⟨c, (reaching_iff_through hm').2 hc, hfails⟩

theorem TracedFrom.through (h : TracedFrom P m F V render u)
    (hworld : ∀ r after, World.Holding P after → (behind (r, after)).2.Holding P)
    (hmeets' : ∀ r after, Meets F V r → Meets G U (behind (r, after)).1) :
    TracedFrom P m' G U render w := by
  refine ⟨fun c => ?_, fun r' after' hr' => ?_⟩
  · rw [reaching_iff_through hm', hm', hm']
    exact (h.strict c).imp id fun hsame => by rw [hsame]
  · rw [hm'] at hr'
    obtain ⟨⟨r, after⟩, hr, hbehind⟩ := Option.map_eq_some_iff.1 hr'
    obtain ⟨hafter, hmeets, hcalls⟩ := h.ends r after hr
    have hafter' := hworld r after hafter
    have hr'' := hmeets' r after hmeets
    rw [hbehind] at hafter' hr''
    exact ⟨hafter', hr'', fun c hc => hcalls c ((reaching_iff_through hm').1 hc)⟩

end

/-- A step whose failure is a result fails not at all. -/
theorem TracedFrom.observe (h : TracedFrom P m F V render w) :
    TracedFrom P (fun render => Render.observe (m render)) G (Meets F V) render w :=
  h.through (fun _ => rfl) (fun _ _ hafter => hafter) fun _ _ hmeets => .ok hmeets

/-- Telling failures in another way makes no error of a place that was none. -/
theorem Traced.mapFailure {g : Failure → Failure} (hg : ∀ f, (g f).IsPlaced → g f = f)
    (h : Traced P m V) : Traced P (fun render => Render.mapFailure g (m render)) V := by
  intro render hrender w hw
  refine (h render hrender w hw).through (fun _ => rfl) (fun _ _ hafter => hafter) ?_
  refine fun r _ hmeets => hmeets.mapError fun f hf hplaced => ?_
  have hsame := hg f hplaced
  rw [hsame] at hplaced ⊢
  exact (hf hplaced).through fun _ => rfl

theorem Traced.captured {m : Renderer → Render Unit} (h : Traced P m fun _ => True) :
    Traced P (fun render => Render.captured (m render)) fun _ => True := by
  intro render hrender w hw
  refine (h render hrender _ (hw.withOutput "")).through (fun _ => rfl)
    (fun r after hafter => hafter.withOutput w.output) fun r after hmeets => ?_
  refine (hmeets.mono (fun f hf hplaced => ?_) fun _ _ => trivial).map
  exact (hf hplaced).through fun _ => rfl

/-- What becomes of the end of a step when the frame that was pushed for it is popped. -/
def Render.popped {α : Type} (ended : Except Failure α × World) : Except Failure α × World :=
  match ended.2.side.frames.pop with
  | .error cause => (.error (.fault cause), ended.2)
  | .ok frames => (ended.1, ended.2.withFrames frames)

theorem outcome_inFrame_of_push {x : Render α} {pushed : Frames}
    (hpush : w.side.frames.push = .ok pushed) :
    (Render.inFrame x).outcome w = (x.outcome (w.withFrames pushed)).map popped := by
  rw [outcome_inFrame, hpush]
  dsimp only
  cases x.outcome (w.withFrames pushed) with
  | none => rfl
  | some ended =>
    rw [Option.bind_some, Option.map_some, popped]
    cases ended.2.side.frames.pop <;> rfl

theorem Traced.inFrame (h : Traced P m V) : Traced P (fun render => Render.inFrame (m render)) V := by
  intro render hrender w hw
  cases hpush : w.side.frames.push with
  | error cause =>
    -- Where no frame can be pushed, the step inside is not begun.
    have hall (render : Renderer) :
        (Render.inFrame (m render)).outcome w = some (.error (.fault cause), w) := by
      rw [outcome_inFrame, hpush]
    refine ⟨fun c => .inr ((hall _).trans (hall _).symm), fun r after hr => ?_⟩
    cases (hall render).symm.trans hr
    refine ⟨hw, .error fun hplaced => hplaced.elim, fun c hc => ?_⟩
    cases (hall _).symm.trans hc
  | ok pushed =>
    have hinside (render : Renderer) : (Render.inFrame (m render)).outcome w =
        ((m render).outcome (w.withFrames pushed)).map popped := outcome_inFrame_of_push hpush
    have hstart := hw.withFrames (hw.partials.push hpush)
    refine (h render hrender _ hstart).through hinside (fun r after hafter => ?_)
      fun r after hmeets => ?_
    · unfold popped
      split
      · exact hafter
      · rename_i frames hpop
        exact hafter.withFrames (hafter.partials.pop hpop)
    · unfold popped
      split
      · exact .error fun hplaced => hplaced.elim
      · exact hmeets.mono (fun f hf hplaced => (hf hplaced).through hinside) fun _ hv => hv

end

end Stencil
