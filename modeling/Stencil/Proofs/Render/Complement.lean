import Stencil.Proofs.Render.Nesting

/-!
# Sections and inverted sections

A section without a helper of its own is taken by `each`, `if` or `with`, whatever its value asks for;
an inverted one by `unless`. The four helpers decide in ways of their own, but for one kind of value
they decide alike: what has entries to go through is not empty, what is true is not empty either, and
what is entered neither. Only an iterator with nothing left is neither gone through nor empty.
-/

namespace Stencil

open Render

/-- A section has its body rendered, at least once. -/
def RendersBody (e : Engine) (render : Renderer) (scope : Scope) (head : BlockHead)
    (body : List Node) (inverse : Fragment) (w : World) : Prop :=
  ∃ told called inner asked, CallsHelper e render scope head body w told called ∧
    told.body = ⟨none, body⟩ ∧
    (told.helper.act told.subject told.call).Asks
      (answer e render told.call ⟨told.body, inverse, true⟩) called (.render .body inner) asked

/-- The helpers for sections are there under their names. -/
def Engine.HasSections (e : Engine) : Prop :=
  ∀ which ∈ [Builtin.each, .branch, .negate, .enter],
    ∃ helper, e.registry.lookup which.name = some helper ∧ helper.behaviour = .builtin which

/-- The helper that takes the value of a section without a helper of its own, unless it is a
lambda. -/
def Builtin.forValue (inverted : Bool) (v : Value) : Builtin :=
  if inverted then .negate
  else if v.isIterable then .each
  else
    match v with
    | .bool _ => .branch
    | _ => .enter

theorem Builtin.forValue_mem (inverted : Bool) (v : Value) :
    forValue inverted v ∈ [Builtin.each, .branch, .negate, .enter] := by
  unfold forValue
  split
  · simp
  · split
    · simp
    · split <;> simp

/-- Iterators with nothing left: empty ones, and those that have been drawn. -/
def Value.Exhausted (drawn : List Label) : Value → Prop
  | .iterator label items => items = [] ∨ label ∈ drawn
  | _ => False

/-! ### The two decisions -/

section

variable {v : Value} {call call' : Call} {w w' : World}

theorem Builtin.not_negate_iff :
    ¬Builtin.negate.Accepts v call w ↔ call.isFalsy v = false := by
  show ¬call.isFalsy v = true ↔ _
  simp

/-- There are entries to go through exactly when there are items. -/
theorem Builtin.each_accepts_iff (hiterable : v.isIterable = true) :
    Builtin.each.Accepts v call w ↔
      ∃ found after, (Render.items v).outcome w = some (.ok found, after) ∧ found ≠ [] := by
  constructor
  · rintro ⟨entries, hthrough, hentries⟩
    cases hthrough with
    | mapping hv =>
      subst hv
      cases hiterable
    | @items found after _ hfound =>
      refine ⟨found, after, hfound, ?_⟩
      rintro rfl
      exact hentries rfl
  · rintro ⟨found, after, hfound, hne⟩
    refine ⟨_, .items hiterable hfound, ?_⟩
    intro hnil
    apply hne
    simpa [Builtin.numbered] using hnil

/-- What is iterated over has items exactly when it is not empty, unless it is an iterator with
nothing left. -/
theorem Value.items_iff (hiterable : v.isIterable = true) (hleft : ¬v.Exhausted w.drawn) :
    (∃ found after, (Render.items v).outcome w = some (.ok found, after) ∧ found ≠ []) ↔
      v.isEmpty false = false := by
  have hknown (label : Label) (items : List Value)
      (hv : v = .list label items ∨ v = .tuple label items) :
      (∃ found after, (Render.items v).outcome w = some (.ok found, after) ∧ found ≠ []) ↔
        v.isEmpty false = false := by
    have hitems : (Render.items v).outcome w = some (.ok items, w) := by
      rcases hv with rfl | rfl <;> rfl
    have hempty : v.isEmpty false = items.isEmpty := by
      rcases hv with rfl | rfl <;> rfl
    rw [hitems, hempty]
    simp
  cases v with
  | list label items => exact hknown label items (.inl rfl)
  | tuple label items => exact hknown label items (.inr rfl)
  | iterator label items =>
    have hfresh : ¬(items = [] ∨ label ∈ w.drawn) := hleft
    rw [not_or] at hfresh
    have hitems : (Render.items (.iterator label items)).outcome w =
        some (.ok items, { w with drawn := label :: w.drawn }) := by
      unfold Render.items
      rw [outcome_bind, Render.read, outcome_ofOutcome]
      simp only [Option.bind_some]
      rw [if_neg (by simpa using hfresh.2)]
      rfl
    rw [hitems]
    constructor
    · intro _
      rfl
    · intro _
      exact ⟨items, _, rfl, hfresh.1⟩
  | _ => cases hiterable

/-- Of the helper that takes a value and `unless`, exactly one accepts it. -/
theorem Builtin.forValue_accepts_iff (hcall : call.hash = []) (hcall' : call'.hash = [])
    (hleft : ¬v.Exhausted w.drawn) :
    (forValue false v).Accepts v call w ↔ ¬Builtin.negate.Accepts v call' w' := by
  have hfalsy : call.isFalsy v = v.isEmpty false := by
    unfold Call.isFalsy
    rw [hcall]
    rfl
  have hfalsy' : call'.isFalsy v = v.isEmpty false := by
    unfold Call.isFalsy
    rw [hcall']
    rfl
  rw [Builtin.not_negate_iff, hfalsy']
  unfold forValue
  rw [if_neg Bool.false_ne_true]
  by_cases hiterable : v.isIterable = true
  · rw [if_pos hiterable, Builtin.each_accepts_iff hiterable]
    exact Value.items_iff hiterable hleft
  · rw [if_neg hiterable, ← hfalsy]
    split <;> rfl

/-- An iterator with nothing left is accepted by neither. -/
theorem Builtin.not_accepts_of_exhausted (inverted : Bool) (hcall : call.hash = [])
    (hnone : v.Exhausted w.drawn) : ¬(forValue inverted v).Accepts v call w := by
  cases v with
  | iterator label items =>
    cases inverted with
    | true =>
      intro h
      have hfalsy : call.isFalsy (.iterator label items) = true := h
      unfold Call.isFalsy at hfalsy
      rw [hcall] at hfalsy
      cases hfalsy
    | false =>
      intro h
      obtain ⟨found, after, hfound, hne⟩ := (Builtin.each_accepts_iff rfl).1 h
      unfold Render.items at hfound
      rw [outcome_bind, Render.read, outcome_ofOutcome] at hfound
      simp only [Option.bind_some] at hfound
      split at hfound
      · cases hfound
        exact hne rfl
      · rename_i hdrawn
        have hitems : items = [] := hnone.resolve_right (by simpa using hdrawn)
        cases hfound
        exact hne hitems
  | _ => exact hnone.elim

end

/-! ### The helper of a section that is called by a name -/

section

variable {e : Engine} (render : Renderer) (scope : Scope) (head : BlockHead)

/-- Unless the value is a lambda, the body of the section is what is rendered. -/
theorem treatment_forValue {subject : Value} (hvalue : subject.isLambda = false)
    (body : List Node) : ∃ treated : Treatment, treatment e scope head body subject = pure treated ∧
      treated.helper = .forValue head.inverted subject ∧ treated.body = ⟨none, body⟩ := by
  unfold treatment Builtin.forValue
  cases head.inverted with
  | true => exact ⟨_, rfl, rfl, rfl⟩
  | false =>
    cases subject with
    | lambda | pathLambda => cases hvalue
    | _ => exact ⟨_, rfl, rfl, rfl⟩

/-- Where nothing is registered for missing names, a section gets the helper that it looks for. -/
theorem implicitHelper_of_lax (hlax : e.missing? = none) {which : Builtin} {helper : Helper}
    (hlookup : e.registry.lookup which.name = some helper) (v : Value) :
    implicitHelper e head which v = pure (helper, which.name) := by
  unfold implicitHelper
  rw [hlax, hlookup]
  cases v.isNull <;> rfl

variable {scope head}

variable (hsections : e.HasSections) (hlax : e.missing? = none) {name : String}
  (hname : head.call = { name }) {w : World} {v : Value}
  (hv : scope.get w.side.readable name = .ok v)
  (hvalue : (e.transformer.apply w.nextLabel v).isLambda = false)

include hsections hlax hname hv hvalue

/-- A section that is called by the name of a value is taken by the helper for the value. -/
theorem sectionCall_named (body : List Node) :
    ∃ told, (sectionCall e render scope head body).outcome w =
        some (.ok told, { w with nextLabel := w.nextLabel + 1 }) ∧
      told.subject = e.transformer.apply w.nextLabel v ∧ told.body = ⟨none, body⟩ ∧
      told.call.hash = [] ∧
      told.helper.behaviour = .builtin (.forValue head.inverted told.subject) := by
  have hget : (Render.get scope name).outcome w = some (.ok v, w) := by
    rw [outcome_get, hv]
  have hsubject : (transform e v).outcome w =
      some (.ok (e.transformer.apply w.nextLabel v), { w with nextLabel := w.nextLabel + 1 }) := rfl
  obtain ⟨treated, htreated, hwhich, hbody⟩ := treatment_forValue (e := e) scope head hvalue body
  obtain ⟨helper, hlookup, hbehaviour⟩ := hsections _ (Builtin.forValue_mem head.inverted
    (e.transformer.apply w.nextLabel v))
  have himplicit := implicitHelper_of_lax head hlax hlookup (e.transformer.apply w.nextLabel v)
  rw [← hwhich] at himplicit
  let call : Call := ⟨treated.helper.name, .block, treated.scope, [], [], head.blockParams, 0⟩
  refine ⟨⟨helper, e.transformer.apply w.nextLabel v, call, treated.body⟩, ?_, rfl, hbody, rfl,
    hbehaviour⟩
  unfold sectionCall
  rw [hname]
  dsimp only
  rw [outcome_bind_of_ok hget, outcome_bind_of_ok hsubject, htreated, pure_bind, himplicit,
    pure_bind]
  rfl

/-- Such a section comes to call that helper wherever inline partials can be defined: neither its
frame nor its inline partials change what it finds out. -/
theorem callsHelper_named {partials : Partials} (hpartials : w.side.frames.shown = .ok partials)
    (body : List Node) :
    ∃ told called, CallsHelper e render scope head body w told called ∧ called.drawn = w.drawn ∧
      told.subject = e.transformer.apply w.nextLabel v ∧ told.body = ⟨none, body⟩ ∧
      told.call.hash = [] ∧
      told.helper.behaviour = .builtin (.forValue head.inverted told.subject) := by
  obtain ⟨known, pushed, hknown, hpush, hpushed⟩ | ⟨cause, hcause, -⟩ := w.side.frames.push_eq
  case inr =>
    rw [hpartials] at hcause
    cases hcause
  obtain ⟨frames, hdefine, -⟩ := outcome_defineInlines body (w := w.withFrames pushed) hpushed
  have hplaced : head.placed.call = { name } := by
    rw [BlockHead.placed, hname]
    rfl
  obtain ⟨told, htold, hsubject, hrest⟩ := sectionCall_named render
    (w := (w.withFrames pushed).withFrames frames) hsections hlax hplaced hv hvalue body
  exact ⟨told, _, ⟨pushed, _, hpush, hdefine, htold⟩, rfl, hsubject, hrest⟩

/-- A section that is called by the name of a value renders its body exactly when the helper for the
value accepts it. -/
theorem rendersBody_iff {partials : Partials} (hpartials : w.side.frames.shown = .ok partials)
    (body : List Node) (inverse : Fragment) :
    ∃ call called, Call.hash call = [] ∧ World.drawn called = w.drawn ∧
      (RendersBody e render scope head body inverse w ↔
        (Builtin.forValue head.inverted (e.transformer.apply w.nextLabel v)).Accepts
          (e.transformer.apply w.nextLabel v) call called) := by
  obtain ⟨told, called, hcalls, hdrawn, hsubject, hbody, hhash, hbehaviour⟩ :=
    callsHelper_named render hsections hlax hname hv hvalue hpartials body
  have hact : told.helper.act told.subject told.call =
      (Builtin.forValue head.inverted told.subject).act told.subject told.call := by
    unfold Helper.act
    rw [hbehaviour]
  have haccepts : (∃ inner asked, (told.helper.act told.subject told.call).Asks
      (answer e render told.call ⟨told.body, inverse, true⟩) called (.render .body inner) asked) ↔
        (Builtin.forValue head.inverted told.subject).Accepts told.subject told.call called := by
    rw [hact]
    exact Builtin.asks_body_iff
  refine ⟨told.call, called, hhash, hdrawn, ?_⟩
  rw [← hsubject, ← haccepts]
  constructor
  · rintro ⟨told', called', inner, asked, hcalls', -, hasks⟩
    obtain ⟨rfl, rfl⟩ := hcalls.unique hcalls'
    exact ⟨inner, asked, hasks⟩
  · rintro ⟨inner, asked, hasks⟩
    exact ⟨told, called, inner, asked, hcalls, hbody, hasks⟩

/-- Where the value is an iterator with nothing left, the body is not rendered, inverted or not. -/
theorem not_rendersBody_of_exhausted {partials : Partials}
    (hpartials : w.side.frames.shown = .ok partials)
    (hnone : (e.transformer.apply w.nextLabel v).Exhausted w.drawn) (body : List Node)
    (inverse : Fragment) : ¬RendersBody e render scope head body inverse w := by
  obtain ⟨call, called, hhash, hdrawn, hbody⟩ :=
    rendersBody_iff render hsections hlax hname hv hvalue hpartials body inverse
  rw [← hdrawn] at hnone
  rw [hbody]
  exact Builtin.not_accepts_of_exhausted head.inverted hhash hnone

end

/-- Sections and inverted sections are complementary for all values but one: where the name is no
helper and its value neither a lambda nor an iterator with nothing left, the section renders its body,
at least once, exactly when the inverted section does not render its own. -/
theorem section_iff_not_inverted {e : Engine} (hsections : e.HasSections)
    (hlax : e.missing? = none) (render : Renderer) (scope : Scope) {name : String}
    {plain inverted : BlockHead} (hplain : plain.call = { name })
    (hpositive : plain.inverted = false) (hinverted : inverted.call = { name })
    (hnegative : inverted.inverted = true) (body body' : List Node) (inverse inverse' : Fragment)
    {w : World} {partials : Partials} (hpartials : w.side.frames.shown = .ok partials) {v : Value}
    (hv : scope.get w.side.readable name = .ok v)
    (hvalue : (e.transformer.apply w.nextLabel v).isLambda = false)
    (hleft : ¬(e.transformer.apply w.nextLabel v).Exhausted w.drawn) :
    RendersBody e render scope plain body inverse w ↔
      ¬RendersBody e render scope inverted body' inverse' w := by
  obtain ⟨call, called, hhash, hdrawn, hbody⟩ :=
    rendersBody_iff render hsections hlax hplain hv hvalue hpartials body inverse
  obtain ⟨call', called', hhash', -, hbody'⟩ :=
    rendersBody_iff render hsections hlax hinverted hv hvalue hpartials body' inverse'
  rw [hpositive] at hbody
  rw [hnegative] at hbody'
  rw [← hdrawn] at hleft
  rw [hbody, hbody']
  exact Builtin.forValue_accepts_iff hhash hhash' hleft

theorem Engine.HasSections.standard : Engine.standard.HasSections := by
  intro which hwhich
  simp only [List.mem_cons, List.not_mem_nil, or_false] at hwhich
  rcases hwhich with rfl | rfl | rfl | rfl <;> exact ⟨_, rfl, rfl⟩

/-- The section of a name, inverted or not. -/
def namedSection (inverted : Bool) (name : String) : BlockHead :=
  { place := none, inverted, call := { name }, blockParams := [], label := .word, elsePlace := none,
    delimiters := .standard }

theorem section_iff_not_inverted_pair :
    pairScope.get ({} : World).side.readable "xs" = .ok (.list 1 [.text "a", .text "b"]) ∧
      (RendersBody .standard (renderFragment .standard 3) pairScope (namedSection false "xs")
          [.text none "A"] {} {} ↔
        ¬RendersBody .standard (renderFragment .standard 3) pairScope (namedSection true "xs")
          [.text none "B"] {} {}) := by
  refine ⟨rfl, ?_⟩
  have hpair : pairScope.get ({} : World).side.readable "xs" =
      .ok (.list 1 [.text "a", .text "b"]) := rfl
  have hleft : ¬(Engine.standard.transformer.apply 0 (.list 1 [.text "a", .text "b"])).Exhausted
      [] := fun h => h
  exact section_iff_not_inverted Engine.HasSections.standard rfl _ _ rfl rfl rfl rfl _ _ _ _
    (w := {}) rfl hpair rfl hleft

/-- Data in which `x` is an iterator over nothing. -/
def drainedScope : Scope := .ofModel (.map 0 [(.text "x", .iterator 1 [])]) Resolver.standard

/-- For an iterator over nothing neither the section nor the inverted section renders its body, and
both together write nothing. -/
theorem drained_renders_neither :
    ¬RendersBody .standard (renderFragment .standard 3) drainedScope (namedSection false "x")
        [.text none "A"] {} {} ∧
      ¬RendersBody .standard (renderFragment .standard 3) drainedScope (namedSection true "x")
        [.text none "B"] {} {} ∧
      ((renderNodes .standard (renderFragment .standard 3) drainedScope
        [.block (namedSection false "x") (some [.text none "A"]) none,
          .block (namedSection true "x") (some [.text none "B"]) none]).outcome {}).map
            (·.2.output) = some "" := by
  have hget : drainedScope.get ({} : World).side.readable "x" = .ok (.iterator 1 []) := rfl
  have hnone : (Engine.standard.transformer.apply 0 (.iterator 1 [])).Exhausted [] := .inl rfl
  refine ⟨?_, ?_, by decide +kernel⟩
  · exact not_rendersBody_of_exhausted _ Engine.HasSections.standard rfl rfl (w := {}) hget rfl rfl
      hnone _ _
  · exact not_rendersBody_of_exhausted _ Engine.HasSections.standard rfl rfl (w := {}) hget rfl rfl
      hnone _ _

end Stencil
