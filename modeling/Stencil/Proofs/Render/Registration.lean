import Stencil.Helper.Stock
import Stencil.Proofs.Node.Rereading
import Stencil.Proofs.Render.Mirrored
import Stencil.Proofs.Value.Passive
import Stencil.Render.Context

/-!
# Helpers are bound when a template is compiled

What is registered later does not change what a compiled template renders to: its names are bound
already, and rendering itself looks up the names of the sections without helpers and of the helper
for missing names only. This is so as long as nothing is compiled while rendering. Partials would be,
unless they are inline partials; source of helpers would be; and so would the markup of functions,
wherever they come from.
-/

namespace Stencil

open Render

/-! ### The same on both sides -/

namespace InlinePartial.Alike

variable {R : Resemblance} {P : Value → Prop} (hexact : R.exact)
  (hbound : ∀ name a b, R.bound name a b → a = b)

include hexact hbound

theorem eq {found found' : InlinePartial} (h : found.Alike R P found') : found = found' := by
  cases h with
  | nodes hbody => rw [hbody.eq hexact hbound]
  | foreign => rfl

end InlinePartial.Alike

/-- Frames that are alike are the same, when exactly alike trees are. -/
theorem Frames.Alike.eq {R : Resemblance} {P : Value → Prop} (hexact : R.exact)
    (hbound : ∀ name a b, R.bound name a b → a = b) {f f' : Frames} (h : f.Alike R P f') :
    f = f' := by
  cases h with
  | foreign => rfl
  | stack h =>
    refine congrArg Frames.stack (eq_of_forall₂ (h.imp fun _ _ hframe => ?_))
    exact eq_of_forall₂ (hframe.imp fun _ _ hx => Prod.ext hx.1 (hx.2.eq hexact hbound))

namespace Mirroring

/-- Renders against passive data that are the same on both sides, failures included. -/
def passive : Mirroring where
  value := Value.Passive
  failures := True
  cache _ := Eq

theorem passive_pairs_eq {a b : Option Helper} (h : passive.Pairs a b) : a = b := by
  cases h with
  | nothing | serving => rfl
  | refusing hcount => exact absurd trivial hcount

/-- Worlds on the two sides are the same. -/
theorem passive_worlds_eq {w w' : World} (h : passive.Worlds w w') : w = w' := by
  cases h with
  | beside _ hframes hcache =>
    rw [← hframes.eq trivial fun _ _ _ => passive_pairs_eq, ← (hcache : w.cache = _)]
    rfl

/-- What every entry on one side has with a partner on the other, it has. -/
theorem forall_left {α β : Type} {R : α → β → Prop} {P : α → Prop} {xs : List α} {ys : List β}
    (h : List.Forall₂ R xs ys) (hP : ∀ x y, R x y → P x) : ∀ x ∈ xs, P x :=
  ((List.forall₂_and_left xs ys).1 (h.imp fun x y hxy => ⟨hP x y hxy, hxy⟩)).1

/-- What a host has put into a frame is passive. -/
theorem frame_passive {R : Resemblance} {frame frame' : Frame}
    (h : frame.Alike R Value.Passive frame') :
    ∀ entry ∈ frame, ∀ v, entry.2 = .foreign v → v.Passive := by
  refine forall_left h ?_
  rintro ⟨name, found⟩ ⟨name', found'⟩ ⟨-, hfound⟩ v hv
  cases (hv : found = .foreign v)
  cases hfound with
  | foreign hpassive => exact hpassive

theorem passive_closed : passive.Closed where
  value_literal := Value.Passive.literal
  value_member := membersKeep_passive
  value_inner hv := hv.inner
  value_frames {f f'} h := by
    cases h with
    | foreign hv => exact hv
    | stack h =>
      have hall := forall_left h fun frame frame' hframe => frame_passive hframe
      refine .list 0 fun u hu => ?_
      obtain ⟨frame, hframe, rfl⟩ := List.mem_map.1 hu
      refine .map 0 fun entry hentry => ?_
      obtain ⟨⟨name, found⟩, hfound, rfl⟩ := List.mem_map.1 hentry
      refine ⟨.text name, ?_⟩
      cases found with
      | nodes body => exact .literal .null
      | foreign v => exact hall frame (List.mem_reverse.1 hframe) (name, .foreign v) hfound v rfl

section

variable {e e' : Engine}
  (hhelpers : ∀ name helper, e.registry.lookup name = some helper → passive.Serves helper)

include hhelpers

theorem passive_pairs (name : String) :
    passive.Pairs (e.registry.lookup name) (e.registry.lookup name) := by
  cases hname : e.registry.lookup name with
  | none => exact .nothing
  | some helper => exact .serving (hhelpers name helper hname)

/-- Engines that differ in their registries only, and there in no name that rendering looks up. -/
theorem passive_lawful (htransformer : e.transformer.Passive) {r : Registry}
    (he' : e' = { e with registry := r })
    (hr : ∀ name ∈ Regime.sectionNames, r.lookup name = e.registry.lookup name) :
    passive.Lawful e e' where
  toClosed := passive_closed
  value_transform label hv := htransformer.apply label hv
  transformer := by rw [he']
  escaping := by rw [he']
  delimiters := by rw [he']
  registry name hname := by
    rw [he', hr name hname]
    exact passive_pairs hhelpers name
  lambda hv hlambda := by
    rw [hv.not_lambda] at hlambda
    cases hlambda

/-- A tree that is compiled with helpers that keep to passive data is alike to itself. -/
theorem passive_parse {marks : Delimiters} {name text : String} {t : Template}
    (ht : e.parse marks name text = .ok t) : t.Alike passive.resemblance t := by
  have hagree := Template.ofSource_agree (R := passive.resemblance) (passive_pairs hhelpers) marks
    name text
  obtain ⟨t', ht', halike⟩ := hagree.of_ok ht
  rw [show Template.ofSource e.registry.lookup marks name text = .ok t from ht] at ht'
  cases ht'
  exact halike

omit hhelpers in
/-- What a render comes to without compiling anything, it comes to in every engine that is lawfully
beside it. -/
theorem passive_outcome (L : passive.Lawful e e') {t : Template}
    (ht : t.Alike passive.resemblance t) {scope : Scope} (hscope : scope.All Value.Passive)
    {w after : World} (hw : passive.Worlds w w) {r : Except Failure Unit}
    (hr : (renderFragmentBy (fun _ => Render.exhausted) e standardDepth t.fragment scope).outcome w =
      some (r, after)) : (t.render e' scope).outcome w = some (r, after) := by
  have hcompile (name : String) : passive.Mirrors Render.exhausted (partialOf.compiled e' name)
      (Fragment.Alike passive.resemblance) := .exhausted
  have hmirrors := renderFragmentBy_alike L hcompile standardDepth t.fragment t.fragment scope
    ⟨ht.place, ht.root⟩ hscope
  rw [renderFragmentBy_compiled] at hmirrors
  obtain ⟨r', after', hr', hagree, hafter⟩ := hmirrors w w r after hw hr (.inl trivial)
  cases passive_worlds_eq hafter
  have hsame : r = r' := by
    cases hagree with
    | ok h => rw [h]
    | error h => rw [h]
  rw [hsame]
  exact hr'

end

end Mirroring

/-! ### Later registrations -/

/-- The engine after registrations, one after the other. One that is refused changes nothing. -/
def Engine.registered (e : Engine) (calls : List (String × Candidate)) : Engine :=
  calls.foldl (fun e (name, candidate) => (e.register name candidate).toOption.getD e) e

/-- Names that are not registered find what they found before. -/
theorem Engine.registered_eq (e : Engine) (calls : List (String × Candidate)) :
    ∃ r : Registry, e.registered calls = { e with registry := r } ∧
      ∀ name, name ∉ calls.map (·.1) → r.lookup name = e.registry.lookup name := by
  induction calls generalizing e with
  | nil => exact ⟨e.registry, rfl, fun _ _ => rfl⟩
  | cons call rest ih =>
    obtain ⟨name, candidate⟩ := call
    -- One registration.
    have hstep : ∃ r : Registry,
        (e.register name candidate).toOption.getD e = { e with registry := r } ∧
          ∀ other, other ≠ name → r.lookup other = e.registry.lookup other := by
      unfold Engine.register Registry.register
      split
      · exact ⟨e.registry, rfl, fun _ _ => rfl⟩
      · cases candidate with
        | other shown => exact ⟨e.registry, rfl, fun _ _ => rfl⟩
        | helper helper =>
          refine ⟨e.registry.put name helper, rfl, fun other hother => ?_⟩
          rw [Registry.lookup_put, if_neg hother]
    obtain ⟨r, hr, hlookup⟩ := hstep
    obtain ⟨r', hr', hlookup'⟩ := ih ((e.register name candidate).toOption.getD e)
    refine ⟨r', ?_, fun other hother => ?_⟩
    · show Engine.registered ((e.register name candidate).toOption.getD e) rest = _
      rw [hr', hr]
    · rw [List.map_cons, List.mem_cons, not_or] at hother
      rw [hlookup' other hother.2, hr]
      exact hlookup other hother.1

/-- Every partial tag that is reached finds an inline partial: the render comes to an end even where
nothing can be compiled. -/
def Template.ResolvesInline (t : Template) (e : Engine) (c : Context) (w : World) : Prop :=
  ((renderFragmentBy (fun _ => Render.exhausted) e standardDepth t.fragment c.scope).outcome
    { w with side := c.side, output := "" }).isSome

namespace Template

/-- Helpers are bound when a template is compiled: helpers registered afterwards, under new names or
in place of others, change nothing of what rendering it comes to. The names of the sections without
helpers are left alone, the partial tags find inline partials, and no functions are brought in: the
model, the data and the transformer hold none, and the helpers that were known when the template was
compiled neither compile source nor answer functions, render against them or set them as data. -/
theorem bound_at_compile_time {e : Engine} {marks : Delimiters} {name text : String} {t : Template}
    (ht : e.parse marks name text = .ok t)
    (hhelpers : ∀ name helper, e.registry.lookup name = some helper →
      Mirroring.passive.Serves helper)
    (htransformer : e.transformer.Passive) {model : Value} (hmodel : model.Passive)
    {data : List (String × Value)} (hdata : ∀ pair ∈ data, pair.2.Passive)
    {calls : List (String × Candidate)} (hcalls : ∀ call ∈ calls, call.1 ∉ Regime.sectionNames)
    {w : World} (hinline : t.ResolvesInline e (.ofModel model data e.resolvers) w) :
    t.renderAgainst (e.registered calls) (.ofModel model data e.resolvers) w =
      t.renderAgainst e (.ofModel model data e.resolvers) w := by
  obtain ⟨⟨r, after⟩, hrun⟩ := Option.isSome_iff_exists.1 hinline
  obtain ⟨registry, hregistered, hlookup⟩ := e.registered_eq calls
  have hsections : ∀ name ∈ Regime.sectionNames, registry.lookup name = e.registry.lookup name := by
    intro name hname
    refine hlookup name fun hmem => ?_
    obtain ⟨call, hcall, rfl⟩ := List.mem_map.1 hmem
    exact hcalls call hcall hname
  have halike := Mirroring.passive_parse hhelpers ht
  have hscope : (Scope.ofModel model e.resolvers).All Value.Passive :=
    Scope.All.ofModel hmodel e.resolvers
  obtain ⟨hvalues, hframes⟩ := SideChannel.ofData_alike (R := Mirroring.passive.resemblance)
    (fun h => Value.Passive.inner h) hdata
  have hw : Mirroring.passive.Worlds { w with side := .ofData data, output := "" }
      { w with side := .ofData data, output := "" } := .beside hvalues hframes rfl
  -- Both engines do what is done where nothing can be compiled.
  have hbefore := Mirroring.passive_outcome
    (Mirroring.passive_lawful hhelpers htransformer (r := e.registry) rfl fun _ _ => rfl)
    halike hscope hw hrun
  have hafter := Mirroring.passive_outcome
    (Mirroring.passive_lawful hhelpers htransformer hregistered hsections) halike hscope hw hrun
  exact congrArg (Option.map _) (hafter.trans hbefore.symm)

/-- An engine with a helper that calls a text out. -/
def crier : Engine :=
  { Engine.standard with
    registry := Engine.standard.registry.put "loud" (Stock.helper (.surround "" "!") 0) }

/-- Items called out by an inline partial. -/
def cries : String :=
  "\x7b\x7b#*inline \"cry\"\x7d\x7d\x7b\x7bloud .\x7d\x7d\x7b\x7b/inline\x7d\x7d" ++
    "\x7b\x7b#xs\x7d\x7d\x7b\x7b> cry\x7d\x7d\x7b\x7b/xs\x7d\x7d"

/-- Helpers that replace the one there is, take the name of the items, and are refused. -/
def laterHelpers : List (String × Candidate) :=
  [("loud", .helper (Stock.helper (.const (.text "?")) 1)),
    ("xs", .helper (Stock.helper (.const (.text "?")) 2)), ("", .other "")]

/-- What is called out. -/
def lots : Value := .map 0 [(.text "xs", .list 1 [.text "a", .text "b"])]

theorem lots_passive : lots.Passive := by
  refine .map 0 fun entry hentry => ?_
  rw [List.mem_singleton.1 hentry]
  refine ⟨.text _, .list 1 fun u hu => ?_⟩
  simp only [List.mem_cons, List.not_mem_nil, or_false] at hu
  rcases hu with rfl | rfl <;> exact .text _

theorem crier_serves (name : String) (helper : Helper)
    (h : crier.registry.lookup name = some helper) : Mirroring.passive.Serves helper := by
  rw [crier, Registry.lookup_put] at h
  split at h
  · cases h
    -- The helper asks for a text and for a label, and answers a text.
    refine fun subject call _ _ => ⟨⟨trivial, fun reply _ => ?_⟩, fun hcount => absurd trivial hcount⟩
    cases reply with
    | ok text =>
      refine ⟨trivial, fun reply _ => ?_⟩
      cases reply with
      | ok label => exact fun _ => .text _
      | error f => trivial
    | error f => trivial
  · exact Mirroring.passive_closed.serves (Registry.BuiltIn.standard false 0 name helper h)

theorem eq_ok_of_toOption {ε α : Type} {x : Except ε α} {a : α} (h : x.toOption = some a) :
    x = .ok a := by
  cases x with
  | ok b => exact congrArg Except.ok (Option.some.inj h)
  | error f => cases h

theorem bound_at_compile_time_crier :
    ∃ t page, crier.parse .standard "page" cries = .ok t ∧
      t.ResolvesInline crier (.ofModel lots [] crier.resolvers) {} ∧
      t.renderAgainst (crier.registered laterHelpers) (.ofModel lots [] crier.resolvers) {} =
        some page ∧
      t.renderAgainst crier (.ofModel lots [] crier.resolvers) {} = some page ∧
      page.output = "a!b!" := by
  have hruns : (crier.parse .standard "page" cries).toOption.map (fun t =>
      (((renderFragmentBy (fun _ => Render.exhausted) crier standardDepth t.fragment
          (.ofModel lots crier.resolvers)).outcome {}).isSome,
        (t.renderAgainst crier (.ofModel lots [] crier.resolvers) {}).map (·.output))) =
      some (true, some "a!b!") := by
    decide +kernel
  obtain ⟨t, ht, hruns⟩ := Option.map_eq_some_iff.1 hruns
  have hparse := eq_ok_of_toOption ht
  have hinline : t.ResolvesInline crier (.ofModel lots [] crier.resolvers) {} :=
    congrArg Prod.fst hruns
  obtain ⟨page, hpage, houtput⟩ := Option.map_eq_some_iff.1 (congrArg Prod.snd hruns)
  have hnames : ∀ call ∈ laterHelpers, call.1 ∉ Regime.sectionNames := by decide
  have hsame := bound_at_compile_time hparse crier_serves Transformer.Passive.standard lots_passive
    (List.forall_mem_nil _) hnames hinline
  exact ⟨t, page, hparse, hinline, hsame.trans hpage, hpage, houtput⟩

/-- A function whose answer is markup that calls a helper. -/
def speech : Value := .function 1 (.returns (.text "\x7b\x7bu 1\x7d\x7d"))

/-- A helper of the name that the markup calls, registered late. -/
def late : List (String × Candidate) := [("u", .helper (Stock.helper (.const (.text "x")) 1))]

/-- What a source renders to before and after the late registration: the outputs, and whether its
partials are inline partials. -/
def beforeAndAfter (e : Engine) (source : String) (model : Value) :
    Option (Bool × Option String × Option String) :=
  (e.parse .standard "page" source).toOption.map fun t =>
    (((renderFragmentBy (fun _ => Render.exhausted) e standardDepth t.fragment
        (.ofModel model e.resolvers)).outcome {}).isSome,
      (t.renderAgainst e (.ofModel model [] e.resolvers) {}).map (·.output),
      (t.renderAgainst (e.registered late) (.ofModel model [] e.resolvers) {}).map (·.output))

/-- A page renders to something else after the late registration. -/
def Rebinds (e : Engine) (source : String) (model : Value) : Prop :=
  ∃ t before after, e.parse .standard "page" source = .ok t ∧
    t.ResolvesInline e (.ofModel model [] e.resolvers) {} ∧
    t.renderAgainst e (.ofModel model [] e.resolvers) {} = some before ∧
    t.renderAgainst (e.registered late) (.ofModel model [] e.resolvers) {} = some after ∧
    before.output ≠ after.output

theorem rebinds_of_outputs {e : Engine} {source : String} {model : Value} {shown shown' : String}
    (hruns : beforeAndAfter e source model = some (true, some shown, some shown'))
    (hne : shown ≠ shown') : Rebinds e source model := by
  obtain ⟨t, ht, hruns⟩ := Option.map_eq_some_iff.1 hruns
  obtain ⟨hinline, hshown⟩ := Prod.mk.inj hruns
  obtain ⟨hfirst, hsecond⟩ := Prod.mk.inj hshown
  obtain ⟨before, hbefore, rfl⟩ := Option.map_eq_some_iff.1 hfirst
  obtain ⟨after, hafter, rfl⟩ := Option.map_eq_some_iff.1 hsecond
  exact ⟨t, before, after, eq_ok_of_toOption ht, hinline, hbefore, hafter, hne⟩

/-- An engine with a helper that answers the function. -/
def speaker : Engine :=
  { Engine.standard with
    registry := Engine.standard.registry.put "h" (Stock.helper (.const speech) 0) }

/-- A page that enters the answer of the helper and renders it. -/
def spoken : String :=
  "\x7b\x7b#with (h)\x7d\x7d\x7b\x7b.\x7d\x7d\x7b\x7b/with\x7d\x7d"

/-- An engine that puts the function in the place of a text. -/
def reciter : Engine := { Engine.standard with transformer := .lambdas [("poem", speech)] }

/-- Functions that are brought in while rendering are lambdas: their markup is compiled there, and
helpers that are registered later are found. A helper may answer one without asking for anything,
and a transformer may put one in the place of a text, both against models that hold none. -/
theorem brought_function_rebound :
    (∀ subject call, (Stock.helper (.const speech) 0).act subject call = .done speech) ∧
      (∀ call ∈ late, call.1 ∉ Regime.sectionNames) ∧
      Value.null.Passive ∧ Rebinds speaker spoken .null ∧
      (Value.text "poem").Passive ∧ Rebinds reciter "\x7b\x7b.\x7d\x7d" (.text "poem") := by
  have hspoken : beforeAndAfter speaker spoken .null = some (true, some "", some "x") := by
    decide +kernel
  have hrecited : beforeAndAfter reciter "\x7b\x7b.\x7d\x7d" (.text "poem") =
      some (true, some "", some "x") := by
    decide +kernel
  exact ⟨fun _ _ => rfl, by decide, .literal .null, rebinds_of_outputs hspoken (by decide), .text _,
    rebinds_of_outputs hrecited (by decide)⟩

end Template

end Stencil
