import Stencil.Proofs.Render.Complement
import Stencil.Proofs.Render.Located
import Stencil.Proofs.Source.Expressions

/-!
# Bare sections

A section whose name is no helper leaves it to its value which helper takes it. It comes to what the
section with that helper and its name as the argument comes to: the same clauses, the same failures,
the same world. What is entered is a scope deeper before `with` is called, and `with` does not go
deeper for it; so the two calls differ, but ask for the same.
-/

namespace Stencil

open Render

variable {e : Engine} {render : Renderer} {scope : Scope} {w : World}

theorem Particular.same_self {α : Type} {equal : α → α → Bool} {single : α → Bool}
    (h : ∀ a, equal a a = true) (a : Particular α) : a.same equal single a = true := by
  simp [same, h]

theorem Value.same_self (v : Value) : v.same v = true := by
  cases v <;> simp [Value.same, Particular.same_self]

/-! ## Helpers of sections do not count their arguments -/

namespace Builtin

theorem eachEntry_arity (call : Call) (arity count index : Nat) (entries : List (Value × Value)) :
    eachEntry { call with arity } count index entries = eachEntry call count index entries := by
  induction entries generalizing index with
  | nil => rfl
  | cons entry rest ih =>
    unfold eachEntry
    rw [ih]
    rfl

theorem eachOf_arity (call : Call) (arity : Nat) (entries : List (Value × Value)) :
    eachOf { call with arity } entries = eachOf call entries := by
  unfold eachOf
  rw [eachEntry_arity]

theorem act_arity {which : Builtin} (h : which ∈ [each, branch, negate, enter]) (subject : Value)
    (call : Call) (arity : Nat) :
    which.act subject { call with arity } = which.act subject call := by
  simp only [List.mem_cons, List.not_mem_nil, or_false] at h
  rcases h with rfl | rfl | rfl | rfl
  · unfold act
    simp only [eachOf_arity]
  · rfl
  · rfl
  · rfl

end Builtin

theorem answer_arity (call : Call) (arity : Nat) (clauses : Clauses) (q : Request) :
    answer e render { call with arity } clauses q = answer e render call clauses q := by
  cases q <;> rfl

theorem invoke_arity {which : Builtin} (h : which ∈ [Builtin.each, .branch, .negate, .enter])
    {helper : Helper} (hhelper : helper.behaviour = .builtin which) (subject : Value) (call : Call)
    (arity : Nat) (clauses : Clauses) :
    invoke e render helper subject { call with arity } clauses =
      invoke e render helper subject call clauses := by
  have hanswer : answer e render { call with arity } clauses = answer e render call clauses :=
    funext (answer_arity call arity clauses)
  unfold invoke Helper.act
  rw [hhelper]
  dsimp only
  rw [Builtin.act_arity h, hanswer]

/-! ## The two forms -/

/-- The head of a bare section: a reference, with named arguments, and no helper. -/
def BlockHead.bare (head : BlockHead) (reference : String) (hash : HashParams) : BlockHead :=
  { head with inverted := false, call := ⟨reference, [], hash, none⟩ }

/-- The head of the section that names a built-in helper and has the reference as its argument, as the
engine compiles it. -/
def BlockHead.naming (head : BlockHead) (e : Engine) (which : Builtin) (reference : String)
    (hash : HashParams) : BlockHead :=
  { head with
    inverted := false
    call := ⟨which.name, [.reference reference], hash, e.registry.lookup which.name⟩ }

/-- The tags `#x ..` and `#each x ..`, whose expressions differ in the helper's name only, are read as
calls of these two forms, with the same named arguments and block parameters. -/
theorem BlockHead.bare_naming_read {r : Node.Reader} (hhelpers : r.helperOf = e.registry.lookup)
    {t : Token} {expression expression' reference : String} {items : List Item} {found : Arguments}
    (which : Builtin) (hreference : Param.ofText reference = .ok (.reference reference))
    (hunbound : e.registry.lookup reference = none)
    (hitems : Expression.itemsOf (t.location r.file) expression = .ok (.word reference :: items))
    (hitems' : Expression.itemsOf (t.location r.file) expression' =
      .ok (.word which.name :: .word reference :: items))
    (hread : Expression.parse (r.binding t) expression = .ok (reference, found))
    (hargs : found.args = []) (head : BlockHead) :
    r.invocation reference found = (head.bare reference found.hash).call ∧
      ∃ told, Expression.parse (r.binding t) expression' = .ok (which.name, told) ∧
        told.blockParams = found.blockParams ∧
        r.invocation which.name told = (head.naming e which reference found.hash).call := by
  refine ⟨?_, _, Expression.parse_naming hreference hitems hitems' hread, rfl, ?_⟩
  · rw [Node.Reader.invocation, hargs, hhelpers, hunbound]
    rfl
  · rw [Node.Reader.invocation, hargs, hhelpers]
    rfl

/-- What a helper of a section is told that has named arguments only, beside those that make its
subject. -/
def Call.ofSection (name : String) (scope : Scope) (named : List (String × Value))
    (blockParams : List String) (arity : Nat) : Call :=
  { helper := name, tag := .block, scope, params := [], hash := Bindings.ofPairs named, blockParams,
    arity }

theorem callOf_eq {args : List Param} (hargs : args.length ≤ 1) (name : String) (hash : HashParams)
    (blockParams : List String) :
    callOf e render name .block scope args hash blockParams =
      namedArguments e render scope hash >>= fun named =>
        pure (Call.ofSection name scope named blockParams args.length) := by
  have hdrop : args.drop 1 = [] := List.drop_eq_nil_of_le hargs
  unfold callOf
  rw [hdrop]
  rfl

section

variable {head : BlockHead} {reference : String} {hash : HashParams} {body : List Node}
  {inverse : Fragment} {which : Builtin} {helper : Helper} {v subject : Value}

/-- The helper of the section that names it is called in the scope of the section. -/
theorem outcome_blockValue_named
    (hcall : head.call = ⟨which.name, [.reference reference], hash, some helper⟩)
    (hv : scope.get w.side.readable reference = .ok v)
    (hsubject : e.transformer.apply w.nextLabel v = subject) :
    (blockValue e render scope head body inverse).outcome w =
      (namedArguments e render scope hash >>= fun named =>
        invoke e render helper subject
          (.ofSection which.name scope named head.blockParams 1) ⟨⟨none, body⟩, inverse, true⟩).outcome
        { w with nextLabel := w.nextLabel + 1 } := by
  have hget : (subjectOf e render scope [.reference reference]).outcome w = some (.ok v, w) := by
    show (Render.get scope reference).outcome w = _
    rw [outcome_get, hv]
  have htransform : (transform e v).outcome w =
      some (.ok subject, { w with nextLabel := w.nextLabel + 1 }) := by
    rw [← hsubject]
    rfl
  unfold blockValue
  rw [hcall]
  dsimp only
  rw [outcome_bind_of_ok hget, outcome_bind_of_ok htransform, callOf_eq (Nat.le_refl _)]
  simp only [bind_assoc, pure_bind]
  rfl

/-- The helper of a bare section is called in the scope that its value is treated in. -/
theorem outcome_blockValue_bare {inner : Scope} (hcall : head.call = ⟨reference, [], hash, none⟩)
    (hv : scope.get w.side.readable reference = .ok v)
    (hsubject : e.transformer.apply w.nextLabel v = subject)
    (htreatment : treatment e scope head body subject = pure ⟨which, ⟨none, body⟩, inner⟩)
    (hnull : subject.isNull = false) (hlookup : e.registry.lookup which.name = some helper) :
    (blockValue e render scope head body inverse).outcome w =
      (namedArguments e render inner hash >>= fun named =>
        invoke e render helper subject
          (.ofSection which.name inner named head.blockParams 0) ⟨⟨none, body⟩, inverse, true⟩).outcome
        { w with nextLabel := w.nextLabel + 1 } := by
  have hget : (Render.get scope reference).outcome w = some (.ok v, w) := by
    rw [outcome_get, hv]
  have htransform : (transform e v).outcome w =
      some (.ok subject, { w with nextLabel := w.nextLabel + 1 }) := by
    rw [← hsubject]
    rfl
  have himplicit : implicitHelper e head which subject = pure (helper, which.name) := by
    unfold implicitHelper
    rw [hnull]
    dsimp only
    rw [hlookup]
  unfold blockValue
  rw [hcall]
  dsimp only
  rw [outcome_bind_of_ok hget, outcome_bind_of_ok htransform, htreatment, pure_bind, himplicit,
    pure_bind]
  dsimp only
  rw [callOf_eq (Nat.zero_le _)]
  simp only [bind_assoc, pure_bind]
  rfl

/-! ## Treatments -/

theorem treatment_of_iterable (hpositive : head.inverted = false) (h : subject.isIterable = true) :
    treatment e scope head body subject = pure ⟨.each, ⟨none, body⟩, scope⟩ := by
  unfold treatment
  rw [hpositive, if_neg Bool.false_ne_true, if_pos h]

theorem treatment_of_bool (hpositive : head.inverted = false) (b : Bool) :
    treatment e scope head body (.bool b) = pure ⟨.branch, ⟨none, body⟩, scope⟩ := by
  unfold treatment
  rw [hpositive]
  rfl

theorem treatment_of_entered (hpositive : head.inverted = false)
    (hiterable : subject.isIterable = false) (hbool : ∀ b, subject ≠ .bool b)
    (hlambda : subject.isLambda = false) :
    treatment e scope head body subject = pure ⟨.enter, ⟨none, body⟩, scope.child subject []⟩ := by
  unfold treatment
  rw [hpositive, hiterable, if_neg Bool.false_ne_true, if_neg Bool.false_ne_true]
  cases subject with
  | bool b => exact absurd rfl (hbool b)
  | _ => rw [hlambda]; rfl

/-! ## The call of `with` -/

/-- A value that is entered has the body rendered in a child for it, whether `with` is called in that
child or in the scope around it. -/
theorem invoke_enter (hhelper : helper.behaviour = .builtin .enter) {call : Call}
    (hhash : call.hash = []) (hfull : subject.isEmpty false = false) {inner : Scope}
    (hinner : call.scopeFor subject = inner) (clauses : Clauses) :
    invoke e render helper subject call clauses =
      Render.mapFailure (Failure.fromHelper call.helper)
        (Render.captured (render clauses.body inner) >>= fun text => pure (.text text)) := by
  have hfalsy : call.isFalsy subject = false := by
    unfold Call.isFalsy
    rw [hhash]
    exact hfull
  have hact : Builtin.enter.act subject call =
      (Action.request (.render .body inner)).bind fun text => .done (.text text) := by
    unfold Builtin.act
    rw [hfalsy, if_neg Bool.false_ne_true, hinner]
    rfl
  unfold invoke Helper.act
  rw [hhelper]
  dsimp only
  rw [hact, Action.perform_request_bind]
  rfl

end

/-! ## Sections that come to the same -/

/-- Defining inline partials changes the frames and nothing else. -/
theorem outcome_defineInlines_frames (nodes : List Node) (w : World) :
    ∃ r frames, (defineInlines nodes).outcome w = some (r, w.withFrames frames) := by
  induction nodes generalizing w with
  | nil => exact ⟨.ok (), w.side.frames, rfl⟩
  | cons n rest ih =>
    cases n with
    | inlinePartial place name body marks =>
      have hstep : (defineInlines (.inlinePartial place name body marks :: rest)).outcome w =
          (Render.changeFrames (Frames.define name (.nodes body)) >>= fun _ =>
            defineInlines rest).outcome w := rfl
      rw [hstep, outcome_bind, outcome_changeFrames]
      cases w.side.frames.define name (.nodes body) with
      | error cause => exact ⟨.error (.fault cause), w.side.frames, rfl⟩
      | ok defined =>
        obtain ⟨r, frames, hrest⟩ := ih (w.withFrames defined)
        exact ⟨r, frames, hrest⟩
    | _ => exact ih w

/-- Two sections at one place that answer alike whatever the frames are come to the same. -/
theorem outcome_renderBlock_congr {head head' : BlockHead} (hplace : head.place = head'.place)
    {body : List Node} {inverse : Fragment}
    (h : ∀ frames, (blockValue e render scope head body inverse).outcome (w.withFrames frames) =
      (blockValue e render scope head' body inverse).outcome (w.withFrames frames)) :
    (renderBlock e render scope head body inverse).outcome w =
      (renderBlock e render scope head' body inverse).outcome w := by
  have hinside (pushed : Frames) :
      (insideBlock e render scope head body inverse).outcome (w.withFrames pushed) =
        (insideBlock e render scope head' body inverse).outcome (w.withFrames pushed) := by
    -- The inline partials of the body are the same, so both are called in the same frames.
    obtain ⟨r, frames, hdefine⟩ := outcome_defineInlines_frames body (w.withFrames pushed)
    have hframes : (w.withFrames pushed).withFrames frames = w.withFrames frames := rfl
    rw [hframes] at hdefine
    rw [insideBlock_eq, insideBlock_eq]
    cases r with
    | error failure => rw [outcome_bind_of_error hdefine, outcome_bind_of_error hdefine]
    | ok _ =>
      rw [outcome_bind_of_ok hdefine, outcome_bind_of_ok hdefine, outcome_located, outcome_located,
        outcome_bind, outcome_bind, h frames, hplace]
  rw [renderBlock_eq, renderBlock_eq, outcome_inFrame, outcome_inFrame]
  cases w.side.frames.push with
  | error cause => rfl
  | ok pushed =>
    dsimp only
    rw [hinside pushed]

section

variable (head : BlockHead) {reference : String} {hash : HashParams} {body : List Node}
  {v subject : Value} (hv : scope.get w.side.readable reference = .ok v)
  (hsubject : e.transformer.apply w.nextLabel v = subject) {which : Builtin} {helper : Helper}
  (hlookup : e.registry.lookup which.name = some helper) (hnull : subject.isNull = false)

include hv hsubject hlookup hnull

/-- A bare section comes to that of a helper if the two calls of the helper come to the same, the one
in the scope that the value is treated in and the one in the scope of the section. -/
theorem outcome_bare_of_invoke {inner : Scope}
    (htreatment : treatment e scope (head.bare reference hash) body subject =
      pure ⟨which, ⟨none, body⟩, inner⟩) {inverse : Fragment}
    (h : (namedArguments e render inner hash >>= fun named =>
        invoke e render helper subject (.ofSection which.name inner named head.blockParams 0)
          ⟨⟨none, body⟩, inverse, true⟩) =
      namedArguments e render scope hash >>= fun named =>
        invoke e render helper subject (.ofSection which.name scope named head.blockParams 1)
          ⟨⟨none, body⟩, inverse, true⟩) :
    (renderBlock e render scope (head.bare reference hash) body inverse).outcome w =
      (renderBlock e render scope (head.naming e which reference hash) body inverse).outcome w := by
  have hcall : (head.naming e which reference hash).call =
      ⟨which.name, [.reference reference], hash, some helper⟩ := by
    rw [← hlookup]
    rfl
  have hplace : (head.bare reference hash).place =
      (head.naming e which reference hash).place := rfl
  refine outcome_renderBlock_congr hplace fun frames => ?_
  -- The frames are no part of what a reference reads or a value is transformed to.
  have hread : scope.get (w.withFrames frames).side.readable reference = .ok v := hv
  have htransformed : e.transformer.apply (w.withFrames frames).nextLabel v = subject := hsubject
  rw [outcome_blockValue_bare rfl hread htransformed htreatment hnull hlookup,
    outcome_blockValue_named hcall hread htransformed]
  exact congrArg (fun m : Render Value =>
    m.outcome { w.withFrames frames with nextLabel := w.nextLabel + 1 }) h

/-- Where the value of a bare section is treated in the scope of the section, the section comes to
that of the helper. -/
theorem outcome_bare_of_stays (hwhich : which ∈ [Builtin.each, .branch, .negate, .enter])
    (hhelper : helper.behaviour = .builtin which)
    (htreatment : treatment e scope (head.bare reference hash) body subject =
      pure ⟨which, ⟨none, body⟩, scope⟩) (inverse : Fragment) :
    (renderBlock e render scope (head.bare reference hash) body inverse).outcome w =
      (renderBlock e render scope (head.naming e which reference hash) body inverse).outcome w := by
  refine outcome_bare_of_invoke head hv hsubject hlookup hnull htreatment ?_
  refine bind_congr fun named => ?_
  exact invoke_arity hwhich hhelper subject (.ofSection which.name scope named head.blockParams 1) 0
    ⟨⟨none, body⟩, inverse, true⟩

end

/-- Where the value of a bare section is entered, the section comes to that of `with`, which enters it
in its turn; unless the value is the model of the scope, so that `with` stays where it is. -/
theorem outcome_bare_of_entered (hsections : e.HasSections) (head : BlockHead) {reference : String}
    {body : List Node} {v subject : Value} (hv : scope.get w.side.readable reference = .ok v)
    (hsubject : e.transformer.apply w.nextLabel v = subject) (hfull : subject.isEmpty false = false)
    (hnew : subject.same scope.here.model = false)
    (htreatment : treatment e scope (head.bare reference []) body subject =
      pure ⟨.enter, ⟨none, body⟩, scope.child subject []⟩) (inverse : Fragment) :
    (renderBlock e render scope (head.bare reference []) body inverse).outcome w =
      (renderBlock e render scope (head.naming e .enter reference []) body inverse).outcome w := by
  obtain ⟨helper, hlookup, hhelper⟩ := hsections .enter (by simp)
  have hnull : subject.isNull = false := by
    cases subject with
    | null => cases hfull
    | _ => rfl
  -- Called in the child, `with` is given the very model that it stands at, and stays there.
  have hbare : (Call.ofSection Builtin.enter.name (scope.child subject []) [] head.blockParams
      0).scopeFor subject = scope.child subject [] := by
    show (if subject.same subject then _ else _) = _
    rw [Value.same_self]
    rfl
  -- Called outside, it makes the child.
  have hnaming : (Call.ofSection Builtin.enter.name scope [] head.blockParams 1).scopeFor subject =
      scope.child subject [] := by
    show (if subject.same scope.here.model then _ else _) = _
    rw [hnew]
    rfl
  refine outcome_bare_of_invoke head hv hsubject hlookup hnull htreatment ?_
  simp only [namedArguments, pure_bind]
  rw [invoke_enter hhelper rfl hfull hbare, invoke_enter hhelper rfl hfull hnaming]
  rfl

/-- A section without a helper of its own means the helper that its value asks for. Where the value is
iterated over, the section comes to that of `each`, and where it is a boolean, to that of `if`, with
whatever named arguments; any other value that is neither a lambda nor empty, and not the very model
of the scope, is entered as by `with`. The two write the same, fail alike, and leave the same world. -/
theorem bareSection_eq (hsections : e.HasSections) (render : Renderer) (scope : Scope)
    (head : BlockHead) (reference : String) (body : List Node) (inverse : Option (List Node))
    {w : World} {v subject : Value} (hv : scope.get w.side.readable reference = .ok v)
    (hsubject : e.transformer.apply w.nextLabel v = subject) :
    (subject.isIterable = true → ∀ hash,
      (renderNode e render scope (.block (head.bare reference hash) (some body) inverse)).outcome w =
        (renderNode e render scope
          (.block (head.naming e .each reference hash) (some body) inverse)).outcome w) ∧
    (∀ b, subject = .bool b → ∀ hash,
      (renderNode e render scope (.block (head.bare reference hash) (some body) inverse)).outcome w =
        (renderNode e render scope
          (.block (head.naming e .branch reference hash) (some body) inverse)).outcome w) ∧
    (subject.isIterable = false → (∀ b, subject ≠ .bool b) → subject.isLambda = false →
      subject.isEmpty false = false → subject.same scope.here.model = false →
      (renderNode e render scope (.block (head.bare reference []) (some body) inverse)).outcome w =
        (renderNode e render scope
          (.block (head.naming e .enter reference []) (some body) inverse)).outcome w) := by
  refine ⟨?_, ?_, ?_⟩
  · intro hiterable hash
    have hnull : subject.isNull = false := by
      cases subject with
      | null => cases hiterable
      | _ => rfl
    obtain ⟨helper, hlookup, hhelper⟩ := hsections .each (by simp)
    exact outcome_bare_of_stays head hv hsubject hlookup hnull (by simp) hhelper
      (treatment_of_iterable rfl hiterable) _
  · intro b hbool hash
    subst hbool
    obtain ⟨helper, hlookup, hhelper⟩ := hsections .branch (by simp)
    exact outcome_bare_of_stays head hv hsubject hlookup rfl (by simp) hhelper
      (treatment_of_bool rfl b) _
  · intro hiterable hbool hlambda hfull hnew
    exact outcome_bare_of_entered hsections head hv hsubject hfull hnew
      (treatment_of_entered rfl hiterable hbool hlambda) _

/-- Data in which one name is a list, one a boolean and one a mapping. -/
def mixedScope : Scope :=
  .ofModel (.map 0 [(.text "xs", .list 1 [.text "a", .text "b"]), (.text "on", .bool true),
    (.text "user", .map 2 [(.text "name", .text "Ann")])]) Resolver.standard

/-- A scope that stands at a text, and in which a name has another text of the same characters. -/
def newsScope : Scope :=
  (Scope.ofModel (.map 0 [(.text "title", .text ⟨"news", .given 2⟩)]) Resolver.standard).child
    (.text ⟨"news", .given 1⟩) []

/-- The section of a name, or of a helper and the name, with a reference as its body. -/
def sectionAround (scope : Scope) (reference : String) (head : BlockHead) :
    Option (Except Failure Unit × World) :=
  (renderNode .standard (renderFragment .standard 3) scope
    (.block head (some [.output none .plain { name := reference } .standard])
      (some [.text none "-"]))).outcome {}

/-- A section with the name of a person as its body. -/
def greeted : BlockHead → Option (Except Failure Unit × World) := sectionAround mixedScope "name"

theorem bareSection_eq_mixedScope :
    greeted (eachPair.bare "xs" []) = greeted (eachPair.naming .standard .each "xs" []) ∧
      greeted (eachPair.bare "on" []) = greeted (eachPair.naming .standard .branch "on" []) ∧
      greeted (eachPair.bare "user" []) = greeted (eachPair.naming .standard .enter "user" []) ∧
      (greeted (eachPair.bare "user" [])).map (·.2.output) = some "Ann" ∧
      sectionAround newsScope "../this" (eachPair.bare "title" []) =
        sectionAround newsScope "../this" (eachPair.naming .standard .enter "title" []) ∧
      (sectionAround newsScope "../this" (eachPair.bare "title" [])).map (·.2.output) =
        some "news" := by
  have hxs : mixedScope.get ({} : World).side.readable "xs" =
      .ok (.list 1 [.text "a", .text "b"]) := rfl
  have hon : mixedScope.get ({} : World).side.readable "on" = .ok (.bool true) := rfl
  have huser : mixedScope.get ({} : World).side.readable "user" =
      .ok (.map 2 [(.text "name", .text "Ann")]) := rfl
  have htitle : newsScope.get ({} : World).side.readable "title" =
      .ok (.text ⟨"news", .given 2⟩) := rfl
  refine ⟨?_, ?_, ?_, by decide +kernel, ?_, by decide +kernel⟩
  · exact (bareSection_eq Engine.HasSections.standard _ _ eachPair "xs" _ _ (w := {}) hxs rfl).1
      rfl []
  · exact (bareSection_eq Engine.HasSections.standard _ _ eachPair "on" _ _ (w := {}) hon rfl).2.1
      true rfl []
  · have hbool : ∀ b, Value.map 2 [(.text "name", .text "Ann")] ≠ .bool b := by
      intro b hb
      cases hb
    exact (bareSection_eq Engine.HasSections.standard _ _ eachPair "user" _ _ (w := {}) huser
      rfl).2.2 rfl hbool rfl rfl rfl
  · have hbool : ∀ b, Value.text ⟨"news", .given 2⟩ ≠ .bool b := by
      intro b hb
      cases hb
    have hnew : (Value.text ⟨"news", .given 2⟩).same newsScope.here.model = false := by decide
    exact (bareSection_eq Engine.HasSections.standard _ _ eachPair "title" _ _ (w := {}) htitle
      rfl).2.2 rfl hbool rfl (by decide) hnew

end Stencil
