import Stencil.Proofs.Helper.Confined
import Stencil.Proofs.Node.Binding
import Stencil.Proofs.Render.Sections

/-!
# What the steps of a render are composed of

However much the tags differ, the steps of a render are put together in a few ways out of a few
elementary ones: reading a reference, displaying a value, writing a text, defining a partial, and the
other requests of helpers. Beside these a step renders fragments, with the renderer that it is given.
So what holds of the elementary steps, and of every renderer that is given, holds of the steps of a
node if it is kept by the ways of putting steps together; it is shown once for each of these and not
for each part of the evaluator.
-/

namespace Stencil

open Render

/-- A tag that renders a partial. -/
def Node.isInclusion : Node → Bool
  | .inclusion .. => true
  | _ => false

/-- What steps are composed of: the nodes of the fragments that they render, the partials that they
define and the requests that their helpers make. -/
structure Material where
  node : Node → Prop
  definition : String → List Node → Prop
  request : Request → Prop
  /-- Partials may be included: inline partials are looked up and templates compiled. -/
  inclusions : Prop

namespace Material

variable (M : Material)

/-- A node whose definition, if it is one, is of the material. -/
def Defines : Node → Prop
  | .inlinePartial _ name body _ => M.definition name body
  | _ => True

/-- The nodes that a step may render by itself: of the material, definitions and all. -/
def Whole (nodes : List Node) : Prop := Node.Every M.node nodes ∧ Node.Every M.Defines nodes

/-- Steps that render nothing, with what their results are like. -/
inductive Elementary (e : Engine) : {α : Type} → Render α → (α → Prop) → Prop where
  | pure {α : Type} {V : α → Prop} {a : α} : V a → Elementary e (Pure.pure a) V
  | throw {α : Type} {V : α → Prop} (f : Failure) : Elementary e (MonadExcept.throw f) V
  | get (scope : Scope) (reference : String) : Elementary e (Render.get scope reference) fun _ => True
  | display (v : Value) : Elementary e (Render.display v) fun _ => True
  | items (v : Value) : Elementary e (Render.items v) fun _ => True
  | freshLabel : Elementary e Render.freshLabel fun _ => True
  | emit (text : String) : Elementary e (Render.emit text) fun _ => True
  | partials : M.inclusions → Elementary e (Render.read (·.side.frames)) (Frames.Every M.node)
  | define {name : String} {body : List Node} : M.definition name body → Node.Every M.node body →
      Elementary e (Render.changeFrames (Frames.define name (.nodes body))) fun _ => True
  /-- The template at a location, compiled through the cache. -/
  | compiled (name : String) : M.inclusions →
      Elementary e (partialOf.compiled e name) fun fragment => Node.Every M.node fragment.nodes
  | data {name : String} : M.request (.data name) →
      Elementary e (Render.read fun w => w.side.get? name) fun _ => True
  | setData {name : String} {v : Value} : M.request (.setData name v) →
      Elementary e (Render.update fun w => { w with side := w.side.set name v }) fun _ => True
  | frames : M.request .frames → Elementary e
      (Render.read fun w => w.side.frames.all.map fun frame => frame.map (·.1)) fun _ => True
  | log (level : Nat) (message : String) : Elementary e (Render.update fun w =>
      if level == 0 then w else { w with logs := w.logs ++ [(level, message)] }) fun _ => True
  | note (entry : CallNote) : Elementary e
      (Render.update fun w => { w with notes := w.notes ++ [entry] }) fun _ => True

/-- Steps that are composed of elementary ones and of fragments of the material, rendered by whatever
renderer is given. -/
inductive Composed (e : Engine) : {α : Type} → (Renderer → Render α) → (α → Prop) → Prop where
  | elementary {α : Type} {m : Render α} {V : α → Prop} : M.Elementary e m V →
      Composed e (fun _ => m) V
  | fragment {fragment : Fragment} (scope : Scope) : Node.Every M.node fragment.nodes →
      Composed e (fun render => render fragment scope) fun _ => True
  | bind {α β : Type} {m : Renderer → Render α} {k : Renderer → α → Render β} {V : α → Prop}
      {U : β → Prop} : Composed e m V → (∀ a, V a → Composed e (fun render => k render a) U) →
      Composed e (fun render => m render >>= k render) U
  | observe {α : Type} {m : Renderer → Render α} {V : α → Prop} : Composed e m V →
      Composed e (fun render => Render.observe (m render)) fun _ => True
  | mapFailure {α : Type} {m : Renderer → Render α} {V : α → Prop} (g : Failure → Failure) :
      Composed e m V → Composed e (fun render => Render.mapFailure g (m render)) V
  | captured {m : Renderer → Render Unit} {V : Unit → Prop} : Composed e m V →
      Composed e (fun render => Render.captured (m render)) fun _ => True
  | inFrame {α : Type} {m : Renderer → Render α} {V : α → Prop} : Composed e m V →
      Composed e (fun render => Render.inFrame (m render)) V

namespace Composed

variable {M} {e : Engine} {α : Type} {V : α → Prop}

theorem pure {a : α} (h : V a) : M.Composed e (fun _ => Pure.pure a) V := .elementary (.pure h)

theorem throw (f : Failure) : M.Composed e (fun _ => (MonadExcept.throw f : Render α)) V :=
  .elementary (.throw f)

theorem ofExcept {x : Except Failure α} (h : ∀ a, x = .ok a → V a) :
    M.Composed e (fun _ => Render.ofExcept x) V := by
  cases x with
  | ok a => exact .pure (h a rfl)
  | error f => exact .throw f

theorem ofFault {x : Except Fault α} (h : ∀ a, x = .ok a → V a) :
    M.Composed e (fun _ => Render.ofFault x) V := by
  cases x with
  | ok a => exact .pure (h a rfl)
  | error cause => exact .throw (.fault cause)

theorem ite {p : Prop} [Decidable p] {m m' : Renderer → Render α} (hm : p → M.Composed e m V)
    (hm' : ¬p → M.Composed e m' V) :
    M.Composed e (fun render => if p then m render else m' render) V := by
  by_cases h : p
  · simp only [if_pos h]
    exact hm h
  · simp only [if_neg h]
    exact hm' h

end Composed

/-- An engine whose helpers make the requests of the material, and that compiles its nodes. -/
structure Lawful (e : Engine) : Prop where
  binds : ∀ n, M.node n → n.TagBinds fun b => b.2.AsksOnly M.request
  registry : ∀ name helper, e.registry.lookup name = some helper → helper.AsksOnly M.request
  parse : ∀ marks name text t, e.parse marks name text = .ok t → Node.Every M.node t.root
  text : ∀ place content, M.node (.text place content)

variable {M} {e : Engine}

/-! ### Requests of helpers -/

/-- The clauses of a call are of the material. -/
structure ClausesOf (M : Material) (clauses : Clauses) : Prop where
  body : Node.Every M.node clauses.body.nodes
  inverse : Node.Every M.node clauses.inverse.nodes

theorem ClausesOf.none (hasSink : Bool) : M.ClausesOf { hasSink } :=
  ⟨Node.Every.nil, Node.Every.nil⟩

section

variable (L : M.Lawful e)

include L

section

variable {clauses : Clauses} (hclauses : M.ClausesOf clauses)

include hclauses

theorem composed_answer (call : Call) {q : Request} (hq : M.request q) :
    M.Composed e (fun render => answer e render call clauses q) fun _ => True := by
  cases q with
  | render what scope =>
    have hfragment : ∀ fragment, fragmentOf e clauses what = .ok fragment →
        Node.Every M.node fragment.nodes := by
      intro fragment hfragment
      cases what with
      | body =>
        cases hfragment
        exact hclauses.body
      | inverse =>
        cases hfragment
        exact hclauses.inverse
      | source name text =>
        obtain ⟨t, ht, hfragment⟩ := bind_eq_ok_iff.1 hfragment
        cases hfragment
        exact L.parse _ _ _ t ht
    exact (Composed.ofExcept hfragment).bind fun fragment h => (Composed.fragment scope h).captured
  | source | hasSink => exact .pure trivial
  | write text => exact .ite (fun _ => .elementary (.emit text)) fun _ => .throw _
  | get reference => exact .elementary (m := Render.get call.scope reference) (.get _ _)
  | data name => exact .elementary (m := Render.read _) (.data hq)
  | setData name v => exact .elementary (m := Render.update _) (.setData hq)
  | display v => exact .elementary (.display v)
  | items v => exact .elementary (.items v)
  | label => exact .elementary .freshLabel
  | frames => exact .elementary (m := Render.read _) (.frames hq)
  | log level message => exact .elementary (.log level message)
  | note entry => exact .elementary (.note entry)

/-- An action is composed of the answers to its requests, by induction on them. -/
theorem composed_perform (call : Call) {α : Type} {action : Action α}
    (haction : action.AsksOnly M.request) :
    M.Composed e (fun render => action.perform (answer e render call clauses)) fun _ => True := by
  induction action with
  | done a => exact .pure trivial
  | fail failure => exact .throw failure
  | ask q next ih =>
    exact (composed_answer L hclauses call haction.1).observe.bind fun reply _ =>
      ih reply (haction.2 reply)

theorem composed_invoke {helper : Helper} (hhelper : helper.AsksOnly M.request) (subject : Value)
    (call : Call) :
    M.Composed e (fun render => invoke e render helper subject call clauses) fun _ => True :=
  (composed_perform L hclauses call (hhelper subject call)).mapFailure _

end

/-! ### Arguments -/

omit L in
theorem composed_transform (v : Value) : M.Composed e (fun _ => transform e v) fun _ => True :=
  (Composed.elementary .freshLabel).bind fun _ _ => .pure trivial

theorem composed_helperFor {name : String} {bound : Option Helper}
    (hbound : ∀ helper, bound = some helper → helper.AsksOnly M.request) :
    M.Composed e (fun _ => e.helperFor name bound) (Helper.AsksOnly M.request) := by
  unfold Engine.helperFor
  cases bound with
  | some helper => exact .pure (hbound helper rfl)
  | none =>
    dsimp only
    cases hmissing : e.missing? with
    | some helper => exact .pure (L.registry _ helper hmissing)
    | none => exact .throw _

omit L in
theorem composed_arguments {scope : Scope} {args : List Param}
    (h : ∀ p ∈ args, M.Composed e (fun render => argument e render scope p) fun _ => True) :
    M.Composed e (fun render => arguments e render scope args) fun _ => True := by
  induction args with
  | nil =>
    simp only [arguments]
    exact .pure trivial
  | cons p rest ih =>
    obtain ⟨hp, hrest⟩ := List.forall_mem_cons.1 h
    simp only [arguments]
    exact hp.bind fun v _ => (ih hrest).bind fun vs _ => .pure trivial

omit L in
theorem composed_namedArguments {scope : Scope} {hash : HashParams}
    (h : ∀ entry ∈ hash,
      M.Composed e (fun render => argument e render scope entry.2) fun _ => True) :
    M.Composed e (fun render => namedArguments e render scope hash) fun _ => True := by
  induction hash with
  | nil =>
    simp only [namedArguments]
    exact .pure trivial
  | cons entry rest ih =>
    obtain ⟨key, p⟩ := entry
    obtain ⟨hp, hrest⟩ := List.forall_mem_cons.1 h
    simp only [namedArguments]
    exact hp.bind fun v _ => (ih hrest).bind fun named _ => .pure trivial

/-- Arguments, by induction on the calls in them. -/
theorem composed_argument (scope : Scope) (p : Param)
    (hp : ∀ b ∈ p.bound, b.2.AsksOnly M.request) :
    M.Composed e (fun render => argument e render scope p) fun _ => True := by
  induction p using Param.induct with
  | literal raw value =>
    simp only [argument]
    exact .pure trivial
  | reference raw =>
    simp only [argument]
    exact .elementary (.get scope raw)
  | call place name args hash bound ihargs ihhash =>
    have hown : ∀ helper, bound = some helper → helper.AsksOnly M.request := by
      rintro helper rfl
      exact hp (name, helper) (List.mem_append_left _ List.mem_cons_self)
    have hargs : ∀ p ∈ args,
        M.Composed e (fun render => argument e render scope p) fun _ => True := by
      intro p hmem
      refine ihargs p hmem fun b hb => hp b (List.mem_append_right _ (List.mem_append_left _ ?_))
      exact Param.mem_argsBound.2 ⟨p, hmem, hb⟩
    have hhash : ∀ entry ∈ hash,
        M.Composed e (fun render => argument e render scope entry.2) fun _ => True := by
      intro entry hmem
      refine ihhash entry hmem fun b hb =>
        hp b (List.mem_append_right _ (List.mem_append_right _ ?_))
      exact Param.mem_hashBound.2 ⟨entry, hmem, hb⟩
    simp only [argument]
    refine (composed_helperFor L hown).bind fun helper hhelper => ?_
    have hcalled (subject : Value) (params : List Value) : M.Composed e (fun render => do
          let named ← namedArguments e render scope hash
          invoke e render helper subject
            { helper := name, tag := .call, scope, params, hash := Bindings.ofPairs named,
              blockParams := [], arity := args.length }
            { hasSink := false }) fun _ => True :=
      (composed_namedArguments hhash).bind fun named _ =>
        composed_invoke L (.none false) hhelper subject _
    cases args with
    | nil => exact (composed_transform _).bind fun subject _ => hcalled subject []
    | cons first rest =>
      obtain ⟨hfirst, hrest⟩ := List.forall_mem_cons.1 hargs
      simp only [pure_bind]
      refine hfirst.bind fun v _ => (composed_transform v).bind fun subject _ => ?_
      exact (composed_arguments hrest).bind fun params _ => hcalled subject params

/-- The arguments of a tag. -/
theorem composed_tagArgument (scope : Scope) {args : List Param} {hash : HashParams}
    (hbound : ∀ b ∈ Param.argsBound args ++ Param.hashBound hash, b.2.AsksOnly M.request) :
    (∀ p ∈ args, M.Composed e (fun render => argument e render scope p) fun _ => True) ∧
      ∀ entry ∈ hash,
        M.Composed e (fun render => argument e render scope entry.2) fun _ => True := by
  constructor
  · intro p hmem
    refine composed_argument L scope p fun b hb => hbound b (List.mem_append_left _ ?_)
    exact Param.mem_argsBound.2 ⟨p, hmem, hb⟩
  · intro entry hmem
    refine composed_argument L scope entry.2 fun b hb => hbound b (List.mem_append_right _ ?_)
    exact Param.mem_hashBound.2 ⟨entry, hmem, hb⟩

section

variable {call : Invocation} (hbound : ∀ b ∈ call.argBound, b.2.AsksOnly M.request)

include hbound

theorem composed_subjectOf (scope : Scope) :
    M.Composed e (fun render => subjectOf e render scope call.args) fun _ => True := by
  obtain ⟨hargs, -⟩ := composed_tagArgument L scope hbound
  cases hcall : call.args with
  | nil => exact .pure trivial
  | cons first rest => exact hargs first (hcall ▸ List.mem_cons_self)

theorem composed_callOf (name : String) (tag : TagKind) (scope : Scope)
    (blockParams : List String) :
    M.Composed e (fun render => callOf e render name tag scope call.args call.hash blockParams)
      fun _ => True := by
  obtain ⟨hargs, hhash⟩ := composed_tagArgument L scope hbound
  have hrest := composed_arguments fun p hmem => hargs p (List.mem_of_mem_drop (i := 1) hmem)
  exact hrest.bind fun params _ => (composed_namedArguments hhash).bind fun named _ => .pure trivial

/-- A helper without clauses, called with what its tag tells it. -/
theorem composed_called (name : String) (tag : TagKind) (scope : Scope) {helper : Helper}
    (hhelper : helper.AsksOnly M.request) (subject : Value) :
    M.Composed e (fun render => do
      let told ← callOf e render name tag scope call.args call.hash []
      invoke e render helper subject told { hasSink := true }) fun _ => True :=
  (composed_callOf L hbound name tag scope []).bind fun told _ =>
    composed_invoke L (.none true) hhelper subject told

end

/-! ### Tags -/

theorem composed_lambdaMarkup (scope : Scope) (section_ : Option String) (marks : Delimiters)
    (v : Value) : M.Composed e (fun _ => lambdaMarkup e scope section_ marks v) fun fragment =>
      Node.Every M.node fragment.nodes := by
  have hanswer : M.Composed e (fun _ => lambdaAnswer scope section_ v) fun _ => True := by
    unfold lambdaAnswer
    split
    · exact .ofExcept fun _ _ => trivial
    · exact .elementary (.get scope _)
    · exact .pure trivial
  unfold lambdaMarkup
  refine hanswer.bind fun found _ => ?_
  split
  · exact (Composed.ofExcept fun t ht => L.parse _ _ _ t ht).bind fun t ht => .pure ht
  · refine (Composed.elementary (.display _)).bind fun text _ => .pure ?_
    exact Node.Every.cons_iff.2 ⟨L.text none text, Node.Every.nil, Node.Every.nil⟩

theorem composed_outputValue {call : Invocation}
    (hbound : ∀ b ∈ call.argBound, b.2.AsksOnly M.request)
    (hown : ∀ helper, call.helper = some helper → helper.AsksOnly M.request) (scope : Scope)
    (style : OutputStyle) (marks : Delimiters) :
    M.Composed e (fun render => outputValue e render scope style call marks) fun _ => True := by
  unfold outputValue
  dsimp only
  cases hhelper : call.helper with
  | some helper =>
    refine (composed_subjectOf L hbound scope).bind fun v _ => ?_
    refine (composed_transform v).bind fun subject _ => ?_
    exact composed_called L hbound _ _ scope (hown helper hhelper) subject
  | none =>
    refine .ite (fun _ => ?arguments) fun _ => ?_
    case arguments =>
      cases hfound : e.missing? with
      | some helper => exact composed_called L hbound _ _ scope (L.registry _ helper hfound) .null
      | none => exact .throw _
    refine (Composed.elementary (.get scope call.name)).bind fun v _ => ?_
    refine (composed_transform v).bind fun value _ => ?_
    refine .ite (fun _ => ?null) fun _ => ?_
    case null =>
      cases hfound : e.missing? with
      | some helper => exact composed_called L hbound _ _ scope (L.registry _ helper hfound) .null
      | none => exact .pure trivial
    refine .ite (fun _ => ?_) fun _ => .pure trivial
    refine (composed_lambdaMarkup L scope none marks value).bind fun markup hmarkup => ?_
    exact (Composed.fragment scope hmarkup).captured.bind fun text _ => .pure trivial

omit L in
theorem composed_outputText (style : OutputStyle) (v : Value) :
    M.Composed e (fun _ => outputText e style v) fun _ => True := by
  rw [Regime.outputText_eq]
  exact (Composed.elementary (.display v)).bind fun _ _ => .pure trivial

omit L in
theorem composed_writeAnswer (v : Value) : M.Composed e (fun _ => writeAnswer v) fun _ => True := by
  unfold writeAnswer
  exact .ite (fun _ => .pure trivial) fun _ =>
    (Composed.elementary (.display v)).bind fun text _ => .elementary (.emit text)

/-! ### Sections -/

theorem composed_treatment (scope : Scope) (head : BlockHead) {body : List Node}
    (hbody : Node.Every M.node body) (v : Value) :
    M.Composed e (fun _ => treatment e scope head body v) fun treated =>
      Node.Every M.node treated.body.nodes := by
  unfold treatment
  refine .ite (fun _ => .pure hbody) fun _ => .ite (fun _ => .pure hbody) fun _ => ?_
  split
  · exact .pure hbody
  · refine .ite (fun _ => ?_) fun _ => .pure hbody
    exact (composed_lambdaMarkup L scope _ _ v).bind fun markup hmarkup => .pure hmarkup

theorem composed_implicitHelper (head : BlockHead) (which : Builtin) (v : Value) :
    M.Composed e (fun _ => implicitHelper e head which v) fun found =>
      found.1.AsksOnly M.request := by
  unfold implicitHelper
  split
  · rename_i helper _ hhelper
    exact .pure (L.registry _ helper hhelper)
  · split
    · rename_i helper hhelper
      exact .pure (L.registry _ helper hhelper)
    · exact .throw _

theorem composed_sectionCall {head : BlockHead}
    (hbound : ∀ b ∈ head.call.argBound, b.2.AsksOnly M.request)
    (hown : ∀ helper, head.call.helper = some helper → helper.AsksOnly M.request)
    {body : List Node} (hbody : Node.Every M.node body) (scope : Scope) :
    M.Composed e (fun render => sectionCall e render scope head body) fun told =>
      told.helper.AsksOnly M.request ∧ Node.Every M.node told.body.nodes := by
  unfold sectionCall
  cases hhelper : head.call.helper with
  | some helper =>
    refine (composed_subjectOf L hbound scope).bind fun v _ => ?_
    refine (composed_transform v).bind fun subject _ => ?_
    refine (composed_callOf L hbound _ .block scope head.blockParams).bind fun call _ => ?_
    exact .pure ⟨hown helper hhelper, hbody⟩
  | none =>
    refine (Composed.elementary (.get scope head.call.name)).bind fun v _ => ?_
    refine (composed_transform v).bind fun subject _ => ?_
    refine (composed_treatment L scope head hbody subject).bind fun treated htreated => ?_
    refine (composed_implicitHelper L head treated.helper subject).bind ?_
    rintro ⟨helper, name⟩ hhelper
    refine (composed_callOf L hbound name .block treated.scope head.blockParams).bind ?_
    exact fun call _ => .pure ⟨hhelper, htreated⟩

omit L in
theorem composed_defineInlines {nodes : List Node} (h : M.Whole nodes) :
    M.Composed e (fun _ => defineInlines nodes) fun _ => True := by
  induction nodes with
  | nil => exact .pure trivial
  | cons n rest ih =>
    obtain ⟨-, hchildren, hrest⟩ := Node.Every.cons_iff.1 h.1
    obtain ⟨hdefines, -, hdefinesRest⟩ := Node.Every.cons_iff.1 h.2
    cases n with
    | inlinePartial place name body delimiters =>
      exact (Composed.elementary (.define hdefines hchildren)).bind fun _ _ =>
        ih ⟨hrest, hdefinesRest⟩
    | _ => exact ih ⟨hrest, hdefinesRest⟩

theorem composed_insideBlock {head : BlockHead}
    (hbound : ∀ b ∈ head.call.argBound, b.2.AsksOnly M.request)
    (hown : ∀ helper, head.call.helper = some helper → helper.AsksOnly M.request)
    {body : List Node} (hbody : M.Whole body) {inverse : Fragment}
    (hinverse : Node.Every M.node inverse.nodes) (scope : Scope) :
    M.Composed e (fun render => insideBlock e render scope head body inverse) fun _ => True := by
  simp only [insideBlock_eq, blockValue_eq]
  refine (composed_defineInlines hbody).bind fun _ _ => .mapFailure _ ?_
  refine .bind (V := fun _ => True) ?_ fun value _ => composed_writeAnswer value
  refine (composed_sectionCall L hbound hown hbody.1 scope).bind fun told htold => ?_
  exact composed_invoke L ⟨htold.2, hinverse⟩ htold.1 told.subject told.call

/-! ### Partials -/

omit L in
theorem composed_partialOf (hinclusions : M.inclusions) (name : String) :
    M.Composed e (fun _ => partialOf e name) fun fragment => Node.Every M.node fragment.nodes := by
  unfold partialOf
  refine (Composed.elementary (.partials hinclusions)).bind fun frames hframes => ?_
  refine (Composed.ofFault (V := fun visible => frames.visible = .ok visible)
    fun _ h => h).bind fun visible hvisible => ?_
  split
  · rename_i body hbody
    exact .pure (hframes.lookup hvisible hbody)
  · exact .ite (fun _ => .elementary (.compiled name hinclusions)) fun _ => .throw _
  · exact .elementary (.compiled name hinclusions)

theorem composed_partialScope {args : List Param} {hash : HashParams}
    (hbound : ∀ b ∈ Param.argsBound args ++ Param.hashBound hash, b.2.AsksOnly M.request)
    (scope : Scope) :
    M.Composed e (fun render => partialScope e render scope args hash) fun _ => True := by
  obtain ⟨hargs, hhash⟩ := composed_tagArgument L scope hbound
  have hnamed (inner : Scope) : M.Composed e (fun render => if hash.isEmpty then pure inner
      else do pure (inner.withBindings (Bindings.ofPairs (← namedArguments e render scope hash))))
      fun _ => True :=
    .ite (fun _ => .pure trivial) fun _ =>
      (composed_namedArguments hhash).bind fun named _ => .pure trivial
  unfold partialScope
  cases args with
  | nil => exact hnamed scope
  | cons first rest =>
    exact (hargs first List.mem_cons_self).bind fun model _ => hnamed (scope.child model [])

/-! ### Nodes -/

/-- The helpers that a tag calls, from those that its node binds. -/
theorem asksOnly_called {n : Node} (hn : M.node n) {call : Invocation}
    (hbound : n.tagBound = call.ownBound ++ call.argBound) :
    (∀ b ∈ call.argBound, b.2.AsksOnly M.request) ∧
      ∀ helper, call.helper = some helper → helper.AsksOnly M.request := by
  have hbinds := L.binds n hn
  rw [Node.TagBinds, hbound] at hbinds
  refine ⟨fun b hb => hbinds b (List.mem_append_right _ hb), fun helper hhelper => ?_⟩
  have hmem : (call.name, helper) ∈ call.ownBound := Invocation.mem_ownBound.2 ⟨rfl, hhelper⟩
  exact hbinds _ (List.mem_append_left _ hmem)

/-- A node is composed of steps of the material, one case for each kind of node. Only a partial tag
includes anything by itself. -/
theorem composed_renderNode (scope : Scope) {n : Node} (h : M.Whole [n])
    (hinclusions : n.isInclusion = true → M.inclusions) :
    M.Composed e (fun render => renderNode e render scope n) fun _ => True := by
  have hnode := (Node.Every.cons_iff.1 h.1).1
  cases n with
  | text place content => exact .elementary (.emit content)
  | comment | inlinePartial => exact .pure trivial
  | output place style call marks =>
    obtain ⟨hbound, hown⟩ := asksOnly_called L hnode (Node.tagBound_output place marks style call)
    refine .mapFailure _ ((composed_outputValue L hbound hown scope style marks).bind ?_)
    refine fun value _ => .ite (fun _ => .pure trivial) fun _ => ?_
    exact (composed_outputText style value).bind fun text _ => .elementary (.emit text)
  | block head body inverse =>
    cases body with
    | none => exact .pure trivial
    | some body =>
      obtain ⟨hbound, hown⟩ := asksOnly_called L hnode (Node.tagBound_block head (some body) inverse)
      exact (composed_insideBlock L hbound hown ⟨h.1.body, h.2.body⟩ h.1.inverse scope).inFrame
  | inclusion place name args hash marks =>
    refine .mapFailure _ ((composed_partialOf (hinclusions rfl) name).bind ?_)
    refine fun fragment hfragment => ?_
    have hbound := L.binds _ hnode
    rw [Node.TagBinds, Node.tagBound_inclusion] at hbound
    refine (composed_partialScope L hbound scope).bind fun inner _ => ?_
    exact .fragment inner hfragment

variable (hinclusions : M.inclusions)

include hinclusions

theorem composed_renderNodes (scope : Scope) {nodes : List Node} (h : M.Whole nodes) :
    M.Composed e (fun render => renderNodes e render scope nodes) fun _ => True := by
  induction nodes with
  | nil => exact .pure trivial
  | cons n rest ih =>
    obtain ⟨hn, hrest⟩ := Node.Every.append_iff.1 (show Node.Every M.node ([n] ++ rest) from h.1)
    obtain ⟨hn', hrest'⟩ :=
      Node.Every.append_iff.1 (show Node.Every M.Defines ([n] ++ rest) from h.2)
    exact (composed_renderNode L scope ⟨hn, hn'⟩ fun _ => hinclusions).bind fun _ _ =>
      ih ⟨hrest, hrest'⟩

/-- What is rendered of a fragment by itself: its partials are defined, and then its nodes follow. -/
theorem composed_fragment (fragment : Fragment) (scope : Scope) (h : M.Whole fragment.nodes) :
    M.Composed e (fun render => do
      defineInlines fragment.nodes
      Render.located fragment.place (renderNodes e render scope fragment.nodes)) fun _ => True :=
  (composed_defineInlines h).bind fun _ _ =>
    .mapFailure _ (composed_renderNodes L hinclusions scope h)

end

end Material

end Stencil
