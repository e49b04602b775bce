import Stencil.Proofs.Render.Sections
import Stencil.Proofs.Render.View

/-!
# Still renders are determined

The evaluator followed once more from its requests up to whole fragments: with the built-in helpers
and still data, every function of it comes to the same wherever it sees the same.
-/

namespace Stencil

namespace Render

/-- Displaying still data changes nothing. -/
theorem outcome_display {v : Value} {text : Except Fault String}
    (h : ∀ drawn, v.display drawn = text.map (·, drawn)) (w : World) :
    (Render.display v).outcome w = some (text.mapError .fault, w) := by
  unfold Render.display
  rw [outcome_bind]
  show (Render.ofFault (v.display w.drawn) >>= _).outcome w = _
  rw [h]
  cases text <;> rfl

end Render

open Render

variable {e : Engine}

/-! ### Steps of the world -/

section

variable (he : e.Still)

include he

theorem determined_get {scope : Scope} (hscope : scope.All Value.Still) (reference : String) :
    Determined e (Render.get scope reference) Value.Still :=
  .of_result (fun _ => Regime.keeps_get (Regime.still_lawful he) hscope reference)
    (fun view => scope.get (SideChannel.readable { data := view.data }) reference)
    fun w => ⟨w, outcome_get scope reference w, rfl, rfl⟩

theorem determined_display {v : Value} (hv : v.Still) :
    Determined e (Render.display v) fun _ => True := by
  obtain ⟨text, htext⟩ := hv.display
  exact .of_result (fun _ => (Regime.keeps_display (Regime.still_lawful he) v).weaken)
    (fun _ => text.mapError .fault) fun w => ⟨w, outcome_display htext w, rfl, rfl⟩

omit he in
theorem determined_items {v : Value} (hv : v.Still) :
    Determined e (Render.items v) fun items => ∀ u ∈ items, u.Still := by
  cases v with
  | list label items | tuple label items => exact .pure hv.inner
  | iterator label items => exact absurd hv.not_iterator (by simp [Value.isIterator])
  | _ => exact .pure (List.forall_mem_nil _)

theorem determined_transform {v : Value} (hv : v.Still) :
    Determined e (transform e v) Value.Still := by
  -- The next label counts up; neither is it seen, nor does the transformed value depend on it.
  obtain ⟨u, -, hu⟩ := he.transformer.apply hv
  refine .of_result (fun _ => Regime.keeps_transform (Regime.still_lawful he) hv)
    (fun _ => .ok u) fun w => ?_
  refine ⟨{ w with nextLabel := w.nextLabel + 1 }, ?_, rfl, rfl⟩
  rw [← hu w.nextLabel]
  rfl

omit he in
/-- One partial defined in the innermost frame. -/
theorem determined_define {name : String} {body : List Node} (hbody : Node.AllBuiltIn body) :
    Determined e (Render.changeFrames (Frames.define name (.nodes body))) fun _ => True := by
  refine .of_effect (fun f => Render.Keeps.changeFrames fun w hw => ?_)
    (fun view => match view.partials with
      | .ok partials =>
        ⟨.ok (), .ok fun other => if other = name then some (.nodes body) else partials other, ""⟩
      | .error cause => ⟨.error (.fault cause), .error cause, ""⟩)
    fun w => ?_
  · refine (Frames.define_meets _ name (.nodes body)).mono (fun _ _ => trivial) fun g hg => ?_
    exact hw.withFrames (hw.partials.define hbody hg) (hw.below.trans (.of_define hg))
  · rw [outcome_changeFrames]
    rcases w.side.frames.define_eq name (.nodes body) with
      ⟨partials, g, hshown, hdefine, hg⟩ | ⟨cause, hshown, hdefine⟩
    · have hpartials : (w.view e).partials = .ok partials := hshown
      rw [hdefine, hpartials]
      refine ⟨w.withFrames g, rfl, ?_, String.append_empty.symm⟩
      show (⟨w.side.data, g.shown, e.templateAt w.cache⟩ : View) = _
      rw [hg]
      rfl
    · have hpartials : (w.view e).partials = .error cause := hshown
      rw [hdefine, hpartials]
      exact ⟨w, rfl, View.withPartials_self hpartials, String.append_empty.symm⟩

omit he in
theorem determined_defineInlines {nodes : List Node} (hnodes : Node.AllBuiltIn nodes) :
    Determined e (defineInlines nodes) fun _ => True := by
  induction nodes with
  | nil => exact .pure trivial
  | cons n rest ih =>
    obtain ⟨-, hchildren, hrest⟩ := Node.Every.cons_iff.1 hnodes
    cases n with
    | inlinePartial place name body delimiters =>
      exact (determined_define hchildren).bind fun _ _ => ih hrest
    | _ => exact ih hrest

/-- A step in a frame of its own: the frame is popped, and the partials are as they were. -/
theorem determined_inFrame {α : Type} {m : Render α} {V : α → Prop} (hm : Determined e m V) :
    Determined e (Render.inFrame m) V := by
  have hkeeps (f : Frames) :
      (Render.inFrame m).Keeps (Regime.still.Holds f) Regime.still.failure V :=
    fun w r after hw hr => (Regime.inFrame_restores (Regime.still_lawful he) hm.keeps hw hr).2
  refine ⟨hkeeps, fun view => ?_⟩
  obtain ⟨x?, hx⟩ := hm.settled view
  refine ⟨match view.partials with
    | .ok _ => x?.map fun x => { x with partials := view.partials }
    | .error cause => some ⟨.error (.fault cause), view.partials, ""⟩, fun w hstill hview => ?_⟩
  subst hview
  rcases w.side.frames.push_eq with
    ⟨partials, pushed, hshown, hpush, hpushed⟩ | ⟨cause, hshown, hpush⟩
  · have hpartials : (w.view e).partials = .ok partials := hshown
    have hinner : World.Still (w.withFrames pushed) :=
      ⟨hstill.data, hstill.partials.push hpush, hstill.cache⟩
    -- The new frame is a copy, so inside it the same is seen.
    have hsame : (w.withFrames pushed).view e = w.view e := by
      show (⟨w.side.data, pushed.shown, e.templateAt w.cache⟩ : View) = _
      rw [hpushed, ← hshown]
      rfl
    rw [hpartials]
    cases hx _ hinner hsame with
    | nothing hrun => exact .nothing (by rw [outcome_inFrame, hpush]; dsimp only; rw [hrun]; rfl)
    | @effect x after hrun hafter houtput =>
      obtain ⟨result, left, written⟩ := x
      have hpop := (Regime.pop_inFrame hm.keeps hstill.holds hpush hrun).1
      have hpopped : (Render.inFrame m).outcome w =
          some (result, after.withFrames w.side.frames) := by
        rw [outcome_inFrame, hpush]
        simp only [hrun, Option.bind_some, hpop]
      refine .effect hpopped ?_ houtput
      show (⟨after.side.data, w.side.frames.shown, e.templateAt after.cache⟩ : View) = _
      rw [hshown]
      rw [hsame] at hafter
      exact congrArg (fun view : View => { view with partials := .ok partials }) hafter
  · have hpartials : (w.view e).partials = .error cause := hshown
    rw [hpartials]
    exact .effect (by rw [outcome_inFrame, hpush]) (View.withPartials_self hpartials)
      String.append_empty.symm

/-! ### Calls of helpers -/

/-- A renderer that is determined for fragments of built-ins in still scopes. -/
def RendersDetermined (e : Engine) (render : Renderer) : Prop :=
  ∀ fragment scope, Node.AllBuiltIn fragment.nodes → scope.All Value.Still →
    Determined e (render fragment scope) fun _ => True

omit he in
theorem RendersDetermined.within {render : Renderer} (h : RendersDetermined e render) :
    Regime.still.RendersWithin render :=
  fun f fragment scope hfragment hscope => (h fragment scope hfragment hscope).keeps f

variable {render : Renderer} (hrender : RendersDetermined e render)

include hrender

/-- Blind requests are answered in a determined way. -/
theorem determined_answer {call : Call} (hcall : Regime.still.Tells call) {clauses : Clauses}
    (hclauses : Regime.still.ClausesWithin clauses) {q : Request} (hq : Regime.still.Admits q)
    (hblind : q.Blind) :
    Determined e (answer e render call clauses q) (Regime.still.Answers q) := by
  have hkeeps (f : Frames) : (answer e render call clauses q).Keeps (Regime.still.Holds f)
      Regime.still.failure (Regime.still.Answers q) :=
    Regime.keeps_answer (Regime.still_lawful he) hrender.within hcall hclauses hq
  cases q with
  | render what scope =>
    refine Determined.bind
      (.ofExcept (Regime.fragmentOf_meets (Regime.still_lawful he) hclauses hq)) ?_
    intro fragment hfragment
    exact (hrender fragment scope hfragment (Regime.Admits.scope hq)).captured
  | source what => exact .pure trivial
  | hasSink => exact .pure trivial
  | write text => exact .ite (fun _ => .emit text) fun _ => .throw _
  | get reference => exact determined_get he hcall.scope reference
  | display v => exact determined_display he hblind
  | items v => exact determined_items hq
  | log level message =>
    refine .of_result hkeeps (fun _ => .ok ()) fun w => ⟨_, rfl, ?_, ?_⟩
    · split <;> rfl
    · split <;> rfl
  | note entry => exact .of_result hkeeps (fun _ => .ok ()) fun w => ⟨_, rfl, rfl, rfl⟩
  | label | frames | data | setData => exact hblind.elim

/-- A blind action is performed in a determined way, by induction on its requests. -/
theorem determined_perform {call : Call} (hcall : Regime.still.Tells call) {clauses : Clauses}
    (hclauses : Regime.still.ClausesWithin clauses) {α : Type} {V : α → Prop} {action : Action α}
    (haction : Regime.still.Obeys V action) (hblind : action.Blind) :
    Determined e (action.perform (answer e render call clauses)) V := by
  induction action with
  | done a => exact .pure haction
  | fail failure => exact .throw failure
  | ask q next ih =>
    have hanswer := determined_answer he hrender hcall hclauses haction.1 hblind.1
    exact hanswer.observe.bind fun reply hreply =>
      ih reply (haction.2 reply hreply) (hblind.2 reply)

theorem determined_invoke {name : String} {helper : Helper} (hhelper : helper.IsBuiltIn name)
    {subject : Value} (hsubject : subject.Still) {call : Call} (hcall : Regime.still.Tells call)
    {clauses : Clauses} (hclauses : Regime.still.ClausesWithin clauses) :
    Determined e (invoke e render helper subject call clauses) Value.Still := by
  have hobeys := Regime.still_serves hhelper call.tag subject call hsubject hcall rfl
  rw [Regime.still_result] at hobeys
  have hblind := Regime.still_blind hhelper hsubject hcall
  exact (determined_perform he hrender hcall hclauses hobeys hblind).mapFailure _

/-! ### Arguments -/

omit hrender in
theorem determined_helperFor {name : String} {bound : Option Helper}
    (hbound : ∀ helper, bound = some helper → helper.IsBuiltIn name) :
    Determined e (e.helperFor name bound) fun helper => ∃ name, helper.IsBuiltIn name := by
  unfold Engine.helperFor
  split
  · rename_i helper
    exact .pure ⟨name, hbound helper rfl⟩
  · split
    · rename_i helper hhelper
      exact .pure ⟨_, he.registry _ helper hhelper⟩
    · exact .throw _

omit he hrender in
theorem determined_arguments {scope : Scope} {args : List Param}
    (hargs : ∀ p ∈ args, Determined e (argument e render scope p) Value.Still) :
    Determined e (arguments e render scope args) fun vs => ∀ v ∈ vs, v.Still := by
  induction args with
  | nil =>
    rw [arguments]
    exact .pure (List.forall_mem_nil _)
  | cons p rest ih =>
    rw [arguments]
    obtain ⟨hp, hrest⟩ := List.forall_mem_cons.1 hargs
    exact hp.bind fun v hv => (ih hrest).bind fun vs hvs => .pure (List.forall_mem_cons.2 ⟨hv, hvs⟩)

omit he hrender in
theorem determined_namedArguments {scope : Scope} {hash : HashParams}
    (hhash : ∀ entry ∈ hash, Determined e (argument e render scope entry.2) Value.Still) :
    Determined e (namedArguments e render scope hash) fun named =>
      ∀ pair ∈ named, pair.2.Still := by
  induction hash with
  | nil =>
    rw [namedArguments]
    exact .pure (List.forall_mem_nil _)
  | cons entry rest ih =>
    obtain ⟨key, p⟩ := entry
    rw [namedArguments]
    obtain ⟨hp, hrest⟩ := List.forall_mem_cons.1 hhash
    refine hp.bind fun v hv => (ih hrest).bind fun named hnamed => ?_
    exact .pure (List.forall_mem_cons.2 ⟨hv, hnamed⟩)

/-- Arguments are determined, by induction on the calls in them. -/
theorem determined_argument {scope : Scope} (hscope : scope.All Value.Still) (p : Param)
    (hp : ∀ b ∈ p.bound, b.IsBuiltIn) : Determined e (argument e render scope p) Value.Still := by
  induction p using Param.induct with
  | literal raw value =>
    rw [argument]
    exact .pure (.literal value)
  | reference raw =>
    rw [argument]
    exact determined_get he hscope raw
  | call place name args hash bound ihargs ihhash =>
    have hown : ∀ helper, bound = some helper → helper.IsBuiltIn name := by
      rintro helper rfl
      exact hp (name, helper) (List.mem_append_left _ List.mem_cons_self)
    have hargs : ∀ p ∈ args, Determined e (argument e render scope p) Value.Still := by
      intro p hmem
      refine ihargs p hmem fun b hb => hp b (List.mem_append_right _ (List.mem_append_left _ ?_))
      exact Param.mem_argsBound.2 ⟨p, hmem, hb⟩
    have hhash : ∀ entry ∈ hash, Determined e (argument e render scope entry.2) Value.Still := by
      intro entry hmem
      refine ihhash entry hmem fun b hb =>
        hp b (List.mem_append_right _ (List.mem_append_right _ ?_))
      exact Param.mem_hashBound.2 ⟨entry, hmem, hb⟩
    rw [argument]
    refine (determined_helperFor he hown).bind fun helper hhelper => ?_
    obtain ⟨known, hknown⟩ := hhelper
    -- The first argument is the subject, and where there is none it is the model of the scope.
    have hcalled {subject : Value} {params : List Value} (hsubject : subject.Still)
        (hparams : ∀ v ∈ params, v.Still) : Determined e (do
          let named ← namedArguments e render scope hash
          invoke e render helper subject
            { helper := name, tag := .call, scope, params, hash := Bindings.ofPairs named,
              blockParams := [], arity := args.length }
            { hasSink := false }) Value.Still := by
      refine (determined_namedArguments hhash).bind fun named hnamed => ?_
      have htold : Regime.still.Tells
          { helper := name, tag := .call, scope, params, hash := Bindings.ofPairs named,
            blockParams := [], arity := args.length } :=
        ⟨hscope, hparams, Bindings.All.ofPairs hnamed⟩
      exact determined_invoke he hrender hknown hsubject htold (.none _ false)
    cases args with
    | nil =>
      refine (determined_transform he hscope.model).bind fun subject hsubject => ?_
      exact hcalled hsubject (List.forall_mem_nil _)
    | cons first rest =>
      obtain ⟨hfirst, hrest⟩ := List.forall_mem_cons.1 hargs
      refine hfirst.bind fun v hv => (determined_transform he hv).bind fun subject hsubject => ?_
      exact (determined_arguments hrest).bind fun params hparams => hcalled hsubject hparams

/-- The arguments of a tag that binds built-ins only. -/
theorem determined_tagArgument {scope : Scope} (hscope : scope.All Value.Still) {args : List Param}
    {hash : HashParams} (hbound : ∀ b ∈ Param.argsBound args ++ Param.hashBound hash, b.IsBuiltIn) :
    (∀ p ∈ args, Determined e (argument e render scope p) Value.Still) ∧
      ∀ entry ∈ hash, Determined e (argument e render scope entry.2) Value.Still := by
  constructor
  · intro p hmem
    refine determined_argument he hrender hscope p fun b hb => hbound b (List.mem_append_left _ ?_)
    exact Param.mem_argsBound.2 ⟨p, hmem, hb⟩
  · intro entry hmem
    refine determined_argument he hrender hscope entry.2 fun b hb =>
      hbound b (List.mem_append_right _ ?_)
    exact Param.mem_hashBound.2 ⟨entry, hmem, hb⟩

end

/-! ### Tags -/

section

variable (he : e.Still) {render : Renderer} (hrender : RendersDetermined e render) {scope : Scope}
  (hscope : scope.All Value.Still)

include he hrender hscope

theorem determined_subjectOf {call : Invocation} (hbound : ∀ b ∈ call.argBound, b.IsBuiltIn) :
    Determined e (subjectOf e render scope call.args) Value.Still := by
  obtain ⟨hargs, -⟩ := determined_tagArgument he hrender hscope hbound
  cases hcall : call.args with
  | nil => exact .pure hscope.model
  | cons first rest => exact hargs first (hcall ▸ List.mem_cons_self)

/-- A helper called with what its tag tells it. -/
theorem determined_called {call : Invocation} (hbound : ∀ b ∈ call.argBound, b.IsBuiltIn)
    (name : String) (tag : TagKind) (blockParams : List String) {known : String} {helper : Helper}
    (hhelper : helper.IsBuiltIn known) {subject : Value} (hsubject : subject.Still)
    {clauses : Clauses} (hclauses : Regime.still.ClausesWithin clauses) :
    Determined e (callOf e render name tag scope call.args call.hash blockParams >>= fun told =>
      invoke e render helper subject told clauses) Value.Still := by
  obtain ⟨hargs, hhash⟩ := determined_tagArgument he hrender hscope hbound
  have hrest : ∀ p ∈ call.args.drop 1, Determined e (argument e render scope p) Value.Still :=
    fun p hmem => hargs p (List.mem_of_mem_drop hmem)
  refine Determined.bind (V := Regime.still.Tells) ?_ fun told htold =>
    determined_invoke he hrender hhelper hsubject htold hclauses
  unfold callOf
  refine (determined_arguments hrest).bind fun params hparams => ?_
  refine (determined_namedArguments hhash).bind fun named hnamed => .pure ?_
  exact ⟨hscope, hparams, Bindings.All.ofPairs hnamed⟩

omit hrender hscope in
theorem missing_isBuiltIn {helper : Helper} (h : e.missing? = some helper) :
    helper.IsBuiltIn Builtin.missing.name := he.registry _ helper h

theorem determined_outputValue {style : OutputStyle} {call : Invocation}
    (hbound : ∀ b ∈ call.ownBound ++ call.argBound, b.IsBuiltIn) (marks : Delimiters) :
    Determined e (outputValue e render scope style call marks) Value.Still := by
  have harguments : ∀ b ∈ call.argBound, b.IsBuiltIn :=
    fun b hb => hbound b (List.mem_append_right _ hb)
  have hcalled {known : String} {helper : Helper} {subject : Value}
      (hhelper : helper.IsBuiltIn known) (hsubject : subject.Still) :
      Determined e (callOf e render call.name style.tag scope call.args call.hash [] >>= fun told =>
        invoke e render helper subject told { hasSink := true }) Value.Still :=
    determined_called he hrender hscope harguments call.name style.tag [] hhelper hsubject
      (.none _ true)
  have hnull : Value.null.Still := .literal .null
  unfold outputValue
  dsimp only
  split
  · rename_i helper hhelper
    have hown : (call.name, helper) ∈ call.ownBound := Invocation.mem_ownBound.2 ⟨rfl, hhelper⟩
    refine (determined_subjectOf he hrender hscope harguments).bind fun v hv => ?_
    refine (determined_transform he hv).bind fun subject hsubject => ?_
    exact hcalled (hbound _ (List.mem_append_left _ hown)) hsubject
  · refine .ite (fun _ => ?_) fun _ => ?_
    · split
      · rename_i helper hhelper
        exact hcalled (missing_isBuiltIn he hhelper) hnull
      · exact .throw _
    · refine (determined_get he hscope call.name).bind fun v hv => ?_
      refine (determined_transform he hv).bind fun value hvalue => ?_
      refine .ite (fun _ => ?_) fun _ => ?_
      · split
        · rename_i helper hhelper
          exact hcalled (missing_isBuiltIn he hhelper) hnull
        · exact .pure hnull
      · rw [hvalue.not_lambda]
        exact .pure hvalue

theorem determined_renderOutput {style : OutputStyle} {call : Invocation}
    (hbound : ∀ b ∈ call.ownBound ++ call.argBound, b.IsBuiltIn) (marks : Delimiters) :
    Determined e (renderOutput e render scope style call marks) fun _ => True := by
  unfold renderOutput
  refine (determined_outputValue he hrender hscope hbound marks).bind fun v hv => ?_
  refine .ite (fun _ => .pure trivial) fun _ => ?_
  rw [Regime.outputText_eq, bind_assoc]
  exact (determined_display he hv).bind fun text _ => .emit _

/-! ### Sections -/

omit he hrender in
theorem determined_treatment (head : BlockHead) {body : List Node} (hbody : Node.AllBuiltIn body)
    {v : Value} (hv : v.Still) :
    Determined e (treatment e scope head body v) fun treated =>
      Node.AllBuiltIn treated.body.nodes ∧ treated.scope.All Value.Still := by
  unfold treatment
  refine .ite (fun _ => .pure ⟨hbody, hscope⟩) fun _ => .ite (fun _ => .pure ⟨hbody, hscope⟩) ?_
  intro _
  split
  · exact .pure ⟨hbody, hscope⟩
  · rw [hv.not_lambda]
    exact .pure ⟨hbody, hscope.child hv Bindings.All.nil⟩

omit hrender hscope in
theorem determined_implicitHelper (head : BlockHead) (which : Builtin) (v : Value) :
    Determined e (implicitHelper e head which v) fun found => ∃ name, found.1.IsBuiltIn name := by
  unfold implicitHelper
  split
  · rename_i helper _ hhelper
    exact .pure ⟨_, missing_isBuiltIn he hhelper⟩
  · split
    · rename_i helper hhelper
      exact .pure ⟨_, he.registry _ helper hhelper⟩
    · exact .throw _

theorem determined_blockValue {head : BlockHead} {body : List Node} {inverse : Fragment}
    (hbound : ∀ b ∈ head.call.ownBound ++ head.call.argBound, b.IsBuiltIn)
    (hbody : Node.AllBuiltIn body) (hinverse : Node.AllBuiltIn inverse.nodes) :
    Determined e (blockValue e render scope head body inverse) Value.Still := by
  have harguments : ∀ b ∈ head.call.argBound, b.IsBuiltIn :=
    fun b hb => hbound b (List.mem_append_right _ hb)
  unfold blockValue
  split
  · rename_i helper hhelper
    have hown : (head.call.name, helper) ∈ head.call.ownBound :=
      Invocation.mem_ownBound.2 ⟨rfl, hhelper⟩
    refine (determined_subjectOf he hrender hscope harguments).bind fun v hv => ?_
    refine (determined_transform he hv).bind fun subject hsubject => ?_
    exact determined_called he hrender hscope harguments _ _ _
      (hbound _ (List.mem_append_left _ hown)) hsubject ⟨hbody, hinverse⟩
  · refine (determined_get he hscope head.call.name).bind fun v hv => ?_
    refine (determined_transform he hv).bind fun subject hsubject => ?_
    refine (determined_treatment hscope head hbody hsubject).bind ?_
    rintro treated ⟨htreated, htscope⟩
    refine (determined_implicitHelper he head treated.helper subject).bind ?_
    rintro ⟨helper, name⟩ ⟨known, hknown⟩
    exact determined_called he hrender htscope harguments _ _ _ hknown hsubject
      ⟨htreated, hinverse⟩

theorem determined_insideBlock {head : BlockHead} {body : List Node} {inverse : Fragment}
    (hbound : ∀ b ∈ head.call.ownBound ++ head.call.argBound, b.IsBuiltIn)
    (hbody : Node.AllBuiltIn body) (hinverse : Node.AllBuiltIn inverse.nodes) :
    Determined e (insideBlock e render scope head body inverse) fun _ => True := by
  refine (determined_defineInlines hbody).bind fun _ _ => .located _ ?_
  refine (determined_blockValue he hrender hscope hbound hbody hinverse).bind fun v hv => ?_
  refine .ite (fun _ => .pure trivial) fun _ => ?_
  exact (determined_display he hv).bind fun text _ => .emit text

/-! ### Partials -/

/-- What stands for a partial that is shown as an inline partial, or not at all: nodes, or what is
compiled in their place. -/
def partialFound {m : Type → Type} [Monad m] [MonadExcept Failure m] (compiled : m Fragment) :
    Option InlinePartial → m Fragment
  | some (.nodes body) => pure ⟨none, body⟩
  | some (.foreign v) => if v.isNull then compiled else throw (.fault noPartial)
  | none => compiled

omit he hrender hscope in
/-- Compiling through the cache answers what it would have answered before, and after it too. -/
theorem outcome_compiled (name : String) (w : World) :
    ∃ after, (partialOf.compiled e name).outcome w =
        some ((e.templateAt w.cache name).map (·.fragment), after) ∧
      after.view e = w.view e ∧ after.output = w.output := by
  have hresult : (e.compile w.cache w.nextTree name).1.map (·.template.fragment) =
      (e.templateAt w.cache name).map (·.fragment) := by
    rw [← compile_templateAt e w.cache w.nextTree name]
    cases (e.compile w.cache w.nextTree name).1 <;> rfl
  rw [← hresult]
  refine ⟨_, rfl, ?_, rfl⟩
  show (⟨w.side.data, w.side.frames.shown, e.templateAt (e.compile w.cache w.nextTree name).2.1⟩ :
    View) = _
  rw [templateAt_compile]
  rfl

/-- The fragment of a partial, told from what is seen. -/
def View.partialOf (view : View) (name : String) : Except Failure Fragment :=
  match view.partials with
  | .error cause => .error (.fault cause)
  | .ok partials => partialFound ((view.templates name).map (·.fragment)) (partials name)

omit he hrender hscope in
theorem outcome_partialOf (name : String) (w : World) :
    ∃ after, (partialOf e name).outcome w = some ((w.view e).partialOf name, after) ∧
      after.view e = w.view e ∧ after.output = w.output := by
  have hfound (found : Option InlinePartial) :
      ∃ after, (partialFound (partialOf.compiled e name) found).outcome w =
          some (partialFound ((e.templateAt w.cache name).map (·.fragment)) found, after) ∧
        after.view e = w.view e ∧ after.output = w.output := by
    rcases found with _ | body | v
    · exact outcome_compiled name w
    · exact ⟨w, rfl, rfl, rfl⟩
    · unfold partialFound
      dsimp only
      split
      · exact outcome_compiled name w
      · exact ⟨w, rfl, rfl, rfl⟩
  have hstart : (partialOf e name).outcome w =
      (Render.ofFault w.side.frames.visible >>= fun visible =>
        partialFound (partialOf.compiled e name) (visible.lookup name)).outcome w := rfl
  have hseen : (w.view e).partialOf name =
      match w.side.frames.visible.map fun top name => top.lookup name with
      | .error cause => .error (.fault cause)
      | .ok partials =>
        partialFound ((e.templateAt w.cache name).map (·.fragment)) (partials name) := rfl
  rw [hstart, hseen]
  cases w.side.frames.visible with
  | error cause => exact ⟨w, rfl, rfl, rfl⟩
  | ok top => exact hfound (top.lookup name)

omit hrender hscope in
theorem determined_partialOf {place : Option Location} {name : String} {args : List Param}
    {hash : HashParams} {marks : Delimiters}
    (hnode : Node.TagBinds Bound.IsBuiltIn (.inclusion place name args hash marks)) :
    Determined e (partialOf e name) fun fragment => Node.AllBuiltIn fragment.nodes :=
  .of_result (fun _ => Regime.keeps_partialOf (Regime.still_lawful he) hnode)
    (fun view => view.partialOf name) (outcome_partialOf name)

theorem determined_partialScope {args : List Param} {hash : HashParams}
    (hbound : ∀ b ∈ Param.argsBound args ++ Param.hashBound hash, b.IsBuiltIn) :
    Determined e (partialScope e render scope args hash) fun inner => inner.All Value.Still := by
  obtain ⟨hargs, hhash⟩ := determined_tagArgument he hrender hscope hbound
  have hnamed {inner : Scope} (hinner : inner.All Value.Still) :
      Determined e (if hash.isEmpty then pure inner
        else do pure (inner.withBindings (Bindings.ofPairs (← namedArguments e render scope hash))))
        fun inner => inner.All Value.Still := by
    refine .ite (fun _ => .pure hinner) fun _ => ?_
    refine (determined_namedArguments hhash).bind fun named hnamed => ?_
    exact .pure (hinner.withBindings (Bindings.All.ofPairs hnamed))
  unfold partialScope
  cases args with
  | nil => exact hnamed hscope
  | cons first rest =>
    refine (hargs first List.mem_cons_self).bind fun model hmodel => ?_
    exact hnamed (hscope.child hmodel Bindings.All.nil)

/-! ### Nodes -/

theorem determined_renderNode {n : Node} (hn : Node.AllBuiltIn [n]) :
    Determined e (renderNode e render scope n) fun _ => True := by
  have hbound := (Node.Every.cons_iff.1 hn).1
  cases n with
  | text place content => exact .emit content
  | comment | inlinePartial => exact .pure trivial
  | output place style call marks =>
    rw [Node.TagBinds, Node.tagBound_output] at hbound
    exact .located place (determined_renderOutput he hrender hscope hbound marks)
  | block head body inverse =>
    cases body with
    | none => exact .pure trivial
    | some body =>
      rw [Node.TagBinds, Node.tagBound_block] at hbound
      -- A section without an else clause has an empty one, so both cases are the same.
      exact determined_inFrame he
        (determined_insideBlock he hrender hscope hbound hn.body hn.inverse)
  | inclusion place name args hash marks =>
    refine .located place ?_
    refine (determined_partialOf he hbound).bind fun fragment hfragment => ?_
    rw [Node.TagBinds, Node.tagBound_inclusion] at hbound
    refine (determined_partialScope he hrender hscope hbound).bind fun inner hinner => ?_
    exact hrender fragment inner hfragment hinner

theorem determined_renderNodes {nodes : List Node} (hnodes : Node.AllBuiltIn nodes) :
    Determined e (renderNodes e render scope nodes) fun _ => True := by
  induction nodes with
  | nil => exact .pure trivial
  | cons n rest ih =>
    obtain ⟨hn, hchildren, hrest⟩ := Node.Every.cons_iff.1 hnodes
    have hsingle : Node.AllBuiltIn [n] := Node.Every.cons_iff.2 ⟨hn, hchildren, Node.Every.nil⟩
    exact (determined_renderNode he hrender hscope hsingle).bind fun _ _ => ih hrest

end

/-- Fragments nested to any depth are determined, by induction on the depth. -/
theorem renderFragment_determined (he : e.Still) (depth : Nat) :
    RendersDetermined e (renderFragment e depth) := by
  induction depth with
  | zero => exact fun _ _ _ _ => .exhausted
  | succ depth ih =>
    intro fragment scope hnodes hscope
    refine (determined_defineInlines hnodes).bind fun _ _ => .located fragment.place ?_
    exact determined_renderNodes he ih hscope hnodes

end Stencil
