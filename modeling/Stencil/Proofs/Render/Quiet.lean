import Stencil.Proofs.Helper.Confined
import Stencil.Proofs.Node.Within
import Stencil.Proofs.Render.Keeps
import Stencil.Render.Evaluate

/-!
# Steps that write nothing

A tag evaluates its arguments before it writes anything. Helpers that are called in arguments have
nothing to write to, and what they have rendered is kept from the output, so whatever the renderer
does, the output is as it was once the helper of the tag is about to be called. Where that helper
does not ask for anything to be written, the output is as it was until its answer is.
-/

namespace Stencil

namespace Render

variable {α β : Type}

/-- A step that leaves the output as it is, however it ends. -/
def Quiet (m : Render α) : Prop :=
  ∀ w r after, m.outcome w = some (r, after) → after.output = w.output

namespace Quiet

variable {m : Render α}

/-- To leave the output as it is is to keep it whatever it is. -/
theorem iff_keeps :
    m.Quiet ↔ ∀ s, m.Keeps (fun w => w.output = s) (fun _ => True) fun _ => True := by
  constructor
  · intro h s w r after hw hr
    exact ⟨(h w r after hr).trans hw, .of_cases (fun _ _ => trivial) fun _ _ => trivial⟩
  · intro h w r after hr
    exact (h w.output w r after rfl hr).1

theorem pure (a : α) : Quiet (Pure.pure a) :=
  iff_keeps.2 fun _ => Keeps.pure trivial

theorem throw (f : Failure) : Quiet (MonadExcept.throw f : Render α) :=
  iff_keeps.2 fun _ => Keeps.throw trivial

theorem bind {k : α → Render β} (hm : m.Quiet) (hk : ∀ a, (k a).Quiet) : (m >>= k).Quiet :=
  iff_keeps.2 fun s => Keeps.bind (iff_keeps.1 hm s) fun a _ => iff_keeps.1 (hk a) s

theorem ite {p : Prop} [Decidable p] {m' : Render α} (hm : m.Quiet) (hm' : m'.Quiet) :
    (if p then m else m').Quiet := by
  by_cases h : p
  · rw [if_pos h]
    exact hm
  · rw [if_neg h]
    exact hm'

theorem ofExcept (x : Except Failure α) : Quiet (Render.ofExcept x) := by
  cases x with
  | ok a => exact Quiet.pure a
  | error f => exact Quiet.throw f

theorem ofFault (x : Except Fault α) : Quiet (Render.ofFault x) := by
  cases x with
  | ok a => exact Quiet.pure a
  | error cause => exact Quiet.throw (.fault cause)

theorem read (f : World → α) : Quiet (Render.read f) := by
  intro w r after hr
  cases hr
  rfl

theorem update {f : World → World} (h : ∀ w, (f w).output = w.output) :
    Quiet (Render.update f) := by
  intro w r after hr
  cases hr
  exact h w

theorem freshLabel : Quiet Render.freshLabel := by
  intro w r after hr
  cases hr
  rfl

theorem observe (hm : m.Quiet) : (Render.observe m).Quiet :=
  iff_keeps.2 fun s => ((iff_keeps.1 hm s).observe).weaken

theorem mapFailure (f : Failure → Failure) (hm : m.Quiet) : (Render.mapFailure f m).Quiet :=
  iff_keeps.2 fun s => Keeps.mapFailure (iff_keeps.1 hm s) fun _ _ => trivial

/-- What is captured never reaches the output. -/
theorem captured (m : Render Unit) : (Render.captured m).Quiet := by
  intro w r after hr
  obtain ⟨⟨r₁, w₁⟩, -, heq⟩ := Option.map_eq_some_iff.1 hr
  cases heq
  rfl

theorem get (scope : Scope) (reference : String) : (Render.get scope reference).Quiet :=
  (read _).bind fun _ => ofExcept _

theorem display (v : Value) : (Render.display v).Quiet := by
  refine (read _).bind fun drawn => (ofFault _).bind fun found => ?_
  have hdrawn : (Render.update fun w => { w with drawn := found.2 }).Quiet := update fun _ => rfl
  exact hdrawn.bind fun _ => pure found.1

theorem items (v : Value) : (Render.items v).Quiet := by
  cases v with
  | iterator label found =>
    have hdrawn : (Render.update fun w => { w with drawn := label :: w.drawn }).Quiet :=
      update fun _ => rfl
    exact (read _).bind fun _ => ite (pure _) (hdrawn.bind fun _ => pure found)
  | _ => exact pure _

theorem changeFrames (f : Frames → Except Fault Frames) : (Render.changeFrames f).Quiet := by
  refine (read _).bind fun frames => (ofFault _).bind fun changed => ?_
  exact update fun _ => rfl

end Quiet

end Render

open Render

theorem defineInlines_quiet (nodes : List Node) : (defineInlines nodes).Quiet := by
  induction nodes with
  | nil => exact .pure _
  | cons n rest ih =>
    cases n with
    | inlinePartial => exact (Quiet.changeFrames _).bind fun _ => ih
    | _ => exact ih

/-- Requests for anything but writing. -/
def Request.IsSilent : Request → Prop
  | .write _ => False
  | _ => True

section

variable (e : Engine) (render : Renderer)

/-- A helper that has nothing to write to, or does not ask for it, writes nothing. -/
theorem answer_quiet (call : Call) {clauses : Clauses} {q : Request}
    (hq : clauses.hasSink = true → q.IsSilent) : (answer e render call clauses q).Quiet := by
  cases q with
  | render what scope => exact (Quiet.ofExcept _).bind fun _ => .captured _
  | source what => exact .pure _
  | hasSink => exact .pure _
  | write text =>
    show (if clauses.hasSink then Render.emit text else Render.fault (.noSink call.helper)).Quiet
    rw [if_neg hq]
    exact .throw _
  | get reference => exact .get _ _
  | data name => exact .read _
  | setData name value => exact .update fun _ => rfl
  | display v => exact .display v
  | items v => exact .items v
  | label => exact .freshLabel
  | frames => exact .read _
  | log level message =>
    refine .update fun w => ?_
    split <;> rfl
  | note entry => exact .update fun _ => rfl

theorem perform_quiet (call : Call) {clauses : Clauses} {α : Type} {action : Action α}
    (haction : clauses.hasSink = true → action.AsksOnly Request.IsSilent) :
    (action.perform (answer e render call clauses)).Quiet := by
  induction action with
  | done a => exact .pure a
  | fail failure => exact .throw failure
  | ask q next ih =>
    exact (answer_quiet e render call fun h => (haction h).1).observe.bind fun reply =>
      ih reply fun h => (haction h).2 reply

theorem invoke_quiet {helper : Helper} (subject : Value) (call : Call) {clauses : Clauses}
    (hhelper : clauses.hasSink = true → helper.AsksOnly Request.IsSilent) :
    (invoke e render helper subject call clauses).Quiet :=
  (perform_quiet e render call fun h => hhelper h subject call).mapFailure _

theorem transform_quiet (v : Value) : (transform e v).Quiet :=
  Quiet.freshLabel.bind fun _ => .pure _

theorem helperFor_quiet (name : String) (bound : Option Helper) :
    (e.helperFor name bound).Quiet := by
  unfold Engine.helperFor
  split
  · exact .pure _
  · split
    · exact .pure _
    · exact .throw _

section

variable (scope : Scope)

theorem arguments_quiet {args : List Param} (h : ∀ p ∈ args, (argument e render scope p).Quiet) :
    (arguments e render scope args).Quiet := by
  induction args with
  | nil =>
    rw [arguments]
    exact .pure _
  | cons p rest ih =>
    obtain ⟨hp, hrest⟩ := List.forall_mem_cons.1 h
    rw [arguments]
    exact hp.bind fun _ => (ih hrest).bind fun _ => .pure _

theorem namedArguments_quiet {hash : HashParams}
    (h : ∀ entry ∈ hash, (argument e render scope entry.2).Quiet) :
    (namedArguments e render scope hash).Quiet := by
  induction hash with
  | nil =>
    rw [namedArguments]
    exact .pure _
  | cons entry rest ih =>
    obtain ⟨hentry, hrest⟩ := List.forall_mem_cons.1 h
    rw [namedArguments]
    exact hentry.bind fun _ => (ih hrest).bind fun _ => .pure _

/-- Arguments write nothing, by induction on the calls in them. -/
theorem argument_quiet (p : Param) : (argument e render scope p).Quiet := by
  induction p using Param.induct with
  | literal raw value =>
    rw [argument]
    exact .pure _
  | reference raw =>
    rw [argument]
    exact .get scope raw
  | call place name args hash bound ihargs ihhash =>
    rw [argument]
    refine (helperFor_quiet e name bound).bind fun helper => ?_
    have hnamed := namedArguments_quiet e render scope ihhash
    cases args with
    | nil =>
      refine (transform_quiet e _).bind fun subject => ?_
      exact hnamed.bind fun _ => invoke_quiet e render _ _ Bool.noConfusion
    | cons first rest =>
      obtain ⟨hfirst, hrest⟩ := List.forall_mem_cons.1 ihargs
      refine hfirst.bind fun v => (transform_quiet e v).bind fun subject => ?_
      refine (arguments_quiet e render scope hrest).bind fun params => ?_
      exact hnamed.bind fun _ => invoke_quiet e render _ _ Bool.noConfusion

theorem subjectOf_quiet (args : List Param) : (subjectOf e render scope args).Quiet := by
  cases args with
  | nil => exact .pure _
  | cons first rest => exact argument_quiet e render scope first

theorem callOf_quiet (name : String) (tag : TagKind) (args : List Param) (hash : HashParams)
    (blockParams : List String) :
    (callOf e render name tag scope args hash blockParams).Quiet :=
  (arguments_quiet e render scope fun p _ => argument_quiet e render scope p).bind fun _ =>
    (namedArguments_quiet e render scope fun entry _ =>
      argument_quiet e render scope entry.2).bind fun _ => .pure _

theorem lambdaMarkup_quiet (section_ : Option String) (marks : Delimiters) (v : Value) :
    (lambdaMarkup e scope section_ marks v).Quiet := by
  have hanswer : (lambdaAnswer scope section_ v).Quiet := by
    unfold lambdaAnswer
    split
    · exact .ofExcept _
    · exact .get scope _
    · exact .pure _
  refine hanswer.bind fun found => ?_
  split
  · exact (Quiet.ofExcept _).bind fun _ => .pure _
  · exact (Quiet.display _).bind fun _ => .pure _

theorem treatment_quiet (head : BlockHead) (body : List Node) (v : Value) :
    (treatment e scope head body v).Quiet := by
  unfold treatment
  refine .ite (.pure _) (.ite (.pure _) ?_)
  split
  · exact .pure _
  · exact .ite ((lambdaMarkup_quiet e scope _ _ _).bind fun _ => .pure _) (.pure _)

end

/-- Partials are found without writing anything: looking one up may compile it. -/
theorem partialOf_quiet (name : String) : (partialOf e name).Quiet := by
  have hcompiled : (partialOf.compiled e name).Quiet := by
    intro w r after hr
    cases hr
    rfl
  unfold partialOf
  refine (Quiet.read _).bind fun frames => (Quiet.ofFault _).bind fun visible => ?_
  split
  · exact .pure _
  · exact .ite hcompiled (.throw _)
  · exact hcompiled

theorem partialScope_quiet (scope : Scope) (args : List Param) (hash : HashParams) :
    (partialScope e render scope args hash).Quiet := by
  have hnamed (inner : Scope) : Quiet (if hash.isEmpty then pure inner
      else do pure (inner.withBindings (Bindings.ofPairs (← namedArguments e render scope hash)))) :=
    .ite (.pure _) ((namedArguments_quiet e render scope fun entry _ =>
      argument_quiet e render scope entry.2).bind fun _ => .pure _)
  unfold partialScope
  cases args with
  | nil => exact hnamed scope
  | cons first rest => exact (argument_quiet e render scope first).bind fun model => hnamed _

theorem implicitHelper_quiet (head : BlockHead) (which : Builtin) (v : Value) :
    (implicitHelper e head which v).Quiet := by
  unfold implicitHelper
  split
  · exact .pure _
  · split
    · exact .pure _
    · exact .throw _

theorem outputText_quiet (style : OutputStyle) (v : Value) : (outputText e style v).Quiet := by
  refine (Quiet.display v).bind fun text => ?_
  split <;> exact .pure _

/-! ### Tags whose helpers do not ask for anything to be written -/

section

variable {e} (hregistry : ∀ name helper, e.registry.lookup name = some helper →
  helper.AsksOnly Request.IsSilent)

include hregistry

theorem outputValue_quiet (scope : Scope) (style : OutputStyle) {call : Invocation}
    (hown : ∀ helper, call.helper = some helper → helper.AsksOnly Request.IsSilent)
    (marks : Delimiters) : (outputValue e render scope style call marks).Quiet := by
  have hcalled {helper : Helper} (hhelper : helper.AsksOnly Request.IsSilent) (subject : Value) :
      (callOf e render call.name style.tag scope call.args call.hash [] >>= fun told =>
        invoke e render helper subject told { hasSink := true }).Quiet :=
    (callOf_quiet e render scope _ _ _ _ _).bind fun told =>
      invoke_quiet e render subject told fun _ => hhelper
  unfold outputValue
  dsimp only
  split
  · rename_i helper hhelper
    exact (subjectOf_quiet e render scope _).bind fun v => (transform_quiet e v).bind fun subject =>
      hcalled (hown helper hhelper) subject
  · refine .ite ?_ ((Quiet.get scope _).bind fun v => (transform_quiet e v).bind fun value => ?_)
    · split
      · rename_i helper hhelper
        exact hcalled (hregistry _ helper hhelper) .null
      · exact .throw _
    · refine .ite ?_ (.ite ?_ (.pure _))
      · split
        · rename_i helper hhelper
          exact hcalled (hregistry _ helper hhelper) .null
        · exact .pure _
      · exact (lambdaMarkup_quiet e scope none marks value).bind fun markup =>
          (Quiet.captured _).bind fun text => .pure _

theorem blockValue_quiet (scope : Scope) {head : BlockHead}
    (hown : ∀ helper, head.call.helper = some helper → helper.AsksOnly Request.IsSilent)
    (body : List Node) (inverse : Fragment) :
    (blockValue e render scope head body inverse).Quiet := by
  have hcalled {helper : Helper} (hhelper : helper.AsksOnly Request.IsSilent) (subject : Value)
      (name : String) (inner : Scope) (clauses : Clauses) :
      (callOf e render name .block inner head.call.args head.call.hash head.blockParams >>=
        fun call => invoke e render helper subject call clauses).Quiet :=
    (callOf_quiet e render inner _ _ _ _ _).bind fun call =>
      invoke_quiet e render subject call fun _ => hhelper
  unfold blockValue
  split
  · rename_i helper hhelper
    exact (subjectOf_quiet e render scope _).bind fun v => (transform_quiet e v).bind fun subject =>
      hcalled (hown helper hhelper) subject _ _ _
  · refine (Quiet.get scope _).bind fun v => (transform_quiet e v).bind fun subject => ?_
    refine (treatment_quiet e scope head body subject).bind fun treated => ?_
    -- Which helper it is matters: the one found is registered.
    unfold implicitHelper
    split
    · rename_i helper _ hhelper
      rw [pure_bind]
      exact hcalled (hregistry _ helper hhelper) subject _ _ _
    · split
      · rename_i helper hhelper
        rw [pure_bind]
        exact hcalled (hregistry _ helper hhelper) subject _ _ _
      · exact .throw _

end

end

end Stencil
