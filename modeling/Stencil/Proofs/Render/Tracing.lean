import Stencil.Proofs.Render.Aside
import Stencil.Proofs.Render.Located

/-!
# Where the errors of a node come from

The evaluator followed from its requests up to nodes, with helpers that raise fresh errors. Whatever a
node does before its own place is looked at fails with errors that are blamed on a place only if they
come out of a fragment that it has come to: a clause, a partial or the markup of a lambda.
-/

namespace Stencil

open Render

/-- The clauses of a call are made of accountable nodes. -/
structure Clauses.Accountable (clauses : Clauses) : Prop where
  body : Node.Every Node.Accountable clauses.body.nodes
  inverse : Node.Every Node.Accountable clauses.inverse.nodes

theorem Clauses.Accountable.none (hasSink : Bool) : Clauses.Accountable { hasSink } :=
  ⟨Node.Every.nil, Node.Every.nil⟩

/-- Whatever is blamed on a place is no fault, so calls of helpers leave it as it is. -/
theorem Failure.fromHelper_of_isPlaced {name : String} {f : Failure}
    (h : (f.fromHelper name).IsPlaced) : f.fromHelper name = f := by
  cases f with
  | fault => exact h.elim
  | _ => rfl

section

variable {e : Engine} (he : e.registry.Fresh)

include he

/-! ### Calls of helpers -/

section

variable {clauses : Clauses} (hclauses : clauses.Accountable)

include hclauses

/-- Only a fragment that a helper has rendered can be to blame for what it is answered. -/
theorem traced_answer (call : Call) (q : Request) :
    Traced Node.Accountable (fun render => answer e render call clauses q) fun _ => True := by
  cases q with
  | render what scope =>
    refine Traced.bind (.const (aside_fragmentOf he hclauses.body hclauses.inverse what)) ?_
    exact fun fragment hfragment => (Traced.fragment hfragment scope).captured
  | source | hasSink => exact .const (Keeps.pure trivial)
  | write text =>
    exact .const (Keeps.ite (fun _ => aside_emit text) fun _ => Keeps.throw fun hplaced => hplaced)
  | get reference => exact .const (x := Render.get call.scope reference) (aside_get _ _)
  | data name => exact .const (x := Render.read _) (Keeps.read fun _ _ => trivial)
  | frames => exact .const (x := Render.read _) (Keeps.read fun _ _ => trivial)
  | setData name v => exact .const (aside_setData name v)
  | display v => exact .const (aside_display v)
  | items v => exact .const (aside_items v)
  | label => exact .const aside_freshLabel
  | log level message =>
    refine .const (Keeps.update fun w hw => ?_)
    split
    · exact hw
    · exact ⟨hw.partials, hw.cache⟩
  | note entry => exact .const (Keeps.update fun _ hw => ⟨hw.partials, hw.cache⟩)

/-- What holds of all new failures, and of all that come out of fragments that an action has
rendered, holds of its failures if it holds as long as its answers have it; by induction on the
requests. -/
theorem performed_from {F : Failure → Prop} (hF : ∀ f, ¬f.IsPlaced → F f) (call : Call) {α : Type}
    {action : Action α} (haction : action.FailsWithin F) {render : Renderer}
    (hrender : render.Holding Node.Accountable) {w : World} (hw : w.Holding Node.Accountable)
    (hall : ∀ f, ComesFrom (fun render => action.perform (answer e render call clauses)) render w f →
      F f) :
    TracedFrom Node.Accountable (fun render => action.perform (answer e render call clauses)) F
      (fun _ => True) render w := by
  induction action generalizing w with
  | done a => exact .const (Keeps.pure trivial) hw
  | fail f => exact .const (Keeps.throw haction) hw
  | ask q next ih =>
    have hanswer := traced_answer he hclauses call q render hrender w hw
    have hfailure (f : Failure)
        (hf : f.IsPlaced → ComesFrom (fun render => answer e render call clauses q) render w f) :
        F f := by
      by_cases hplaced : f.IsPlaced
      · exact hall f (((hf hplaced).through fun _ => rfl).bind)
      · exact hF f hplaced
    have hobserved := (hanswer.mono hfailure fun _ h => h).observe (G := F)
    refine hobserved.bind fun reply between hr hbetween hreply => ?_
    refine ih reply (haction reply hreply) hbetween fun f hf => hall f ?_
    exact ComesFrom.bind_of_ok (k := fun render reply =>
      (next reply).perform (answer e render call clauses)) hf hobserved hr

theorem traced_invoke {helper : Helper} (hhelper : helper.Fresh) (subject : Value) (call : Call) :
    Traced Node.Accountable (fun render => invoke e render helper subject call clauses)
      fun _ => True := by
  refine Traced.mapFailure (fun f => Failure.fromHelper_of_isPlaced) ?_
  intro render hrender w hw
  have hnew (f : Failure) (hf : ¬f.IsPlaced) : f.IsPlaced → ComesFrom (fun render =>
      (helper.act subject call).perform (answer e render call clauses)) render w f :=
    fun hplaced => absurd hplaced hf
  exact performed_from he hclauses hnew call (hhelper _ hnew subject call) hrender hw
    fun f hf _ => hf

end

/-! ### Arguments -/

omit he in
theorem traced_arguments {scope : Scope} {args : List Param} (h : ∀ p ∈ args,
      Traced Node.Accountable (fun render => argument e render scope p) fun _ => True) :
    Traced Node.Accountable (fun render => arguments e render scope args) fun _ => True := by
  induction args with
  | nil =>
    simp only [arguments]
    exact .const (Keeps.pure trivial)
  | cons p rest ih =>
    obtain ⟨hp, hrest⟩ := List.forall_mem_cons.1 h
    simp only [arguments]
    exact hp.bind fun v _ => (ih hrest).bind fun vs _ => .const (Keeps.pure trivial)

omit he in
theorem traced_namedArguments {scope : Scope} {hash : HashParams} (h : ∀ entry ∈ hash,
      Traced Node.Accountable (fun render => argument e render scope entry.2) fun _ => True) :
    Traced Node.Accountable (fun render => namedArguments e render scope hash) fun _ => True := by
  induction hash with
  | nil =>
    simp only [namedArguments]
    exact .const (Keeps.pure trivial)
  | cons entry rest ih =>
    obtain ⟨key, p⟩ := entry
    obtain ⟨hp, hrest⟩ := List.forall_mem_cons.1 h
    simp only [namedArguments]
    exact hp.bind fun v _ => (ih hrest).bind fun named _ => .const (Keeps.pure trivial)

/-- The calls inside an argument have no places of their own, by induction on them. -/
theorem traced_argument (scope : Scope) (p : Param) (hp : ∀ b ∈ p.bound, b.2.Fresh) :
    Traced Node.Accountable (fun render => argument e render scope p) fun _ => True := by
  induction p using Param.induct with
  | literal raw value =>
    simp only [argument]
    exact .const (Keeps.pure trivial)
  | reference raw =>
    simp only [argument]
    exact .const (aside_get scope raw)
  | call place name args hash bound ihargs ihhash =>
    have hown : ∀ helper, bound = some helper → helper.Fresh := by
      rintro helper rfl
      exact hp (name, helper) (List.mem_append_left _ List.mem_cons_self)
    have hargs : ∀ p ∈ args,
        Traced Node.Accountable (fun render => argument e render scope p) fun _ => True := by
      intro p hmem
      refine ihargs p hmem fun b hb => hp b (List.mem_append_right _ (List.mem_append_left _ ?_))
      exact Param.mem_argsBound.2 ⟨p, hmem, hb⟩
    have hhash : ∀ entry ∈ hash,
        Traced Node.Accountable (fun render => argument e render scope entry.2) fun _ => True := by
      intro entry hmem
      refine ihhash entry hmem fun b hb =>
        hp b (List.mem_append_right _ (List.mem_append_right _ ?_))
      exact Param.mem_hashBound.2 ⟨entry, hmem, hb⟩
    simp only [argument]
    refine (Traced.const (aside_helperFor he hown)).bind fun helper hhelper => ?_
    have hcalled (subject : Value) (params : List Value) : Traced Node.Accountable (fun render => do
          let named ← namedArguments e render scope hash
          invoke e render helper subject
            { helper := name, tag := .call, scope, params, hash := Bindings.ofPairs named,
              blockParams := [], arity := args.length }
            { hasSink := false }) fun _ => True :=
      (traced_namedArguments hhash).bind fun named _ =>
        traced_invoke he (.none false) hhelper subject _
    cases args with
    | nil =>
      exact (Traced.const (aside_transform e _)).bind fun subject _ => hcalled subject []
    | cons first rest =>
      obtain ⟨hfirst, hrest⟩ := List.forall_mem_cons.1 hargs
      simp only [pure_bind]
      refine hfirst.bind fun v _ => (Traced.const (aside_transform e v)).bind fun subject _ => ?_
      exact (traced_arguments hrest).bind fun params _ => hcalled subject params

/-- The arguments of a tag. -/
theorem traced_tagArgument (scope : Scope) {args : List Param} {hash : HashParams}
    (hbound : ∀ b ∈ Param.argsBound args ++ Param.hashBound hash, b.2.Fresh) :
    (∀ p ∈ args, Traced Node.Accountable (fun render => argument e render scope p) fun _ => True) ∧
      ∀ entry ∈ hash,
        Traced Node.Accountable (fun render => argument e render scope entry.2) fun _ => True := by
  constructor
  · intro p hmem
    refine traced_argument he scope p fun b hb => hbound b (List.mem_append_left _ ?_)
    exact Param.mem_argsBound.2 ⟨p, hmem, hb⟩
  · intro entry hmem
    refine traced_argument he scope entry.2 fun b hb => hbound b (List.mem_append_right _ ?_)
    exact Param.mem_hashBound.2 ⟨entry, hmem, hb⟩

section

variable {call : Invocation} (hbound : ∀ b ∈ call.argBound, b.2.Fresh)

include hbound

theorem traced_subjectOf (scope : Scope) :
    Traced Node.Accountable (fun render => subjectOf e render scope call.args) fun _ => True := by
  obtain ⟨hargs, -⟩ := traced_tagArgument he scope hbound
  cases hcall : call.args with
  | nil => exact .const (Keeps.pure trivial)
  | cons first rest => exact hargs first (hcall ▸ List.mem_cons_self)

theorem traced_callOf (name : String) (tag : TagKind) (scope : Scope) (blockParams : List String) :
    Traced Node.Accountable
      (fun render => callOf e render name tag scope call.args call.hash blockParams)
      fun _ => True := by
  obtain ⟨hargs, hhash⟩ := traced_tagArgument he scope hbound
  have hrest := traced_arguments fun p hmem => hargs p (List.mem_of_mem_drop (i := 1) hmem)
  refine hrest.bind fun params _ => (traced_namedArguments hhash).bind fun named _ => ?_
  exact .const (Keeps.pure trivial)

/-- A helper without clauses, called with what its tag tells it. -/
theorem traced_called (name : String) (tag : TagKind) (scope : Scope) {helper : Helper}
    (hhelper : helper.Fresh) (subject : Value) :
    Traced Node.Accountable (fun render => do
      let told ← callOf e render name tag scope call.args call.hash []
      invoke e render helper subject told { hasSink := true }) fun _ => True :=
  (traced_callOf he hbound name tag scope []).bind fun told _ =>
    traced_invoke he (.none true) hhelper subject told

/-! ### Tags -/

theorem traced_outputValue (hown : ∀ helper, call.helper = some helper → helper.Fresh)
    (scope : Scope) (style : OutputStyle) (marks : Delimiters) :
    Traced Node.Accountable (fun render => outputValue e render scope style call marks)
      fun _ => True := by
  unfold outputValue
  dsimp only
  cases hhelper : call.helper with
  | some helper =>
    refine (traced_subjectOf he hbound scope).bind fun v _ => ?_
    refine (Traced.const (aside_transform e v)).bind fun subject _ => ?_
    exact traced_called he hbound _ _ scope (hown helper hhelper) subject
  | none =>
    refine Traced.ite (fun _ => ?arguments) fun _ => ?_
    case arguments =>
      cases hfound : e.missing? with
      | some helper => exact traced_called he hbound _ _ scope (he _ helper hfound) .null
      | none => exact .const (Keeps.throw fun hplaced => hplaced)
    refine (Traced.const (aside_get scope call.name)).bind fun v _ => ?_
    refine (Traced.const (aside_transform e v)).bind fun value _ => ?_
    refine Traced.ite (fun _ => ?null) fun _ => ?_
    case null =>
      cases hfound : e.missing? with
      | some helper => exact traced_called he hbound _ _ scope (he _ helper hfound) .null
      | none => exact .const (Keeps.pure trivial)
    refine Traced.ite (fun _ => ?_) fun _ => .const (Keeps.pure trivial)
    refine (Traced.const (aside_lambdaMarkup he scope none marks value)).bind ?_
    intro markup hmarkup
    exact (Traced.fragment hmarkup scope).captured.bind fun text _ => .const (Keeps.pure trivial)

end

theorem traced_sectionCall {head : BlockHead} (hbound : ∀ b ∈ head.call.argBound, b.2.Fresh)
    (hown : ∀ helper, head.call.helper = some helper → helper.Fresh) {body : List Node}
    (hbody : Node.Every Node.Accountable body) (scope : Scope) :
    Traced Node.Accountable (fun render => sectionCall e render scope head body) fun told =>
      told.helper.Fresh ∧ Node.Every Node.Accountable told.body.nodes := by
  unfold sectionCall
  cases hhelper : head.call.helper with
  | some helper =>
    refine (traced_subjectOf he hbound scope).bind fun v _ => ?_
    refine (Traced.const (aside_transform e v)).bind fun subject _ => ?_
    refine (traced_callOf he hbound _ .block scope head.blockParams).bind fun call _ => ?_
    exact .const (Keeps.pure ⟨hown helper hhelper, hbody⟩)
  | none =>
    refine (Traced.const (aside_get scope head.call.name)).bind fun v _ => ?_
    refine (Traced.const (aside_transform e v)).bind fun subject _ => ?_
    refine (Traced.const (aside_treatment he scope head hbody subject)).bind ?_
    intro treated htreated
    refine (Traced.const (aside_implicitHelper he head treated.helper subject)).bind ?_
    rintro ⟨helper, name⟩ hhelper
    refine (traced_callOf he hbound name .block treated.scope head.blockParams).bind ?_
    exact fun call _ => .const (Keeps.pure ⟨hhelper, htreated⟩)

theorem traced_partialScope {args : List Param} {hash : HashParams}
    (hbound : ∀ b ∈ Param.argsBound args ++ Param.hashBound hash, b.2.Fresh) (scope : Scope) :
    Traced Node.Accountable (fun render => partialScope e render scope args hash)
      fun _ => True := by
  obtain ⟨hargs, hhash⟩ := traced_tagArgument he scope hbound
  have hnamed (inner : Scope) : Traced Node.Accountable (fun render => if hash.isEmpty then pure inner
      else do pure (inner.withBindings (Bindings.ofPairs (← namedArguments e render scope hash))))
      fun _ => True := by
    refine Traced.ite (fun _ => .const (Keeps.pure trivial)) fun _ => ?_
    exact (traced_namedArguments hhash).bind fun named _ => .const (Keeps.pure trivial)
  unfold partialScope
  cases args with
  | nil => exact hnamed scope
  | cons first rest =>
    exact (hargs first List.mem_cons_self).bind fun model _ => hnamed (scope.child model [])

/-! ### Nodes -/

omit he in
theorem Node.Accountable.called {n : Node} {call : Invocation} (h : n.Accountable)
    (hn : n.tagBound = call.ownBound ++ call.argBound) :
    (∀ b ∈ call.argBound, b.2.Fresh) ∧ ∀ helper, call.helper = some helper → helper.Fresh := by
  have hfresh := h.fresh
  rw [Node.TagBinds, hn] at hfresh
  refine ⟨fun b hb => hfresh b (List.mem_append_right _ hb), fun helper hhelper => ?_⟩
  have hmem : (call.name, helper) ∈ call.ownBound := Invocation.mem_ownBound.2 ⟨rfl, hhelper⟩
  exact hfresh _ (List.mem_append_left _ hmem)

end

/-- Only a fragment that a node has come to can be to blame for what the node fails with, before the
place of its own tag is looked at. -/
theorem traced_renderBare {e : Engine} (he : e.registry.Fresh) (scope : Scope) {n : Node}
    (hn : Node.Every Node.Accountable [n]) :
    Traced Node.Accountable (fun render => renderBare e render scope n) fun _ => True := by
  have hnode := (Node.Every.cons_iff.1 hn).1
  have hlocate (f : Failure) (_ : (f.locate none).IsPlaced) : f.locate none = f := f.locate_none
  cases n with
  | text place content => exact .const (aside_emit content)
  | comment | inlinePartial => exact .const (Keeps.pure trivial)
  | output place style call marks =>
    obtain ⟨hbound, hown⟩ := hnode.called (Node.tagBound_output place marks style call)
    refine (traced_outputValue he hbound hown scope style marks).bind fun value _ => ?_
    refine .const (Keeps.ite (fun _ => Keeps.pure trivial) fun _ => ?_)
    exact (aside_outputText e style value).bind fun text _ => aside_emit text
  | block head body inverse =>
    cases body with
    | none => exact .const (Keeps.pure trivial)
    | some body =>
      obtain ⟨hbound, hown⟩ := hnode.called (Node.tagBound_block head (some body) inverse)
      have hbody : Node.Every Node.Accountable body := hn.body
      refine Traced.inFrame ?_
      refine (Traced.const (aside_defineInlines hbody)).bind fun _ _ => ?_
      refine Traced.mapFailure hlocate ?_
      simp only [blockValue_eq, bind_assoc]
      refine (traced_sectionCall he hbound hown hbody scope).bind fun told htold => ?_
      refine (traced_invoke he ⟨htold.2, hn.inverse⟩ htold.1 told.subject told.call).bind ?_
      exact fun value _ => .const (aside_writeAnswer value)
  | inclusion place name args hash marks =>
    have hbound := hnode.fresh
    rw [Node.TagBinds, Node.tagBound_inclusion] at hbound
    refine (Traced.const (aside_partialOf he name)).bind fun fragment hfragment => ?_
    refine (traced_partialScope he hbound scope).bind fun inner _ => ?_
    exact Traced.fragment hfragment inner

end Stencil
