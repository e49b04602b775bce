import Stencil.Proofs.Helper.Obeying

/-!
# Renders stay within their regime

The evaluator followed from its requests up to whole fragments: each function keeps what a lawful
regime says of the world, and its results and failures are of the regime. A section, which works in
a frame of its own, even gives back the frames exactly as it found them.
-/

namespace Stencil

namespace Regime

variable {R : Regime} {e : Engine} {f : Frames}

/-! ### What the world is like -/

namespace Holds

variable {w w' : World}

theorem withOutput (h : R.Holds f w) {s : String} (hs : R.text s) :
    R.Holds f { w with output := s } :=
  ⟨h.data, hs, h.cache, h.partials, h.below⟩

theorem withDrawn (h : R.Holds f w) (drawn : List Label) : R.Holds f { w with drawn } :=
  ⟨h.data, h.output, h.cache, h.partials, h.below⟩

theorem withFrames (h : R.Holds f w) {g g' : Frames} (hg : g.Every R.node)
    (hbelow : g'.SameBelow g) : R.Holds g' (w.withFrames g) :=
  ⟨h.data, h.output, h.cache, hg, hbelow⟩

theorem readable (h : R.Holds f w) : w.side.readable.All R.value := h.data.filter _

theorem setData (h : R.Holds f w) {name : String} {v : Value}
    (hname : name ≠ SideChannel.framesName) (hv : R.value v) :
    R.Holds f { w with side := w.side.set name v } := by
  have hset : w.side.set name v = { w.side with data := w.side.data.set name v } := by
    simp [SideChannel.set, hname]
  rw [hset]
  exact ⟨h.data.set hv, h.output, h.cache, h.partials, h.below⟩

end Holds

/-! ### Steps of the world -/

section

variable (L : R.Lawful e)

include L

theorem keeps_get {scope : Scope} (hscope : scope.All R.value) (reference : String) :
    (Render.get scope reference).Keeps (R.Holds f) R.failure R.value := by
  unfold Render.get
  refine Render.Keeps.bind (Render.Keeps.read fun w hw => Holds.readable hw) fun data hdata => ?_
  have hget := Scope.get_meets L.value_member L.null hscope hdata reference
  exact Render.Keeps.ofExcept (hget.mono (fun _ => L.reading) fun _ hv => hv)

omit L in
theorem keeps_drawn : (Render.read (·.drawn)).Keeps (R.Holds f) R.failure fun _ => True :=
  Render.Keeps.read fun _ _ => trivial

theorem keeps_display (v : Value) :
    (Render.display v).Keeps (R.Holds f) R.failure fun text =>
      ∃ drawn drawn', v.display drawn = .ok (text, drawn') := by
  unfold Render.display
  refine Render.Keeps.bind keeps_drawn fun drawn _ => ?_
  have hmeets : Meets (fun cause => R.failure (.fault cause))
      (fun found => v.display drawn = .ok found) (v.display drawn) :=
    Meets.of_cases (fun _ h => h) fun cause h =>
      L.numeric ((Value.display_meets v drawn).of_error h)
  refine Render.Keeps.bind (Render.Keeps.ofFault hmeets) ?_
  rintro ⟨text, drawn'⟩ hfound
  refine Render.Keeps.bind (Render.Keeps.update fun w hw => Holds.withDrawn hw drawn') fun _ _ => ?_
  exact Render.Keeps.pure ⟨drawn, drawn', hfound⟩

theorem keeps_items {v : Value} (hv : R.value v) :
    (Render.items v).Keeps (R.Holds f) R.failure fun items => ∀ u ∈ items, R.value u := by
  have hnone : ∀ u ∈ ([] : List Value), R.value u := fun u hu => nomatch hu
  cases v with
  | list label items => exact Render.Keeps.pure (L.value_inner hv)
  | tuple label items => exact Render.Keeps.pure (L.value_inner hv)
  | iterator label items =>
    refine Render.Keeps.bind keeps_drawn fun drawn _ => ?_
    refine Render.Keeps.ite (fun _ => Render.Keeps.pure hnone) fun _ => ?_
    refine Render.Keeps.bind (Render.Keeps.update fun w hw => Holds.withDrawn hw _) fun _ _ => ?_
    exact Render.Keeps.pure (L.value_inner hv)
  | _ => exact Render.Keeps.pure hnone

theorem keeps_emit {s : String} (hs : R.text s) :
    (Render.emit s).Keeps (R.Holds f) R.failure fun _ => True :=
  Render.Keeps.update fun _ hw => Holds.withOutput hw (L.text_append hw.output hs)

omit L in
theorem keeps_freshLabel : Render.freshLabel.Keeps (R.Holds f) R.failure fun _ => True :=
  Render.Keeps.freshLabel fun _ hw => ⟨hw.data, hw.output, hw.cache, hw.partials, hw.below⟩

theorem keeps_captured {m : Render Unit} (hm : m.Keeps (R.Holds f) R.failure fun _ => True) :
    (Render.captured m).Keeps (R.Holds f) R.failure R.text :=
  Render.Keeps.captured hm (fun _ hw => hw.withOutput L.text_empty)
    (fun _ _ hw hbefore => hw.withOutput hbefore.output) fun _ hw => hw.output

theorem keeps_located {α : Type} {m : Render α} {V : α → Prop} (place : Option Location)
    (hm : m.Keeps (R.Holds f) R.failure V) :
    (Render.located place m).Keeps (R.Holds f) R.failure V :=
  Render.Keeps.mapFailure hm fun _ hf => L.failure_locate place hf

theorem keeps_transform {v : Value} (hv : R.value v) :
    (transform e v).Keeps (R.Holds f) R.failure R.value :=
  Render.Keeps.bind keeps_freshLabel fun label _ => Render.Keeps.pure (L.value_transform label hv)

omit L in
theorem Lawful.refusal (L : R.Lawful e) {cause : Fault} (h : Frames.IsRefusal cause) :
    R.failure (.fault cause) := by
  refine L.failure_own fun hunder => ?_
  cases (hunder : cause = .frameUnderflow)
  rcases h with h | h <;> cases h

theorem keeps_defineInlines {nodes : List Node} (hnodes : R.Tree nodes) :
    (defineInlines nodes).Keeps (R.Holds f) R.failure fun _ => True := by
  induction nodes with
  | nil => exact Render.Keeps.pure trivial
  | cons n rest ih =>
    obtain ⟨-, hchildren, hrest⟩ := Node.Every.cons_iff.1 hnodes
    cases n with
    | inlinePartial place name body delimiters =>
      refine Render.Keeps.bind (Render.Keeps.changeFrames fun w hw => ?_) fun _ _ => ih hrest
      refine (Frames.define_meets _ name (.nodes body)).mono (fun _ => L.refusal) fun g hg => ?_
      exact Holds.withFrames hw (hw.partials.define hchildren hg)
        (hw.below.trans (Frames.SameBelow.of_define hg))
    | _ => exact ih hrest

/-! ### Calls of helpers -/

/-- The clauses of a call are trees of the regime. -/
structure ClausesWithin (R : Regime) (clauses : Clauses) : Prop where
  body : R.Tree clauses.body.nodes
  inverse : R.Tree clauses.inverse.nodes

omit L in
theorem ClausesWithin.none (R : Regime) (hasSink : Bool) :
    R.ClausesWithin { hasSink } := ⟨Node.Every.nil, Node.Every.nil⟩

/-- A renderer that keeps the regime, whatever the frames are. -/
def RendersWithin (R : Regime) (render : Renderer) : Prop :=
  ∀ f fragment scope, R.Tree fragment.nodes → scope.All R.value →
    (render fragment scope).Keeps (R.Holds f) R.failure fun _ => True

theorem fragmentOf_meets {clauses : Clauses} (hclauses : R.ClausesWithin clauses) {what : Markup}
    {scope : Scope} (hwhat : R.Admits (.render what scope)) :
    Meets R.failure (fun fragment => R.Tree fragment.nodes) (fragmentOf e clauses what) := by
  cases what with
  | body => exact Meets.pure hclauses.body
  | inverse => exact Meets.pure hclauses.inverse
  | source name text =>
    exact (L.parse e.delimiters name hwhat.1).bind fun t ht => Meets.pure ht

omit L in
theorem Admits.scope {what : Markup} {scope : Scope} (h : R.Admits (.render what scope)) :
    scope.All R.value := by
  cases what with
  | body | inverse => exact h
  | source name text => exact h.2

variable {render : Renderer} (hrender : R.RendersWithin render)

include hrender

/-- Every request that is admitted is answered within the regime. -/
theorem keeps_answer {call : Call} (hcall : R.Tells call) {clauses : Clauses}
    (hclauses : R.ClausesWithin clauses) {q : Request} (hq : R.Admits q) :
    (answer e render call clauses q).Keeps (R.Holds f) R.failure (R.Answers q) := by
  cases q with
  | render what scope =>
    refine Render.Keeps.bind (Render.Keeps.ofExcept (fragmentOf_meets L hclauses hq)) ?_
    intro fragment hfragment
    exact keeps_captured L (hrender f fragment scope hfragment (Admits.scope hq))
  | source what => exact Render.Keeps.pure trivial
  | hasSink => exact Render.Keeps.pure trivial
  | write text =>
    refine Render.Keeps.ite (fun _ => keeps_emit L hq) fun _ => Render.Keeps.throw ?_
    exact L.failure_own fun hunder => nomatch (hunder : Fault.noSink _ = .frameUnderflow)
  | get reference => exact keeps_get L hcall.scope reference
  | data name =>
    refine Render.Keeps.read fun w hw hname v hv => ?_
    have hne : (name == SideChannel.framesName) = false := by simpa using hname
    rw [SideChannel.get?, hne] at hv
    exact hw.data.lookup hv
  | setData name v => exact Render.Keeps.update fun _ hw => hw.setData hq.1 hq.2
  | display v => exact (keeps_display L v).weaken
  | items v => exact keeps_items L hq
  | label => exact keeps_freshLabel
  | frames => exact Render.Keeps.read fun _ _ => trivial
  | log level message =>
    refine Render.Keeps.update fun w hw => ?_
    split
    · exact hw
    · exact ⟨hw.data, hw.output, hw.cache, hw.partials, hw.below⟩
  | note entry =>
    exact Render.Keeps.update fun _ hw => ⟨hw.data, hw.output, hw.cache, hw.partials, hw.below⟩

/-- An action that obeys is performed within the regime, by induction on its requests. -/
theorem keeps_perform {call : Call} (hcall : R.Tells call) {clauses : Clauses}
    (hclauses : R.ClausesWithin clauses) {α : Type} {V : α → Prop} {action : Action α}
    (haction : R.Obeys V action) :
    (action.perform (answer e render call clauses)).Keeps (R.Holds f) R.failure V := by
  induction action with
  | done a => exact Render.Keeps.pure haction
  | fail failure => exact Render.Keeps.throw haction
  | ask q next ih =>
    obtain ⟨hq, hnext⟩ := haction
    have hanswer := keeps_answer (f := f) L hrender hcall hclauses hq
    exact Render.Keeps.bind hanswer.observe fun reply hreply => ih reply (hnext reply hreply)

theorem keeps_invoke {helper : Helper} {subject : Value} {call : Call} {clauses : Clauses}
    (hhelper : R.Serves call.tag helper) (hsubject : R.value subject) (hcall : R.Tells call)
    (hclauses : R.ClausesWithin clauses) :
    (invoke e render helper subject call clauses).Keeps (R.Holds f) R.failure
      (R.Result call.tag) := by
  have hperform := keeps_perform (f := f) L hrender hcall hclauses
    (hhelper subject call hsubject hcall rfl)
  exact Render.Keeps.mapFailure hperform fun _ hf => L.failure_fromHelper call.helper hf

/-! ### Arguments -/

omit hrender in
theorem keeps_helperFor {name : String} {bound : Option Helper}
    (hbound : ∀ helper, bound = some helper → R.Serves .call helper) :
    (e.helperFor name bound).Keeps (R.Holds f) R.failure (R.Serves .call) := by
  unfold Engine.helperFor
  cases bound with
  | some helper => exact Render.Keeps.pure (hbound helper rfl)
  | none =>
    dsimp only
    split
    · rename_i helper hhelper
      exact Render.Keeps.pure (L.registry hhelper .call fun h => nomatch h)
    · exact Render.Keeps.throw (L.failure_own fun hunder => hunder)

omit L hrender in
theorem keeps_arguments {scope : Scope} {args : List Param}
    (hargs : ∀ p ∈ args, (argument e render scope p).Keeps (R.Holds f) R.failure R.value) :
    (arguments e render scope args).Keeps (R.Holds f) R.failure fun vs => ∀ v ∈ vs, R.value v := by
  induction args with
  | nil =>
    rw [arguments]
    exact Render.Keeps.pure fun v hv => nomatch hv
  | cons p rest ih =>
    rw [arguments]
    obtain ⟨hp, hrest⟩ := List.forall_mem_cons.1 hargs
    refine Render.Keeps.bind hp fun v hv => Render.Keeps.bind (ih hrest) fun vs hvs => ?_
    exact Render.Keeps.pure (List.forall_mem_cons.2 ⟨hv, hvs⟩)

omit L hrender in
theorem keeps_namedArguments {scope : Scope} {hash : HashParams}
    (hhash : ∀ entry ∈ hash,
      (argument e render scope entry.2).Keeps (R.Holds f) R.failure R.value) :
    (namedArguments e render scope hash).Keeps (R.Holds f) R.failure fun named =>
      ∀ pair ∈ named, R.value pair.2 := by
  induction hash with
  | nil =>
    rw [namedArguments]
    exact Render.Keeps.pure fun pair hpair => nomatch hpair
  | cons entry rest ih =>
    obtain ⟨key, p⟩ := entry
    rw [namedArguments]
    obtain ⟨hp, hrest⟩ := List.forall_mem_cons.1 hhash
    refine Render.Keeps.bind hp fun v hv => Render.Keeps.bind (ih hrest) fun named hnamed => ?_
    exact Render.Keeps.pure (List.forall_mem_cons.2 ⟨hv, hnamed⟩)

/-- Arguments evaluate to values of the regime, by induction on the calls in them. -/
theorem keeps_argument {scope : Scope} (hscope : scope.All R.value) (p : Param)
    (hp : R.ServesAll p.bound) :
    (argument e render scope p).Keeps (R.Holds f) R.failure R.value := by
  induction p using Param.induct with
  | literal raw value =>
    rw [argument]
    exact Render.Keeps.pure (L.value_literal value)
  | reference raw =>
    rw [argument]
    exact keeps_get L hscope raw
  | call place name args hash bound ihargs ihhash =>
    have hown : ∀ helper, bound = some helper → R.Serves .call helper := by
      rintro helper rfl
      exact hp (name, helper) (List.mem_append_left _ List.mem_cons_self)
    have hargs : ∀ p ∈ args, (argument e render scope p).Keeps (R.Holds f) R.failure R.value := by
      intro p hmem
      refine ihargs p hmem fun b hb => hp b (List.mem_append_right _ (List.mem_append_left _ ?_))
      exact Param.mem_argsBound.2 ⟨p, hmem, hb⟩
    have hhash : ∀ entry ∈ hash,
        (argument e render scope entry.2).Keeps (R.Holds f) R.failure R.value := by
      intro entry hmem
      refine ihhash entry hmem fun b hb =>
        hp b (List.mem_append_right _ (List.mem_append_right _ ?_))
      exact Param.mem_hashBound.2 ⟨entry, hmem, hb⟩
    rw [argument]
    refine Render.Keeps.bind (keeps_helperFor L hown) fun helper hhelper => ?_
    have hcalled {subject : Value} {params : List Value} (hsubject : R.value subject)
        (hparams : ∀ v ∈ params, R.value v) : Render.Keeps (R.Holds f) R.failure (do
          let named ← namedArguments e render scope hash
          invoke e render helper subject
            { helper := name, tag := .call, scope, params, hash := Bindings.ofPairs named,
              blockParams := [], arity := args.length }
            { hasSink := false }) R.value := by
      refine Render.Keeps.bind (keeps_namedArguments hhash) fun named hnamed => ?_
      have htold : R.Tells
          { helper := name, tag := .call, scope, params, hash := Bindings.ofPairs named,
            blockParams := [], arity := args.length } :=
        ⟨hscope, hparams, Bindings.All.ofPairs hnamed⟩
      exact (keeps_invoke L hrender hhelper hsubject htold (ClausesWithin.none R false)).mono
        (fun _ hf => hf) fun _ hv => hv.1
    cases args with
    | nil =>
      refine Render.Keeps.bind (keeps_transform L hscope.model) fun subject hsubject => ?_
      exact hcalled hsubject fun v hv => nomatch hv
    | cons first rest =>
      obtain ⟨hfirst, hrest⟩ := List.forall_mem_cons.1 hargs
      refine Render.Keeps.bind hfirst fun v hv => ?_
      refine Render.Keeps.bind (keeps_transform L hv) fun subject hsubject => ?_
      exact Render.Keeps.bind (keeps_arguments hrest) fun params hparams => hcalled hsubject hparams

/-- The arguments of a tag, where all helpers bound in them stay within the regime. -/
theorem keeps_tagArgument {scope : Scope} (hscope : scope.All R.value) {args : List Param}
    {hash : HashParams} (hbound : R.ServesAll (Param.argsBound args ++ Param.hashBound hash)) :
    (∀ p ∈ args, (argument e render scope p).Keeps (R.Holds f) R.failure R.value) ∧
      ∀ entry ∈ hash, (argument e render scope entry.2).Keeps (R.Holds f) R.failure R.value := by
  constructor
  · intro p hmem
    refine keeps_argument L hrender hscope p fun b hb => hbound b (List.mem_append_left _ ?_)
    exact Param.mem_argsBound.2 ⟨p, hmem, hb⟩
  · intro entry hmem
    refine keeps_argument L hrender hscope entry.2 fun b hb => hbound b (List.mem_append_right _ ?_)
    exact Param.mem_hashBound.2 ⟨entry, hmem, hb⟩

theorem keeps_subjectOf {scope : Scope} (hscope : scope.All R.value) {call : Invocation}
    (hbound : R.ServesAll call.argBound) :
    (subjectOf e render scope call.args).Keeps (R.Holds f) R.failure R.value := by
  obtain ⟨hargs, -⟩ := keeps_tagArgument (f := f) L hrender hscope hbound
  cases hcall : call.args with
  | nil => exact Render.Keeps.pure hscope.model
  | cons first rest => exact hargs first (hcall ▸ List.mem_cons_self)

/-- What a helper is told comes from the scope and the arguments of its tag. -/
theorem keeps_callOf {scope : Scope} (hscope : scope.All R.value) {call : Invocation}
    (hbound : R.ServesAll call.argBound) (name : String) (tag : TagKind)
    (blockParams : List String) :
    (callOf e render name tag scope call.args call.hash blockParams).Keeps (R.Holds f) R.failure
      fun told => R.Tells told ∧ told.tag = tag := by
  obtain ⟨hargs, hhash⟩ := keeps_tagArgument (f := f) L hrender hscope hbound
  have hrest : ∀ p ∈ call.args.drop 1,
      (argument e render scope p).Keeps (R.Holds f) R.failure R.value :=
    fun p hmem => hargs p (List.mem_of_mem_drop hmem)
  unfold callOf
  refine Render.Keeps.bind (keeps_arguments hrest) fun params hparams => ?_
  refine Render.Keeps.bind (keeps_namedArguments hhash) fun named hnamed => ?_
  exact Render.Keeps.pure ⟨⟨hscope, hparams, Bindings.All.ofPairs hnamed⟩, rfl⟩

end

end Regime

end Stencil
