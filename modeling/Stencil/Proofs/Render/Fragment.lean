import Stencil.Proofs.Render.Lawful

/-!
# Fragments stay within their regime

Tags, sections, partials and lists of nodes under a lawful regime, and from them, by induction on
how deep fragments nest, whole fragments.
-/

namespace Stencil

/-- What happens inside the frame of a section. -/
def insideBlock (e : Engine) (render : Renderer) (scope : Scope) (head : BlockHead)
    (body : List Node) (inverse : Fragment) : Render Unit := do
  defineInlines body
  Render.located head.place do
    let value ← blockValue e render scope head body inverse
    if value.isNull then pure () else Render.emit (← Render.display value)

theorem renderBlock_eq (e : Engine) (render : Renderer) (scope : Scope) (head : BlockHead)
    (body : List Node) (inverse : Fragment) :
    renderBlock e render scope head body inverse =
      Render.inFrame (insideBlock e render scope head body inverse) := rfl

namespace Regime

variable {R : Regime} {e : Engine} {f : Frames} (L : R.Lawful e)

include L

section

variable {render : Renderer} (hrender : R.RendersWithin render) {scope : Scope}

include hrender

/-- A helper called with what its tag tells it. -/
theorem keeps_called (hscope : scope.All R.value) {call : Invocation}
    (hbound : R.ServesAll call.argBound) (name : String) {tag : TagKind} (blockParams : List String)
    {helper : Helper} (hhelper : R.Serves tag helper) {subject : Value} (hsubject : R.value subject)
    {clauses : Clauses} (hclauses : R.ClausesWithin clauses) :
    (callOf e render name tag scope call.args call.hash blockParams >>= fun told =>
      invoke e render helper subject told clauses).Keeps (R.Holds f) R.failure (R.Result tag) := by
  refine Render.Keeps.bind (keeps_callOf L hrender hscope hbound name tag blockParams) ?_
  rintro told ⟨htold, rfl⟩
  exact keeps_invoke L hrender hhelper hsubject htold hclauses

/-! ### Lambdas -/

omit hrender in
theorem keeps_lambdaAnswer (hfree : R.Free) (hscope : scope.All R.value) (section_ : Option String)
    (v : Value) : (lambdaAnswer scope section_ v).Keeps (R.Holds f) R.failure R.value := by
  unfold lambdaAnswer
  split
  · rename_i label inner call
    refine Render.Keeps.ofExcept ?_
    cases call with
    | returns v => exact Meets.pure (hfree.value v)
    | surround before after => exact Meets.pure (hfree.value _)
    | raises message =>
      refine Meets.throw (L.failure_own fun hunder => ?_)
      cases (hunder : Fault.raised _ _ = .frameUnderflow)
  · exact keeps_get L hscope _
  · exact Render.Keeps.pure (hfree.value _)

omit hrender in
/-- The markup of a lambda is a tree of the regime. -/
theorem keeps_lambdaMarkup (hscope : scope.All R.value) (section_ : Option String)
    (marks : Delimiters) {v : Value} (hv : R.value v) (hlambda : v.isLambda = true) :
    (lambdaMarkup e scope section_ marks v).Keeps (R.Holds f) R.failure fun fragment =>
      R.Tree fragment.nodes := by
  have hfree := L.lambda hv hlambda
  unfold lambdaMarkup
  refine Render.Keeps.bind (keeps_lambdaAnswer L hfree hscope section_ v) fun found _ => ?_
  split
  · rename_i source hsource
    have hparse := L.parse (e.delimitersOr marks.opening marks.closing) lambdaName
      (hfree.source source)
    exact Render.Keeps.bind (Render.Keeps.ofExcept hparse) fun t ht => Render.Keeps.pure ht
  · refine Render.Keeps.bind (keeps_display L _) fun text _ => Render.Keeps.pure ?_
    exact Node.Every.cons_iff.2 ⟨hfree.node none text, Node.Every.nil, Node.Every.nil⟩

/-! ### Output tags -/

omit L hrender in
theorem Lawful.missing_serves (L : R.Lawful e) {helper : Helper} (h : e.missing? = some helper)
    (tag : TagKind) : R.Serves tag helper :=
  L.registry h tag fun _ => by simp [sectionNames]

theorem keeps_outputValue (hscope : scope.All R.value) {style : OutputStyle} {call : Invocation}
    (hbound : R.ServesAll call.argBound)
    (hown : ∀ helper, call.helper = some helper → R.Serves style.tag helper) (marks : Delimiters) :
    (outputValue e render scope style call marks).Keeps (R.Holds f) R.failure R.value := by
  have hcalled {helper : Helper} {subject : Value} (hhelper : R.Serves style.tag helper)
      (hsubject : R.value subject) :
      (callOf e render call.name style.tag scope call.args call.hash [] >>= fun told =>
        invoke e render helper subject told { hasSink := true }).Keeps (R.Holds f) R.failure
          R.value :=
    (keeps_called L hrender hscope hbound call.name [] hhelper hsubject
      (ClausesWithin.none R true)).mono (fun _ hf => hf) fun _ hv => hv.1
  unfold outputValue
  dsimp only
  -- A bound helper is called; a name without one is called only when something replaces it.
  split
  · rename_i helper hhelper
    refine Render.Keeps.bind (keeps_subjectOf L hrender hscope hbound) fun v hv => ?_
    refine Render.Keeps.bind (keeps_transform L hv) fun subject hsubject => ?_
    exact hcalled (hown helper hhelper) hsubject
  · refine Render.Keeps.ite (fun _ => ?_) fun _ => ?_
    · split
      · rename_i helper hhelper
        exact hcalled (L.missing_serves hhelper _) L.null
      · exact Render.Keeps.throw (L.failure_own fun hunder => hunder)
    · refine Render.Keeps.bind (keeps_get L hscope call.name) fun v hv => ?_
      refine Render.Keeps.bind (keeps_transform L hv) fun value hvalue => ?_
      refine Render.Keeps.ite (fun _ => ?_) fun _ => ?_
      · split
        · rename_i helper hhelper
          exact hcalled (L.missing_serves hhelper _) L.null
        · exact Render.Keeps.pure L.null
      · refine Render.Keeps.ite (fun hlambda => ?_) fun _ => Render.Keeps.pure hvalue
        refine Render.Keeps.bind (keeps_lambdaMarkup L hscope none marks hvalue hlambda) ?_
        intro markup hmarkup
        refine Render.Keeps.bind (keeps_captured L (hrender f markup scope hmarkup hscope)) ?_
        exact fun text _ => Render.Keeps.pure (L.text text)

omit L hrender in
theorem outputText_eq (style : OutputStyle) (v : Value) :
    outputText e style v =
      Render.display v >>= fun text => pure (style.written e.escaping v text) := by
  unfold outputText
  congr 1
  funext text
  cases style <;> cases v <;> rfl

theorem keeps_renderOutput (hscope : scope.All R.value) {place : Option Location}
    {style : OutputStyle} {call : Invocation} {marks : Delimiters}
    (hnode : R.node (.output place style call marks)) :
    (renderOutput e render scope style (call.placed place) marks).Keeps (R.Holds f) R.failure
      fun _ => True := by
  obtain ⟨hbound, hown⟩ := L.node_output hnode
  rw [← call.argBound_placed place] at hbound
  unfold renderOutput
  refine Render.Keeps.bind (keeps_outputValue L hrender hscope hbound hown marks) fun v hv => ?_
  refine Render.Keeps.ite (fun _ => Render.Keeps.pure trivial) fun _ => ?_
  rw [outputText_eq, bind_assoc]
  refine Render.Keeps.bind (keeps_display L v) ?_
  rintro text ⟨drawn, drawn', htext⟩
  exact keeps_emit L (L.node_written hnode hv htext)

/-! ### Sections -/

omit hrender in
/-- The helper that a section without one of its own looks for is a built-in for sections. -/
theorem keeps_treatment (hscope : scope.All R.value) (head : BlockHead) {body : List Node}
    (hbody : R.Tree body) {v : Value} (hv : R.value v) :
    (treatment e scope head body v).Keeps (R.Holds f) R.failure fun treated =>
      treated.helper.name ∈ sectionNames ∧ R.Tree treated.body.nodes ∧
        treated.scope.All R.value := by
  unfold treatment
  -- Only a lambda changes the body, and only a value of its own changes the scope.
  refine Render.Keeps.ite (fun _ => ?inverted) fun _ =>
    Render.Keeps.ite (fun _ => ?items) fun _ => ?_
  case inverted => exact Render.Keeps.pure ⟨by simp [sectionNames], hbody, hscope⟩
  case items => exact Render.Keeps.pure ⟨by simp [sectionNames], hbody, hscope⟩
  split
  · exact Render.Keeps.pure ⟨by simp [sectionNames], hbody, hscope⟩
  · refine Render.Keeps.ite (fun hlambda => ?_) fun _ => ?_
    · refine Render.Keeps.bind (keeps_lambdaMarkup L hscope _ _ hv hlambda) fun markup hmarkup => ?_
      exact Render.Keeps.pure ⟨by simp [sectionNames], hmarkup, hscope⟩
    · exact Render.Keeps.pure
        ⟨by simp [sectionNames], hbody, hscope.child hv Bindings.All.nil⟩

omit hrender in
theorem keeps_implicitHelper (head : BlockHead) {which : Builtin}
    (hwhich : which.name ∈ sectionNames) (v : Value) :
    (implicitHelper e head which v).Keeps (R.Holds f) R.failure fun found =>
      R.Serves .block found.1 := by
  unfold implicitHelper
  split
  · rename_i helper _ hhelper
    exact Render.Keeps.pure (L.missing_serves hhelper _)
  · split
    · rename_i helper hhelper
      exact Render.Keeps.pure (L.registry hhelper .block fun _ => hwhich)
    · exact Render.Keeps.throw (L.failure_own fun hunder => hunder)

theorem keeps_blockValue (hscope : scope.All R.value) {head : BlockHead} {body : List Node}
    {inverse : Fragment} (hbound : R.ServesAll head.call.argBound)
    (hown : ∀ helper, head.call.helper = some helper → R.Serves .block helper)
    (hbody : R.Tree body) (hinverse : R.Tree inverse.nodes) :
    (blockValue e render scope head body inverse).Keeps (R.Holds f) R.failure
      (R.Result .block) := by
  unfold blockValue
  split
  · rename_i helper hhelper
    refine Render.Keeps.bind (keeps_subjectOf L hrender hscope hbound) fun v hv => ?_
    refine Render.Keeps.bind (keeps_transform L hv) fun subject hsubject => ?_
    exact keeps_called L hrender hscope hbound _ _ (hown helper hhelper) hsubject ⟨hbody, hinverse⟩
  · refine Render.Keeps.bind (keeps_get L hscope head.call.name) fun v hv => ?_
    refine Render.Keeps.bind (keeps_transform L hv) fun subject hsubject => ?_
    refine Render.Keeps.bind (keeps_treatment L hscope head hbody hsubject) ?_
    rintro treated ⟨hname, htreated, htscope⟩
    refine Render.Keeps.bind (keeps_implicitHelper L head hname subject) ?_
    rintro ⟨helper, name⟩ hhelper
    exact keeps_called L hrender htscope hbound _ _ hhelper hsubject ⟨htreated, hinverse⟩

theorem keeps_insideBlock (hscope : scope.All R.value) {head : BlockHead} {body : List Node}
    {inverse : Option (List Node)} (hnode : R.Tree [.block head (some body) inverse]) :
    (insideBlock e render scope head.placed body ⟨head.elsePlace, inverse.getD []⟩).Keeps (R.Holds f)
      R.failure fun _ => True := by
  obtain ⟨hbound, hown⟩ := L.node_block (Node.Every.cons_iff.1 hnode).1
  rw [← head.call.argBound_placed head.place] at hbound
  refine Render.Keeps.bind (keeps_defineInlines L hnode.body) fun _ _ => keeps_located L _ ?_
  refine Render.Keeps.bind
    (keeps_blockValue L hrender hscope hbound hown hnode.body hnode.inverse) fun v hv => ?_
  refine Render.Keeps.ite (fun _ => Render.Keeps.pure trivial) fun _ => ?_
  refine Render.Keeps.bind (keeps_display L v) ?_
  rintro text ⟨drawn, drawn', htext⟩
  exact keeps_emit L (hv.2 rfl drawn text drawn' htext)

/-! ### Frames of their own -/

omit L hrender in
/-- What happens inside a frame of its own leaves the frames below alone, so popping the frame gives
back the frames as they were. -/
theorem pop_inFrame {α : Type} {m : Render α} {V : α → Prop}
    (hm : ∀ g, m.Keeps (R.Holds g) R.failure V) {w inner : World} {pushed : Frames}
    {r : Except Failure α} (hw : R.Holds f w) (hpush : w.side.frames.push = .ok pushed)
    (hr : m.outcome (w.withFrames pushed) = some (r, inner)) :
    inner.side.frames.pop = .ok w.side.frames ∧ R.Holds pushed inner ∧ Meets R.failure V r := by
  have hstart : R.Holds pushed (w.withFrames pushed) :=
    Holds.withFrames hw (hw.partials.push hpush) (Frames.SameBelow.refl pushed)
  obtain ⟨hinner, hmeets⟩ := hm pushed _ r inner hstart hr
  exact ⟨Frames.SameBelow.pop_of_push hpush hinner.below, hinner, hmeets⟩

omit hrender in
/-- A step inside a frame of its own ends with the frames it began with. -/
theorem inFrame_restores {α : Type} {m : Render α} {V : α → Prop}
    (hm : ∀ g, m.Keeps (R.Holds g) R.failure V) {w after : World} {r : Except Failure α}
    (hw : R.Holds f w) (hr : (Render.inFrame m).outcome w = some (r, after)) :
    after.side.frames = w.side.frames ∧ R.Holds f after ∧ Meets R.failure V r := by
  rw [Render.outcome_inFrame] at hr
  split at hr
  · -- Where no frame can be pushed, nothing has happened yet.
    rename_i cause hcause
    cases hr
    exact ⟨rfl, hw, .error (L.refusal ((Frames.push_meets _).of_error hcause))⟩
  · rename_i pushed hpush
    obtain ⟨⟨r₁, inner⟩, hr₁, hr⟩ := Option.bind_eq_some_iff.1 hr
    obtain ⟨hpop, hinner, hmeets⟩ := pop_inFrame hm hw hpush hr₁
    dsimp only at hr
    rw [hpop] at hr
    cases hr
    exact ⟨rfl, Holds.withFrames hinner hw.partials hw.below, hmeets⟩

/-- A section ends with the frames it began with. -/
theorem renderBlock_restores (hscope : scope.All R.value) {head : BlockHead} {body : List Node}
    {inverse : Option (List Node)} (hnode : R.Tree [.block head (some body) inverse])
    {w after : World} {r : Except Failure Unit} (hw : R.Holds f w)
    (hr : (renderBlock e render scope head.placed body
      ⟨head.elsePlace, inverse.getD []⟩).outcome w = some (r, after)) :
    after.side.frames = w.side.frames ∧ R.Holds f after ∧ Meets R.failure (fun _ => True) r := by
  rw [renderBlock_eq] at hr
  exact inFrame_restores L (fun _ => keeps_insideBlock L hrender hscope hnode) hw hr

/-! ### Partials -/

omit hrender in
theorem keeps_compiled {place : Option Location} {name : String} {args : List Param}
    {hash : HashParams} {marks : Delimiters}
    (hnode : R.node (.inclusion place name args hash marks)) :
    (partialOf.compiled e name).Keeps (R.Holds f) R.failure fun fragment =>
      R.Tree fragment.nodes := by
  intro w r after hw hr
  obtain ⟨hcache, hmeets⟩ := L.compile w.cache w.nextTree hnode hw.cache
  simp only [partialOf.compiled, Render.outcome_ofOutcome, Option.some.injEq, Prod.mk.injEq] at hr
  obtain ⟨rfl, rfl⟩ := hr
  exact ⟨⟨hw.data, hw.output, hcache, hw.partials, hw.below⟩,
    Meets.map (U := fun fragment : Fragment => R.Tree fragment.nodes) hmeets⟩

omit hrender in
theorem keeps_partialOf {place : Option Location} {name : String} {args : List Param}
    {hash : HashParams} {marks : Delimiters}
    (hnode : R.node (.inclusion place name args hash marks)) :
    (partialOf e name).Keeps (R.Holds f) R.failure fun fragment => R.Tree fragment.nodes := by
  unfold partialOf
  refine Render.Keeps.bind (V := Frames.Every R.node)
    (Render.Keeps.read fun w hw => Holds.partials hw) fun frames hframes => ?_
  have hvisible := (Frames.visible_meets frames).mono
    (G := fun cause => R.failure (.fault cause)) (fun _ => L.refusal) fun _ h => h
  refine Render.Keeps.bind (Render.Keeps.ofFault hvisible) fun visible hvisible => ?_
  split
  · rename_i body hbody
    exact Render.Keeps.pure (hframes.lookup hvisible hbody)
  · refine Render.Keeps.ite (fun _ => keeps_compiled L hnode) fun _ => Render.Keeps.throw ?_
    exact L.failure_own fun hunder => nomatch (hunder : noPartial = .frameUnderflow)
  · exact keeps_compiled L hnode

theorem keeps_partialScope (hscope : scope.All R.value) {args : List Param} {hash : HashParams}
    (hbound : R.ServesAll (Param.argsBound args ++ Param.hashBound hash)) :
    (partialScope e render scope args hash).Keeps (R.Holds f) R.failure fun inner =>
      inner.All R.value := by
  obtain ⟨hargs, hhash⟩ := keeps_tagArgument (f := f) L hrender hscope hbound
  have hnamed {inner : Scope} (hinner : inner.All R.value) :
      Render.Keeps (R.Holds f) R.failure (if hash.isEmpty then pure inner
        else do pure (inner.withBindings (Bindings.ofPairs (← namedArguments e render scope hash))))
        fun inner => inner.All R.value := by
    refine Render.Keeps.ite (fun _ => Render.Keeps.pure hinner) fun _ => ?_
    refine Render.Keeps.bind (keeps_namedArguments hhash) fun named hnamed => ?_
    exact Render.Keeps.pure (hinner.withBindings (Bindings.All.ofPairs hnamed))
  unfold partialScope
  cases args with
  | nil => exact hnamed hscope
  | cons first rest =>
    refine Render.Keeps.bind (hargs first List.mem_cons_self) fun model hmodel => ?_
    exact hnamed (hscope.child hmodel Bindings.All.nil)

theorem keeps_renderInclusion (hscope : scope.All R.value) {place : Option Location} {name : String}
    {args : List Param} {hash : HashParams} {marks : Delimiters}
    (hnode : R.node (.inclusion place name args hash marks)) :
    (renderInclusion e render scope name (Param.placedArgs place [] args)
      (Param.placedHash place [] hash)).Keeps (R.Holds f) R.failure fun _ => True := by
  unfold renderInclusion
  refine Render.Keeps.bind (keeps_partialOf L hnode) fun fragment hfragment => ?_
  refine Render.Keeps.bind (keeps_partialScope L hrender hscope ?_) ?_
  · rw [Param.argsBound_placedArgs, Param.hashBound_placedHash]
    exact L.node_inclusion hnode
  exact fun inner hinner => hrender f fragment inner hfragment hinner

/-! ### Nodes -/

theorem keeps_renderNode (hscope : scope.All R.value) {n : Node} (hn : R.Tree [n]) :
    (renderNode e render scope n).Keeps (R.Holds f) R.failure fun _ => True := by
  have hnode := (Node.Every.cons_iff.1 hn).1
  cases n with
  | text place content => exact keeps_emit L (L.node_text hnode)
  | comment | inlinePartial => exact Render.Keeps.pure trivial
  | output place style call marks =>
    exact keeps_located L _ (keeps_renderOutput L hrender hscope hnode)
  | block head body inverse =>
    cases body with
    | none => exact Render.Keeps.pure trivial
    | some body =>
      intro w r after hw hr
      exact (renderBlock_restores L hrender hscope hn hw hr).2
  | inclusion place name args hash marks =>
    exact keeps_located L _ (keeps_renderInclusion L hrender hscope hnode)

theorem keeps_renderNodes (hscope : scope.All R.value) {nodes : List Node} (hnodes : R.Tree nodes) :
    (renderNodes e render scope nodes).Keeps (R.Holds f) R.failure fun _ => True := by
  induction nodes with
  | nil => exact Render.Keeps.pure trivial
  | cons n rest ih =>
    obtain ⟨hn, hchildren, hrest⟩ := Node.Every.cons_iff.1 hnodes
    have hsingle : R.Tree [n] := Node.Every.cons_iff.2 ⟨hn, hchildren, Node.Every.nil⟩
    exact Render.Keeps.bind (keeps_renderNode L hrender hscope hsingle) fun _ _ => ih hrest

end

/-- Fragments nested to any depth are rendered within the regime, by induction on the depth. -/
theorem renderFragment_within (depth : Nat) : R.RendersWithin (renderFragment e depth) := by
  induction depth with
  | zero => exact fun _ _ _ _ _ => Render.Keeps.exhausted
  | succ depth ih =>
    intro f fragment scope hnodes hscope
    refine Render.Keeps.bind (keeps_defineInlines L hnodes) fun _ _ => ?_
    exact keeps_located L _ (keeps_renderNodes L ih hscope hnodes)

end Regime

end Stencil
