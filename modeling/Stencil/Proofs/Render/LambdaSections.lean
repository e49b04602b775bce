import Stencil.Proofs.Render.ElseClause
import Stencil.Proofs.Scope.Deeper

/-!
# Sections that a lambda governs

The markup that a lambda answers for a section takes the place of the body, and the helper `with`
renders it: in a child of the scope of the section, for the lambda is not the model that the scope
stands at. So the markup is rendered one level deeper than the section stands. Markup that reads
names only, and finds nothing there that can be called, is rendered as it is in the scope of the
section.
-/

namespace Stencil

open Render

/-! ## Markup that reads names only -/

/-- A reference to one of the names `R`. -/
def Refers (R : String → List String → Prop) (reference : String) : Prop :=
  ∃ name rest, (Path.parse reference).BeginsWith name rest ∧ R name rest

/-- Nodes that read the names `R` and nothing else: texts, output tags and sections without helpers
of their own, and sections that iterate or branch. -/
inductive Node.Plain (R : String → List String → Prop) : Node → Prop where
  | text (place : Option Location) (content : String) : Plain R (.text place content)
  | comment (place : Option Location) (content : String) (marks : Delimiters) :
      Plain R (.comment place content marks)
  | output {place : Option Location} {style : OutputStyle} {call : Invocation}
      {marks : Delimiters} : call.helper = none → call.args = [] → call.hash = [] →
      Refers R call.name → Plain R (.output place style call marks)
  | bare {head : BlockHead} {body inverse : Option (List Node)} : head.call.helper = none →
      head.call.args = [] → head.call.hash = [] → Refers R head.call.name →
      (∀ n ∈ body.getD [], Plain R n) → (∀ n ∈ inverse.getD [], Plain R n) →
      Plain R (.block head body inverse)
  | told {head : BlockHead} {body inverse : Option (List Node)} {stamp : Nat} {which : Builtin}
      {subject : String} : head.call.helper = some ⟨stamp, .builtin which⟩ →
      which ∈ [Builtin.each, .branch, .negate] → head.call.args = [.reference subject] →
      head.call.hash = [] → Refers R subject →
      (∀ n ∈ body.getD [], Plain R n) → (∀ n ∈ inverse.getD [], Plain R n) →
      Plain R (.block head body inverse)

/-- Engines that transform and call helpers as they do without the host's wishes. -/
structure Engine.Unaltered (e : Engine) : Prop where
  transformer : e.transformer = .standard
  missing : e.missing? = none
  builtin : ∀ which ∈ [Builtin.each, .branch, .negate, .enter], ∀ helper,
    e.registry.lookup which.name = some helper → helper.behaviour = .builtin which

namespace Render

variable {α β : Type}

/-- Two sequences are the same when they go on in the same way after every result that there can
be. -/
theorem bind_congr_ok {m : Render α} {k k' : α → Render β}
    (h : ∀ w a after, m.outcome w = some (.ok a, after) → k a = k' a) : m >>= k = m >>= k' := by
  refine Render.ext fun w => ?_
  rw [outcome_bind, outcome_bind]
  cases hm : m.outcome w with
  | none => rfl
  | some found =>
    obtain ⟨r, after⟩ := found
    cases r with
    | error f => rfl
    | ok a => exact congrArg (fun step : Render β => step.outcome after) (h w a after hm)

end Render

section

variable {R : String → List String → Prop} {s other : Scope} {reference : String} {w after : World}
  {v : Value}

theorem Scope.Shares.get_eq (h : s.Shares R other) (hR : Refers R reference) :
    Render.get s reference = Render.get other reference := by
  obtain ⟨name, rest, hbegins, hname⟩ := hR
  refine Render.ext fun w => ?_
  rw [outcome_get, outcome_get, Scope.get_of_beginsWith hbegins, Scope.get_of_beginsWith hbegins,
    h.resolvers, h.reads name rest hname]

theorem Scope.Shares.get_passive (h : s.Shares R other) (hR : Refers R reference)
    (hget : (Render.get other reference).outcome w = some (.ok v, after)) : v.Passive := by
  obtain ⟨name, rest, hbegins, hname⟩ := hR
  rw [outcome_get, Scope.get_of_beginsWith hbegins] at hget
  cases hread : Scope.readLevels other.resolvers false name rest other.levels with
  | error cause =>
    rw [hread] at hget
    cases hget
  | ok u =>
    rw [hread] at hget
    cases hget
    exact h.passive name rest _ hname hread

theorem transform_passive {e : Engine} (he : e.Unaltered) {u : Value} (hv : v.Passive)
    (h : (transform e v).outcome w = some (.ok u, after)) : u.Passive := by
  obtain ⟨label, between, -, h⟩ := outcome_bind_ok h
  cases h
  rw [he.transformer]
  exact Transformer.Passive.standard.apply label hv

theorem items_passive (hv : v.Passive) {found : List Value}
    (h : (Render.items v).outcome w = some (.ok found, after)) : ∀ u ∈ found, u.Passive := by
  cases v with
  | list | tuple =>
    cases h
    exact hv.inner
  | iterator label inside =>
    obtain ⟨drawn, between, -, h⟩ := outcome_bind_ok h
    split at h
    · cases h
      exact List.forall_mem_nil _
    · obtain ⟨_, between', -, h⟩ := outcome_bind_ok h
      cases h
      exact hv.inner
  | _ =>
    cases h
    exact List.forall_mem_nil _

end

/-! ## Helpers in scopes that share the names -/

/-- The scopes of an iteration share the names as those of the call do. -/
theorem Call.bindParams_shares (call : Call) {R : String → List String → Prop} {s other : Scope}
    (h : s.Shares R other) {item key : Value} (hitem : item.Passive) (hkey : key.Passive)
    (index count : Nat) :
    (call.bindParams (s.child item (Builtin.iterationVariables index count key)) [item, key]).Shares R
      (call.bindParams (other.child item (Builtin.iterationVariables index count key))
        [item, key]) := by
  have hvariables : (Builtin.iterationVariables index count key).All Value.Passive := by
    have hbool (b : Bool) : (Value.bool b).Passive := .of_scalar rfl rfl
    exact .cons (.int _) (.cons hkey (.cons (hbool _) (.cons (hbool _) (.cons (hbool _)
      (.cons (hbool _) .nil)))))
  unfold Call.bindParams
  split
  · exact h.child hitem hvariables
  · refine h.child hitem (hvariables.merge (.ofPairs (Bindings.All.zip ?_)))
    simp [hitem, hkey]

section

variable {R : String → List String → Prop} {answer answer' : (q : Request) → Render q.Reply}
  {call : Call} {other : Scope}
  (hrender : ∀ what ∈ [Markup.body, .inverse], ∀ s s' : Scope, s.Shares R s' →
    answer (.render what s) = answer' (.render what s'))

include hrender

theorem perform_render_shares {what : Markup} (hwhat : what ∈ [Markup.body, .inverse])
    {s s' : Scope} (h : s.Shares R s') :
    (do pure (.text (← Action.request (.render what s))) : Action Value).perform answer =
      (do pure (.text (← Action.request (.render what s'))) : Action Value).perform answer' := by
  show ((Action.request (.render what s)).bind fun text => Action.done (Value.text text)).perform _ =
    ((Action.request (.render what s')).bind fun text => Action.done (Value.text text)).perform _
  rw [Action.perform_request_bind, Action.perform_request_bind, hrender what hwhat s s' h]
  rfl

theorem perform_eachEntry_shares (h : call.scope.Shares R other) {count index : Nat}
    {entries : List (Value × Value)}
    (hentries : ∀ entry ∈ entries, entry.1.Passive ∧ entry.2.Passive) :
    (Builtin.eachEntry call count index entries).perform answer =
      (Builtin.eachEntry { call with scope := other } count index entries).perform answer' := by
  induction entries generalizing index with
  | nil => rfl
  | cons entry rest ih =>
    obtain ⟨⟨hkey, hitem⟩, hrest⟩ := List.forall_mem_cons.1 hentries
    have hscopes := call.bindParams_shares h hitem hkey index count
    have hunfold (call : Call) : Builtin.eachEntry call count index (entry :: rest) =
        (Action.request (.render .body (call.bindParams (call.scope.child entry.2
          (Builtin.iterationVariables index count entry.1)) [entry.2, entry.1]))).bind fun text =>
            (Builtin.eachEntry call count (index + 1) rest).bind fun others =>
              Action.done (text ++ others) := rfl
    rw [hunfold, hunfold]
    rw [Action.perform_request_bind, Action.perform_request_bind,
      hrender .body (by simp) _ _ hscopes]
    refine bind_congr fun text => ?_
    rw [Action.perform_bind, Action.perform_bind, ih hrest]
    rfl

theorem perform_eachOf_shares (h : call.scope.Shares R other) {entries : List (Value × Value)}
    (hentries : ∀ entry ∈ entries, entry.1.Passive ∧ entry.2.Passive) :
    (Builtin.eachOf call entries).perform answer =
      (Builtin.eachOf { call with scope := other } entries).perform answer' := by
  unfold Builtin.eachOf
  split
  · exact perform_render_shares hrender (by simp) h
  · show ((Builtin.eachEntry call _ 0 entries).bind fun text =>
        Action.done (Value.text text)).perform _ =
      ((Builtin.eachEntry { call with scope := other } _ 0 entries).bind fun text =>
        Action.done (Value.text text)).perform _
    rw [Action.perform_bind, Action.perform_bind, perform_eachEntry_shares hrender h hentries]
    rfl

theorem perform_each_shares (hitems : ∀ v, answer (.items v) = Render.items v)
    (hitems' : ∀ v, answer' (.items v) = Render.items v) (h : call.scope.Shares R other)
    {subject : Value} (hsubject : subject.Passive) :
    (Builtin.each.act subject call).perform answer =
      (Builtin.each.act subject { call with scope := other }).perform answer' := by
  by_cases hmap : ∃ label entries, subject = .map label entries
  · obtain ⟨label, entries, rfl⟩ := hmap
    exact perform_eachOf_shares hrender h fun entry hentry =>
      ⟨hsubject.inner _ (Value.mem_inner_map hentry).1,
        hsubject.inner _ (Value.mem_inner_map hentry).2⟩
  · have hmap : ∀ label entries, subject ≠ .map label entries :=
      fun label entries heq => hmap ⟨label, entries, heq⟩
    rw [Builtin.each_of_not_map call hmap, Builtin.each_of_not_map _ hmap]
    split
    · show ((Action.request (.items subject)).bind fun items =>
          Builtin.eachOf call (Builtin.numbered items)).perform _ =
        ((Action.request (.items subject)).bind fun items =>
          Builtin.eachOf { call with scope := other } (Builtin.numbered items)).perform _
      rw [Action.perform_request_bind, Action.perform_request_bind, hitems, hitems']
      refine bind_congr_ok fun w found after hfound => ?_
      have hpassive : ∀ u ∈ found, u.Passive := items_passive hsubject hfound
      refine perform_eachOf_shares hrender h fun entry hentry => ?_
      obtain ⟨⟨item, index⟩, hitem, rfl⟩ := List.mem_map.1 hentry
      exact ⟨.int _, hpassive item (List.fst_mem_of_mem_zipIdx hitem)⟩
    · exact perform_render_shares hrender (by simp) h

/-- The built-in helpers of sections do the same in scopes that share the names. The helper `with`
compares its subject with the model of the scope. -/
theorem perform_act_shares (hitems : ∀ v, answer (.items v) = Render.items v)
    (hitems' : ∀ v, answer' (.items v) = Render.items v) (h : call.scope.Shares R other)
    {subject : Value} (hsubject : subject.Passive) {which : Builtin}
    (hwhich : which ∈ [Builtin.each, .branch, .negate] ∨
      which = .enter ∧ call.scope.here.model = other.here.model) :
    (which.act subject call).perform answer =
      (which.act subject { call with scope := other }).perform answer' := by
  have hchoice (falsy : Bool) {s s' : Scope} (hs : s.Shares R s') {first second : Markup}
      (hfirst : first ∈ [Markup.body, .inverse]) (hsecond : second ∈ [Markup.body, .inverse]) :
      (if falsy then do pure (.text (← Action.request (.render first call.scope)))
        else do pure (.text (← Action.request (.render second s))) : Action Value).perform answer =
        (if falsy then do pure (.text (← Action.request (.render first other)))
          else do pure (.text (← Action.request (.render second s'))) : Action Value).perform
          answer' := by
    cases falsy
    · exact perform_render_shares hrender hsecond hs
    · exact perform_render_shares hrender hfirst h
  rcases hwhich with hwhich | ⟨rfl, hmodel⟩
  · simp only [List.mem_cons, List.not_mem_nil, or_false] at hwhich
    rcases hwhich with rfl | rfl | rfl
    · exact perform_each_shares hrender hitems hitems' h hsubject
    · exact hchoice _ h (by simp) (by simp)
    · exact hchoice _ h (by simp) (by simp)
  · refine hchoice _ ?_ (by simp) (by simp)
    unfold Call.scopeFor
    rw [hmodel]
    split
    · exact h
    · exact h.child hsubject .nil

end

/-! ## Plain markup in scopes that share its names -/

section

variable {R : String → List String → Prop} {e : Engine} {render : Renderer} {s other : Scope}

/-- A renderer renders plain fragments in the same way in scopes that share their names. -/
def Renderer.Shares (R : String → List String → Prop) (render : Renderer) : Prop :=
  ∀ fragment : Fragment, (∀ n ∈ fragment.nodes, Node.Plain R n) → ∀ s other : Scope,
    s.Shares R other → render fragment s = render fragment other

theorem renderOutput_shares (he : e.Unaltered) (h : s.Shares R other) {call : Invocation}
    (hhelper : call.helper = none) (hargs : call.args = []) (hhash : call.hash = [])
    (hname : Refers R call.name) (style : OutputStyle) (marks : Delimiters) :
    renderOutput e render s style call marks = renderOutput e render other style call marks := by
  have hbare (s : Scope) : outputValue e render s style call marks =
      Render.get s call.name >>= fun read => transform e read >>= fun v =>
        if v.isNull then pure .null
        else if v.isLambda then
          lambdaMarkup e s none marks v >>= fun markup =>
            Render.captured (render markup s) >>= fun text => pure (.text text)
        else pure v := by
    unfold outputValue
    rw [hhelper, hargs, hhash, he.missing]
    rfl
  have hvalue : outputValue e render s style call marks =
      outputValue e render other style call marks := by
    rw [hbare, hbare, h.get_eq hname]
    refine bind_congr_ok fun w read after hread => ?_
    refine bind_congr_ok fun w v after hv => ?_
    rw [(transform_passive he (h.get_passive hname hread) hv).not_lambda, if_neg Bool.false_ne_true,
      if_neg Bool.false_ne_true]
  unfold renderOutput
  rw [hvalue]

theorem invoke_shares (hrender : render.Shares R) (call : Call) (h : call.scope.Shares R other)
    {helper : Helper} {which : Builtin} (hhelper : helper.behaviour = .builtin which)
    (hwhich : which ∈ [Builtin.each, .branch, .negate] ∨
      which = .enter ∧ call.scope.here.model = other.here.model)
    {subject : Value} (hsubject : subject.Passive) {clauses : Clauses}
    (hbody : ∀ n ∈ clauses.body.nodes, Node.Plain R n)
    (hinverse : ∀ n ∈ clauses.inverse.nodes, Node.Plain R n) :
    invoke e render helper subject call clauses =
      invoke e render helper subject { call with scope := other } clauses := by
  have hclause : ∀ what ∈ [Markup.body, .inverse], ∀ s s' : Scope, s.Shares R s' →
      answer e render call clauses (.render what s) =
        answer e render { call with scope := other } clauses (.render what s') := by
    intro what hwhat s s' hs
    simp only [List.mem_cons, List.not_mem_nil, or_false] at hwhat
    rcases hwhat with rfl | rfl
    · exact congrArg Render.captured (hrender clauses.body hbody s s' hs)
    · exact congrArg Render.captured (hrender clauses.inverse hinverse s s' hs)
  unfold invoke
  rw [Helper.act, Helper.act, hhelper]
  exact congrArg (Render.mapFailure (Failure.fromHelper call.helper))
    (perform_act_shares hclause (fun _ => rfl) (fun _ => rfl) h hsubject hwhich)

theorem treatment_passive (h : s.Shares R other) (head : BlockHead) (body : List Node) {v : Value}
    (hv : v.Passive) :
    ∃ which inner inner', treatment e s head body v = pure ⟨which, ⟨none, body⟩, inner⟩ ∧
      treatment e other head body v = pure ⟨which, ⟨none, body⟩, inner'⟩ ∧
      inner.Shares R inner' ∧ which ∈ [Builtin.each, .branch, .negate, .enter] ∧
      (which ∈ [Builtin.each, .branch, .negate] ∨
        which = .enter ∧ inner.here.model = inner'.here.model) := by
  unfold treatment
  split
  · exact ⟨.negate, s, other, rfl, rfl, h, by simp, .inl (by simp)⟩
  · split
    · exact ⟨.each, s, other, rfl, rfl, h, by simp, .inl (by simp)⟩
    · split
      · exact ⟨.branch, s, other, rfl, rfl, h, by simp, .inl (by simp)⟩
      · rw [hv.not_lambda]
        exact ⟨.enter, s.child v [], other.child v [], rfl, rfl, h.child hv .nil, by simp,
          .inr ⟨rfl, rfl⟩⟩

theorem blockValue_bare_shares (he : e.Unaltered) (hrender : render.Shares R)
    (h : s.Shares R other) {head : BlockHead} (hhelper : head.call.helper = none)
    (hargs : head.call.args = []) (hhash : head.call.hash = []) (hname : Refers R head.call.name)
    {body : List Node} {inverse : Fragment} (hbody : ∀ n ∈ body, Node.Plain R n)
    (hinverse : ∀ n ∈ inverse.nodes, Node.Plain R n) :
    blockValue e render s head body inverse = blockValue e render other head body inverse := by
  unfold blockValue
  rw [hhelper, hargs, hhash, h.get_eq hname]
  refine bind_congr_ok fun w read after hread => ?_
  refine bind_congr_ok fun w v after hv => ?_
  have hpassive : v.Passive := transform_passive he (h.get_passive hname hread) hv
  obtain ⟨which, inner, inner', htreated, htreated', hinner, hmember, hwhich⟩ :=
    treatment_passive (e := e) h head body hpassive
  rw [htreated, htreated', pure_bind, pure_bind]
  refine bind_congr_ok fun w found after hfound => ?_
  obtain ⟨helper, name⟩ := found
  have hbehaviour : helper.behaviour = .builtin which := by
    unfold implicitHelper at hfound
    rw [he.missing] at hfound
    split at hfound
    · rename_i hsome
      cases hsome
    · split at hfound
      · rename_i found hlookup
        cases hfound
        exact he.builtin which hmember _ hlookup
      · cases hfound
  exact invoke_shares hrender ⟨name, .block, inner, [], [], head.blockParams, 0⟩ hinner hbehaviour
    hwhich hpassive hbody hinverse

theorem blockValue_told_shares (he : e.Unaltered) (hrender : render.Shares R)
    (h : s.Shares R other) {head : BlockHead} {stamp : Nat} {which : Builtin} {subject : String}
    (hhelper : head.call.helper = some ⟨stamp, .builtin which⟩)
    (hwhich : which ∈ [Builtin.each, .branch, .negate])
    (hargs : head.call.args = [.reference subject]) (hhash : head.call.hash = [])
    (hname : Refers R subject) {body : List Node} {inverse : Fragment}
    (hbody : ∀ n ∈ body, Node.Plain R n) (hinverse : ∀ n ∈ inverse.nodes, Node.Plain R n) :
    blockValue e render s head body inverse = blockValue e render other head body inverse := by
  have htold (s : Scope) : blockValue e render s head body inverse =
      Render.get s subject >>= fun read => transform e read >>= fun v =>
        invoke e render ⟨stamp, .builtin which⟩ v
          ⟨head.call.name, .block, s, [], [], head.blockParams, 1⟩ ⟨⟨none, body⟩, inverse, true⟩ := by
    unfold blockValue
    rw [hhelper, hargs, hhash]
    rfl
  rw [htold, htold, h.get_eq hname]
  refine bind_congr_ok fun w read after hread => ?_
  refine bind_congr_ok fun w v after hv => ?_
  exact invoke_shares hrender ⟨head.call.name, .block, s, [], [], head.blockParams, 1⟩ h rfl
    (.inl hwhich) (transform_passive he (h.get_passive hname hread) hv) hbody hinverse

theorem renderNode_shares (he : e.Unaltered) (hrender : render.Shares R) (h : s.Shares R other)
    {n : Node} (hn : n.Plain R) : renderNode e render s n = renderNode e render other n := by
  have hblock {head : BlockHead} {body : List Node} {inverse : Fragment}
      (hvalue : blockValue e render s head body inverse =
        blockValue e render other head body inverse) :
      renderBlock e render s head body inverse = renderBlock e render other head body inverse := by
    unfold renderBlock
    rw [hvalue]
  cases hn with
  | text | comment => rfl
  | @output place style call marks hhelper hargs hhash hname =>
    have hhelper' : (call.placed place).helper = none := hhelper
    have hargs' : (call.placed place).args = [] := congrArg (Param.placedArgs place []) hargs
    have hhash' : (call.placed place).hash = [] := congrArg (Param.placedHash place []) hhash
    exact congrArg (Render.located place)
      (renderOutput_shares he h hhelper' hargs' hhash' hname style marks)
  | @bare head body inverse hhelper hargs hhash hname hbody hinverse =>
    have hhelper' : head.placed.call.helper = none := hhelper
    have hargs' : head.placed.call.args = [] := congrArg (Param.placedArgs head.place []) hargs
    have hhash' : head.placed.call.hash = [] := congrArg (Param.placedHash head.place []) hhash
    cases body with
    | none => rfl
    | some body =>
      exact hblock (blockValue_bare_shares he hrender h hhelper' hargs' hhash' hname hbody hinverse)
  | @told head body inverse _ _ subject hhelper hwhich hargs hhash hname hbody hinverse =>
    have hhelper' : head.placed.call.helper = _ := hhelper
    have hargs' : head.placed.call.args = [.reference subject] :=
      congrArg (Param.placedArgs head.place []) hargs
    have hhash' : head.placed.call.hash = [] := congrArg (Param.placedHash head.place []) hhash
    cases body with
    | none => rfl
    | some body =>
      exact hblock
        (blockValue_told_shares he hrender h hhelper' hwhich hargs' hhash' hname hbody hinverse)

theorem renderNodes_shares (he : e.Unaltered) (hrender : render.Shares R) (h : s.Shares R other)
    {nodes : List Node} (hnodes : ∀ n ∈ nodes, n.Plain R) :
    renderNodes e render s nodes = renderNodes e render other nodes := by
  induction nodes with
  | nil => rfl
  | cons n rest ih =>
    obtain ⟨hn, hrest⟩ := List.forall_mem_cons.1 hnodes
    rw [renderNodes, renderNodes, renderNode_shares he hrender h hn, ih hrest]

/-- Plain markup is rendered in the same way in scopes that share its names, by induction on how deep
fragments nest. -/
theorem renderFragment_shares (he : e.Unaltered) (depth : Nat) :
    (renderFragment e depth).Shares R := by
  induction depth with
  | zero => exact fun _ _ _ _ _ => rfl
  | succ depth ih =>
    intro fragment hnodes s other h
    rw [renderFragment, renderFragment, renderNodes_shares he ih h hnodes]

end

/-! ## The section of a lambda -/

/-- A section without a helper of its own whose value in a scope is a function, and the template that
the text answered by the function compiles to. -/
structure LambdaSection (e : Engine) (scope : Scope) (readable : Bindings) (head : BlockHead)
    (body : List Node) (inner : Label) (function : Callable) (markup : Template) : Prop where
  helper : head.call.helper = none
  args : head.call.args = []
  hash : head.call.hash = []
  inverted : head.inverted = false
  value : scope.get readable head.call.name = .ok (.function inner function)
  answer : ∃ u, callFunction function (Node.sources body) = .ok (.text u) ∧
    e.parse (e.delimitersOr head.delimiters.opening head.delimiters.closing) lambdaName u = .ok markup

section

variable {e : Engine} {render : Renderer} {scope : Scope} {head : BlockHead} {body : List Node}
  {inverse : Fragment} {w after : World} {helper : Helper} {inner : Label} {function : Callable}
  {markup : Template}

/-- What the lambda answers for the section is compiled with the delimiters of the section. -/
theorem LambdaSection.lambdaMarkup_eq {readable : Bindings} {label : Label}
    (h : LambdaSection e scope readable head body inner function markup) :
    lambdaMarkup e scope (some (Node.sources body)) head.delimiters (.lambda label inner function) =
      pure markup.fragment := by
  obtain ⟨u, hanswer, hparse⟩ := h.answer
  unfold lambdaMarkup lambdaAnswer
  dsimp only [Option.getD_some]
  rw [hanswer]
  show (Render.ofExcept (e.parse _ lambdaName u) >>= fun template => pure template.fragment) = _
  rw [hparse]
  rfl

/-- The markup goes to the helper `with`, in the scope that the section stands in. -/
theorem LambdaSection.treatment_eq {readable : Bindings} {label : Label}
    (h : LambdaSection e scope readable head body inner function markup) :
    treatment e scope head body (.lambda label inner function) =
      pure ⟨.enter, markup.fragment, scope⟩ := by
  unfold treatment
  rw [h.inverted, if_neg Bool.false_ne_true]
  show (lambdaMarkup e scope (some (Node.sources body)) head.delimiters
    (.lambda label inner function) >>= fun markup =>
      (pure ⟨.enter, markup, scope⟩ : Render Treatment)) = _
  rw [h.lambdaMarkup_eq]
  rfl

/-- The section of a function calls the helper `with` with the lambda, and the markup is the body. -/
theorem LambdaSection.outcome_sectionCall
    (h : LambdaSection e scope w.side.readable head body inner function markup)
    (htransformer : e.transformer = .standard)
    (henter : e.registry.lookup Builtin.enter.name = some helper) :
    (sectionCall e render scope head body).outcome w =
      some (.ok ⟨helper, .lambda w.nextLabel inner function,
        ⟨Builtin.enter.name, .block, scope, [], [], head.blockParams, 0⟩, markup.fragment⟩,
        { w with nextLabel := w.nextLabel + 1 }) := by
  have hget : (Render.get scope head.call.name).outcome w =
      some (.ok (.function inner function), w) := by
    rw [outcome_get, h.value]
  have htransform : (transform e (.function inner function)).outcome w =
      some (.ok (.lambda w.nextLabel inner function), { w with nextLabel := w.nextLabel + 1 }) := by
    unfold transform
    rw [htransformer]
    rfl
  have himplicit : implicitHelper e head .enter (.lambda w.nextLabel inner function) =
      pure (helper, Builtin.enter.name) := by
    unfold implicitHelper
    dsimp only [Value.isNull]
    rw [henter]
  unfold sectionCall
  rw [h.helper, h.args, h.hash]
  dsimp only
  rw [outcome_bind_of_ok hget, outcome_bind_of_ok htransform, h.treatment_eq, pure_bind, himplicit,
    pure_bind]
  rfl

/-- A lambda that is not the model of the scope is entered: `with` opens a child scope for it. -/
theorem Call.scopeFor_lambda (call : Call) {label : Label}
    (hfresh : ∀ known f, call.scope.here.model ≠ .lambda label known f) :
    call.scopeFor (.lambda label inner function) =
      call.scope.child (.lambda label inner function) [] := by
  have hsame : Value.same (.lambda label inner function) call.scope.here.model = false := by
    cases hmodel : call.scope.here.model with
    | lambda other known f =>
      have hne : label ≠ other := by
        rintro rfl
        exact hfresh known f hmodel
      simpa [Value.same] using hne
    | _ => rfl
  rw [Call.scopeFor, hsame]
  rfl

/-- The helper `with` renders its body in a child scope for a lambda, which is not the model that the
scope stands at. -/
theorem outcome_invoke_lambda {label : Label} {call : Call} {clauses : Clauses}
    {result : Except Failure Unit} (hbuiltin : helper.behaviour = .builtin .enter)
    (hfresh : ∀ known f, call.scope.here.model ≠ .lambda label known f)
    (h : (render clauses.body (call.scope.child (.lambda label inner function) [])).outcome
      { w with output := "" } = some (result, after)) :
    (invoke e render helper (.lambda label inner function) call clauses).outcome w =
      some ((result.map fun _ => .text after.output).mapError (Failure.fromHelper call.helper),
        { after with output := w.output }) := by
  have hfalsy : call.isFalsy (.lambda label inner function) = false := rfl
  have hact : Builtin.enter.act (.lambda label inner function) call =
      (Action.request (.render .body (call.scope.child (.lambda label inner function) []))).bind
        fun text => Action.done (.text text) := by
    unfold Builtin.act
    rw [hfalsy, if_neg Bool.false_ne_true, call.scopeFor_lambda hfresh]
    rfl
  have hanswer : invoke e render helper (.lambda label inner function) call clauses =
      elseAnswer render { call with scope := call.scope.child (.lambda label inner function) [] }
        clauses.body := by
    unfold invoke elseAnswer
    rw [Helper.act, hbuiltin]
    show Render.mapFailure _
      (Action.perform _ (Builtin.enter.act (.lambda label inner function) call)) = _
    rw [hact]
    exact congrArg (Render.mapFailure (Failure.fromHelper call.helper))
      (Action.perform_request_bind _ _ _)
  rw [hanswer, outcome_elseAnswer h]
  cases result <;> rfl

/-- A section comes to what a fragment comes to in a scope, rendered in the frame of the section with
an output of its own; a label was given out before. -/
def SectionRenders (e : Engine) (render : Renderer) (scope : Scope) (head : BlockHead)
    (body : List Node) (inverse : Fragment) (w : World) (defined : Frames) (fragment : Fragment)
    (inside : Scope) : Prop :=
  ∀ result after popped,
    (render fragment inside).outcome
      { w.withFrames defined with output := "", nextLabel := w.nextLabel + 1 } =
        some (result, after) →
    after.side.frames.pop = .ok popped →
    (renderBlock e render scope head body inverse).outcome w =
      some (result.mapError fun f => (f.fromHelper Builtin.enter.name).locate head.place,
        { after with output := w.output ++ kept result after }.withFrames popped)

section

variable {pushed defined : Frames}
  (h : LambdaSection e scope w.side.readable head body inner function markup)
  (htransformer : e.transformer = .standard)
  (henter : e.registry.lookup Builtin.enter.name = some helper)
  (hbuiltin : helper.behaviour = .builtin .enter)
  (hfresh : ∀ known f, scope.here.model ≠ .lambda w.nextLabel known f)
  (hpush : w.side.frames.push = .ok pushed)
  (hdefine : (defineInlines body).outcome (w.withFrames pushed) =
    some (.ok (), w.withFrames defined))

include h htransformer henter hbuiltin hfresh hpush hdefine

/-- The markup is rendered in a child scope for the lambda. -/
theorem sectionRenders_child : SectionRenders e render scope head body inverse w defined
    markup.fragment (scope.child (.lambda w.nextLabel inner function) []) := by
  intro result after popped hrender hpop
  have hcall : (sectionCall e render scope head body).outcome (w.withFrames defined) =
      some (.ok ⟨helper, .lambda w.nextLabel inner function,
        ⟨Builtin.enter.name, .block, scope, [], [], head.blockParams, 0⟩, markup.fragment⟩,
        { w.withFrames defined with nextLabel := w.nextLabel + 1 }) :=
    LambdaSection.outcome_sectionCall (w := w.withFrames defined) h htransformer henter
  exact outcome_of_answer hpush hdefine hcall (outcome_invoke_lambda hbuiltin hfresh hrender) hpop

/-- The markup that a lambda answers for a section is rendered in a child of the scope of the section,
for the lambda. There names read what they read in the scope of the section, data variables too, and
paths that climb reach one level less far. So markup that reads names only, and nothing that can be
called, comes to what it comes to in the scope of the section. -/
theorem lambda_section_renders {depth : Nat} :
    (∀ data, scope.LambdaReads (scope.child (.lambda w.nextLabel inner function) [])
      (.lambda w.nextLabel inner function) data) ∧
    SectionRenders e (renderFragment e depth) scope head body inverse w defined markup.fragment
      (scope.child (.lambda w.nextLabel inner function) []) ∧
    ∀ R : String → List String → Prop, e.Unaltered →
      (∀ name rest, R name rest → name ≠ "fn") →
      (∀ name rest v, R name rest →
        Scope.readLevels scope.resolvers false name rest scope.levels = .ok v → v.Passive) →
      (∀ n ∈ markup.root, n.Plain R) →
      SectionRenders e (renderFragment e depth) scope head body inverse w defined markup.fragment
        scope := by
  refine ⟨fun data => scope.child_lambdaReads data _ _ _,
    sectionRenders_child h htransformer henter hbuiltin hfresh hpush hdefine,
    fun R he hname hpassive hplain => ?_⟩
  have hshared : renderFragment e depth markup.fragment
      (scope.child (.lambda w.nextLabel inner function) []) =
        renderFragment e depth markup.fragment scope :=
    renderFragment_shares he depth _ hplain _ _ (.of_lambda scope hname hpassive)
  unfold SectionRenders
  rw [← hshared]
  exact sectionRenders_child h htransformer henter hbuiltin hfresh hpush hdefine

end

end

/-- A model with a text `y` and a function that answers markup. -/
def answeringScope (markup : String) : Scope :=
  .ofModel (.map 0 [(.text "f", .function 1 (.returns (.text markup))), (.text "y", .text "Y")])
    Resolver.standard

/-- The section of `f`. -/
def answeredHead : BlockHead :=
  { place := none, inverted := false, call := { name := "f" }, blockParams := [], label := .word,
    elsePlace := none, delimiters := .standard }

/-- What `f` answers compiles to: a reference between brackets. -/
def bracketed (reference : String) : Template :=
  let place := fun column => some ⟨lambdaName, 1, column⟩
  ⟨lambdaName, [.text (place 1) "[", .output (place 2) .plain { name := reference } .standard,
    .text (place (6 + reference.length)) "]"], place 1⟩

theorem lambda_section_renders_name :
    ∃ after, (renderBlock .standard (renderFragment .standard 3)
      (answeringScope "[\x7b\x7by\x7d\x7d]") answeredHead [.text none "x"] {}).outcome {} =
        some (.ok (), after) ∧ after.output = "[Y]" := by
  have hsection : LambdaSection .standard (answeringScope "[\x7b\x7by\x7d\x7d]") [] answeredHead
      [.text none "x"] 1 (.returns (.text "[\x7b\x7by\x7d\x7d]")) (bracketed "y") :=
    ⟨rfl, rfl, rfl, rfl, rfl, "[\x7b\x7by\x7d\x7d]", rfl, by with_unfolding_all rfl⟩
  have hunaltered : Engine.standard.Unaltered := by
    refine ⟨rfl, rfl, fun which hwhich helper hlookup => ?_⟩
    simp only [List.mem_cons, List.not_mem_nil, or_false] at hwhich
    rcases hwhich with rfl | rfl | rfl | rfl <;> cases hlookup <;> rfl
  have hplain : ∀ n ∈ (bracketed "y").root, n.Plain fun name rest => name = "y" ∧ rest = [] := by
    refine List.forall_mem_cons.2 ⟨.text _ _, List.forall_mem_cons.2 ⟨?_,
      List.forall_mem_singleton.2 (.text _ _)⟩⟩
    exact .output rfl rfl rfl ⟨"y", [], ⟨by decide, by decide, by decide, by decide⟩, rfl, rfl⟩
  have hnames (name : String) (rest : List String) (h : name = "y" ∧ rest = []) : name ≠ "fn" := by
    rw [h.1]
    decide
  have hvalues : ∀ name rest v, name = "y" ∧ rest = [] →
      Scope.readLevels Resolver.standard false name rest
        (answeringScope "[\x7b\x7by\x7d\x7d]").levels = .ok v → v.Passive := by
    rintro name rest v ⟨rfl, rfl⟩ hread
    cases hread
    exact .text _
  have hrender : SectionRenders .standard (renderFragment .standard 3)
      (answeringScope "[\x7b\x7by\x7d\x7d]") answeredHead [.text none "x"] {} {} (.stack [[], []])
      (bracketed "y").fragment (answeringScope "[\x7b\x7by\x7d\x7d]") :=
    (lambda_section_renders hsection rfl rfl rfl (fun _ _ h => Value.noConfusion h) rfl rfl).2.2 _
      hunaltered hnames hvalues hplain
  exact ⟨_, hrender (.ok ()) _ _ rfl rfl, rfl⟩

/-- Markup that reads a local name is rendered a level deeper than the section stands, where the name
is not. -/
theorem lambda_section_loses_local :
    LambdaSection .standard (answeringScope "[\x7b\x7b./y\x7d\x7d]") [] answeredHead
        [.text none "x"] 1 (.returns (.text "[\x7b\x7b./y\x7d\x7d]")) (bracketed "./y") ∧
      ((renderBlock .standard (renderFragment .standard 3)
        (answeringScope "[\x7b\x7b./y\x7d\x7d]") answeredHead [.text none "x"] {}).outcome {}).map
          (·.2.output) = some "[]" ∧
      ((renderFragment .standard 3 (bracketed "./y").fragment
        (answeringScope "[\x7b\x7b./y\x7d\x7d]")).outcome {}).map (·.2.output) = some "[Y]" := by
  refine ⟨⟨rfl, rfl, rfl, rfl, rfl, "[\x7b\x7b./y\x7d\x7d]", rfl, by with_unfolding_all rfl⟩, ?_⟩
  decide +kernel

end Stencil
