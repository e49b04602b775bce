import Stencil.Proofs.Helper.Serving
import Stencil.Proofs.Render.Determined

/-!
# Renders mirror one another

The evaluator followed on both sides at once, from the requests of helpers up to whole fragments.
Where a helper that always fails stands on the first side, that side never succeeds, so nothing is
asked of the other.

What stands for a partial that is no inline partial is left open, so a render can also be compared
with one that finds inline partials only.
-/

namespace Stencil

open Render

/-- The helper that rendering itself looks up under the name of a built-in. -/
def Engine.namedHelper (e : Engine) (which : Builtin) : Render (Helper × String) :=
  match e.registry.lookup which.name with
  | some helper => pure (helper, which.name)
  | none => throw (.atRender (.helperNotFound which.name))

namespace Mirroring

/-- What two engines do keeps to a mirroring: they treat values in the same way, and the names that
rendering itself looks up are bound alike. Source is compiled by a lambda only. -/
structure Lawful (M : Mirroring) (e e' : Engine) : Prop extends M.Closed where
  value_transform : ∀ {v : Value} label, M.value v → M.value (e.transformer.apply label v)
  transformer : e'.transformer = e.transformer
  escaping : e'.escaping = e.escaping
  delimiters : e'.delimiters = e.delimiters
  registry : ∀ name ∈ Regime.sectionNames,
    M.Pairs (e.registry.lookup name) (e'.registry.lookup name)
  lambda : ∀ {v : Value}, M.value v → v.isLambda = true → ∀ marks name text,
    Agree Eq (Template.Alike M.resemblance) (e.parse marks name text) (e'.parse marks name text)

variable {M : Mirroring} {e e' : Engine}

theorem Lawful.null (L : M.Lawful e e') : M.value .null := L.value_literal .null

theorem Lawful.missing (L : M.Lawful e e') : M.Pairs e.missing? e'.missing? :=
  L.registry _ (by decide)

/-- A computation that is the same on both sides. -/
theorem Shared.agree {ε α : Type} {F : ε → Prop} {P : α → Prop} {x : Except ε α}
    (h : Meets F P x) : Agree Eq (Shared P) x x := by
  cases h with
  | ok h => exact .ok ⟨rfl, h⟩
  | error h => exact .error rfl

/-! ### Steps of the world -/

theorem Worlds.setData (L : M.Lawful e e') {w w' : World} (h : M.Worlds w w') (name : String)
    {v : Value} (hv : M.value v) :
    M.Worlds { w with side := w.side.set name v } { w' with side := w'.side.set name v } := by
  cases h with
  | beside hdata hframes hcache =>
    unfold SideChannel.set
    split
    · exact .beside hdata (Frames.ofValue_alike L.value_inner hv) hcache
    · exact .beside (hdata.set hv) hframes hcache

theorem mirrors_display (v : Value) : M.Mirrors (Render.display v) (Render.display v) Eq := by
  unfold Render.display
  refine (Mirrors.read (V := Eq) fun w w' hw => by cases hw; rfl).bind ?_
  rintro drawn _ rfl
  refine (Mirrors.ofFault (V := Eq) (.refl (fun _ => rfl) (fun _ => rfl) _)).bind ?_
  rintro ⟨text, drawn'⟩ _ rfl
  refine (Mirrors.update fun w w' hw => ?_).bind fun _ _ _ => .pure rfl
  cases hw with
  | beside hdata hframes hcache => exact .beside hdata hframes hcache

section

variable (L : M.Lawful e e')

include L

theorem mirrors_get {scope : Scope} (hscope : scope.All M.value) (reference : String) :
    M.Mirrors (Render.get scope reference) (Render.get scope reference) (Shared M.value) := by
  unfold Render.get
  refine (Mirrors.read (V := Shared (Bindings.All M.value)) fun w w' hw => ?_).bind ?_
  · cases hw with
    | beside hdata _ _ => exact ⟨rfl, hdata.filter _⟩
  · rintro data _ ⟨rfl, hdata⟩
    exact .ofExcept (Shared.agree (Scope.get_meets L.value_member L.null hscope hdata reference))

theorem mirrors_items {v : Value} (hv : M.value v) :
    M.Mirrors (Render.items v) (Render.items v) (Shared fun items => ∀ u ∈ items, M.value u) := by
  have hnone : Shared (fun items => ∀ u ∈ items, M.value u) [] [] := ⟨rfl, List.forall_mem_nil _⟩
  cases v with
  | list label items | tuple label items => exact .pure ⟨rfl, L.value_inner hv⟩
  | iterator label items =>
    refine (Mirrors.read (V := Eq) fun w w' hw => by cases hw; rfl).bind ?_
    rintro drawn _ rfl
    refine .ite (fun _ => .pure hnone) fun _ => ?_
    refine (Mirrors.update fun w w' hw => ?_).bind fun _ _ _ => .pure ⟨rfl, L.value_inner hv⟩
    cases hw with
    | beside hdata hframes hcache => exact .beside hdata hframes hcache
  | _ => exact .pure hnone

theorem mirrors_transform {v : Value} (hv : M.value v) :
    M.Mirrors (transform e v) (transform e' v) (Shared M.value) := by
  unfold transform
  refine Mirrors.freshLabel.bind ?_
  rintro label _ rfl
  rw [L.transformer]
  exact .pure ⟨rfl, L.value_transform label hv⟩

omit L in
/-- Trees that are alike define inline partials that are. -/
theorem mirrors_defineInlines {nodes nodes' : List Node}
    (hnodes : Node.AllAlike M.resemblance nodes nodes') :
    M.Mirrors (defineInlines nodes) (defineInlines nodes') Eq := by
  induction hnodes with
  | nil => exact .pure rfl
  | cons hn _ ih =>
    cases hn with
    | @inlinePartial _ _ name body body' _ _ _ hlength hzip _ =>
      have hbody : Node.AllAlike M.resemblance body body' :=
        List.forall₂_iff_zip.2 ⟨hlength, fun h => hzip _ _ h⟩
      exact (Mirrors.changeFrames fun g g' hg => Frames.define_agree hg name (.nodes hbody)).bind
        fun _ _ _ => ih
    | _ => exact ih

/-! ### Calls of helpers -/

/-- Renderers that do the same with fragments that are alike. -/
def RendersAlike (M : Mirroring) (render render' : Renderer) : Prop :=
  ∀ fragment fragment' scope, fragment.Alike M.resemblance fragment' → scope.All M.value →
    M.Mirrors (render fragment scope) (render' fragment' scope) Eq

/-- Clauses that are alike. -/
structure ClausesAlike (M : Mirroring) (clauses clauses' : Clauses) : Prop where
  body : clauses.body.Alike M.resemblance clauses'.body
  inverse : clauses.inverse.Alike M.resemblance clauses'.inverse
  hasSink : clauses.hasSink = clauses'.hasSink

omit L in
theorem ClausesAlike.none (M : Mirroring) (hasSink : Bool) :
    M.ClausesAlike { hasSink } { hasSink } :=
  ⟨⟨fun _ => rfl, .nil⟩, ⟨fun _ => rfl, .nil⟩, rfl⟩

omit L in
theorem fragment_source_eq {fragment fragment' : Fragment}
    (h : fragment.Alike M.resemblance fragment') : fragment.source = fragment'.source :=
  h.nodes.sources_eq trivial

variable {render render' : Renderer} (hrender : M.RendersAlike render render')

include hrender

/-- Every request that is admitted is answered alike. -/
theorem mirrors_answer {call : Call} (hcall : M.Tells call) {clauses clauses' : Clauses}
    (hclauses : M.ClausesAlike clauses clauses') {q : Request} (hq : M.Admits q) :
    M.Mirrors (answer e render call clauses q) (answer e' render' call clauses' q)
      (Shared (M.Answers q)) := by
  cases q with
  | render what scope =>
    have hcaptured {fragment fragment' : Fragment} (hfragment : fragment.Alike _ fragment')
        (hscope : scope.All M.value) :=
      (hrender fragment fragment' scope hfragment hscope).captured
    cases what with
    | body => exact (hcaptured hclauses.body hq).mono fun _ _ h => ⟨h, trivial⟩
    | inverse => exact (hcaptured hclauses.inverse hq).mono fun _ _ h => ⟨h, trivial⟩
    | source name text => exact hq.elim
  | source what =>
    refine .pure ⟨?_, trivial⟩
    cases what with
    | body => exact fragment_source_eq hclauses.body
    | inverse => exact fragment_source_eq hclauses.inverse
    | source name text => rfl
  | hasSink => exact .pure ⟨hclauses.hasSink, trivial⟩
  | write text =>
    unfold answer
    rw [hclauses.hasSink]
    exact .ite (fun _ => (Mirrors.emit text).mono fun _ _ h => ⟨h, trivial⟩) fun _ => .throw _
  | get reference => exact mirrors_get L hcall.scope reference
  | data name =>
    refine .read fun w w' hw => ?_
    cases hw with
    | beside hdata hframes _ =>
      unfold SideChannel.get?
      split
      · exact ⟨congrArg some hframes.toValue, fun v hv => Option.some.inj hv ▸ L.value_frames hframes⟩
      · exact ⟨rfl, fun v hv => hdata.lookup hv⟩
  | setData name v =>
    exact (Mirrors.update fun _ _ hw => hw.setData L name hq).mono fun _ _ h => ⟨h, trivial⟩
  | display v => exact (mirrors_display v).mono fun _ _ h => ⟨h, trivial⟩
  | items v => exact mirrors_items L hq
  | label => exact Mirrors.freshLabel.mono fun _ _ h => ⟨h, trivial⟩
  | frames =>
    refine .read fun w w' hw => ?_
    cases hw with
    | beside _ hframes _ => exact ⟨hframes.names, trivial⟩
  | log level message =>
    refine (Mirrors.update fun w w' hw => ?_).mono fun _ _ h => ⟨h, trivial⟩
    cases hw with
    | beside hdata hframes hcache =>
      split
      · exact .beside hdata hframes hcache
      · exact .beside hdata hframes hcache
  | note entry =>
    refine (Mirrors.update fun w w' hw => ?_).mono fun _ _ h => ⟨h, trivial⟩
    cases hw with
    | beside hdata hframes hcache => exact .beside hdata hframes hcache

/-- An action that obeys is performed alike, by induction on its requests. Where failures do not
count, a request that fails is the end of it. -/
theorem mirrors_perform {call : Call} (hcall : M.Tells call) {clauses clauses' : Clauses}
    (hclauses : M.ClausesAlike clauses clauses') {α : Type} {V : α → Prop} {action : Action α}
    (haction : M.Obeys V action) (hforwards : ¬M.failures → action.Forwards) :
    M.Mirrors (action.perform (answer e render call clauses))
      (action.perform (answer e' render' call clauses')) (Shared V) := by
  induction action with
  | done a => exact .pure ⟨rfl, haction⟩
  | fail failure => exact .throw failure
  | ask q next ih =>
    intro w w' r after hw hr hcounts
    have hstart : (Render.observe (answer e render call clauses q) >>= fun reply =>
      (next reply).perform (answer e render call clauses)).outcome w = some (r, after) := hr
    rw [outcome_observe_bind] at hstart
    obtain ⟨⟨reply, between⟩, hreply, hrest⟩ := Option.bind_eq_some_iff.1 hstart
    have hcounts₁ : M.Counts reply := by
      cases reply with
      | ok a => exact .inr ⟨a, rfl⟩
      | error f =>
        refine .inl (Classical.byContradiction fun hcount => ?_)
        obtain ⟨a, rfl⟩ := hcounts.resolve_left hcount
        dsimp only at hrest
        rw [(hforwards hcount).1 f] at hrest
        cases hrest
    obtain ⟨reply', between', hreply', hagree, hbetween⟩ :=
      mirrors_answer L hrender hcall hclauses haction.1 w w' reply between hw hreply hcounts₁
    have hsame : reply' = reply ∧ Meets (fun _ => True) (M.Answers q) reply := by
      cases hagree with
      | ok h =>
        obtain ⟨rfl, h⟩ := h
        exact ⟨rfl, .ok h⟩
      | error h =>
        subst h
        exact ⟨rfl, .error trivial⟩
    obtain ⟨rfl, hmeets⟩ := hsame
    have hnext : ¬M.failures → (next reply').Forwards := fun hcount => by
      obtain ⟨a, rfl⟩ := hcounts₁.resolve_left hcount
      exact (hforwards hcount).2 a
    obtain ⟨r', after', hr', hagree', hafter⟩ :=
      ih reply' (haction.2 reply' hmeets) hnext between between' r after hbetween hrest hcounts
    refine ⟨r', after', ?_, hagree', hafter⟩
    show (Render.observe (answer e' render' call clauses' q) >>= _).outcome w' = _
    rw [outcome_observe_bind, hreply']
    exact hr'

theorem mirrors_invoke {helper : Helper} (hhelper : M.Serves helper) {subject : Value}
    (hsubject : M.value subject) {call : Call} (hcall : M.Tells call) {clauses clauses' : Clauses}
    (hclauses : M.ClausesAlike clauses clauses') :
    M.Mirrors (invoke e render helper subject call clauses)
      (invoke e' render' helper subject call clauses')
      (Shared fun v => call.tag = .call → M.value v) := by
  obtain ⟨hobeys, hforwards⟩ := hhelper subject call hsubject hcall
  exact (mirrors_perform L hrender hcall hclauses hobeys hforwards).mapFailure _

end

/-- A call of a helper that refuses never succeeds. -/
theorem neverOk_invoke {helper : Helper} (h : helper.Refuses) (render : Renderer) (subject : Value)
    (call : Call) (clauses : Clauses) : (invoke e render helper subject call clauses).NeverOk := by
  obtain ⟨f, hf⟩ := h subject call
  unfold invoke
  rw [hf]
  exact (NeverOk.throw f).mapFailure _

/-! ### Arguments -/

theorem mirrors_arguments {render render' : Renderer} {scope : Scope} {args args' : List Param}
    (hargs : List.Forall₂ (fun p p' => M.Mirrors (argument e render scope p)
      (argument e' render' scope p') (Shared M.value)) args args') :
    M.Mirrors (arguments e render scope args) (arguments e' render' scope args')
      (Shared fun vs => ∀ v ∈ vs, M.value v) := by
  induction hargs with
  | nil =>
    rw [arguments, arguments]
    exact .pure ⟨rfl, List.forall_mem_nil _⟩
  | cons hp _ ih =>
    rw [arguments, arguments]
    refine hp.bind ?_
    rintro v _ ⟨rfl, hv⟩
    refine ih.bind ?_
    rintro vs _ ⟨rfl, hvs⟩
    exact .pure ⟨rfl, List.forall_mem_cons.2 ⟨hv, hvs⟩⟩

theorem mirrors_namedArguments {render render' : Renderer} {scope : Scope} {hash hash' : HashParams}
    (hhash : List.Forall₂ (fun x y => x.1 = y.1 ∧ M.Mirrors (argument e render scope x.2)
      (argument e' render' scope y.2) (Shared M.value)) hash hash') :
    M.Mirrors (namedArguments e render scope hash) (namedArguments e' render' scope hash')
      (Shared fun named => ∀ pair ∈ named, M.value pair.2) := by
  induction hhash with
  | nil =>
    rw [namedArguments, namedArguments]
    exact .pure ⟨rfl, List.forall_mem_nil _⟩
  | @cons x y _ _ hx _ ih =>
    obtain ⟨key, p⟩ := x
    obtain ⟨key', q⟩ := y
    obtain ⟨hkey, hp⟩ := hx
    cases (hkey : key = key')
    rw [namedArguments, namedArguments]
    refine hp.bind ?_
    rintro v _ ⟨rfl, hv⟩
    refine ih.bind ?_
    rintro named _ ⟨rfl, hnamed⟩
    exact .pure ⟨rfl, List.forall_mem_cons.2 ⟨hv, hnamed⟩⟩

section

variable (L : M.Lawful e e')

include L

/-- The helper of a call and what is done with it. -/
theorem mirrors_helperFor {α β : Type} {V : α → β → Prop} {name : String}
    {bound bound' : Option Helper} (hbound : M.Pairs bound bound') {k : Helper → Render α}
    {k' : Helper → Render β} (hserve : ∀ helper, M.Serves helper → M.Mirrors (k helper) (k' helper) V)
    (hrefuse : ∀ helper : Helper, helper.Refuses → (k helper).NeverOk) :
    M.Mirrors (e.helperFor name bound >>= k) (e'.helperFor name bound' >>= k') V := by
  -- A helper that is found is that of the continuation.
  have hpure {helper : Helper} {m' : Render β} (hm : M.Mirrors (k helper) m' V) :
      M.Mirrors ((Pure.pure helper : Render Helper) >>= k) m' V := by
    rw [pure_bind]
    exact hm
  cases hbound with
  | @serving helper h =>
    refine Mirrors.bind (V := Shared M.Serves) (.pure ⟨rfl, h⟩) ?_
    rintro helper _ ⟨rfl, h⟩
    exact hserve helper h
  | refusing hcount h => exact hpure (.never hcount (hrefuse _ h))
  | nothing =>
    unfold Engine.helperFor
    dsimp only
    have hmissing := L.missing
    generalize e.missing? = found at hmissing ⊢
    generalize e'.missing? = found' at hmissing ⊢
    cases hmissing with
    | nothing => exact Mirrors.bind (V := fun _ _ => False) (.throw _) fun _ _ h => h.elim
    | serving h =>
      refine Mirrors.bind (V := Shared M.Serves) (.pure ⟨rfl, h⟩) ?_
      rintro helper _ ⟨rfl, h⟩
      exact hserve helper h
    | refusing hcount h => exact hpure (.never hcount (hrefuse _ h))

variable {render render' : Renderer} (hrender : M.RendersAlike render render')

include hrender

/-- Arguments that are alike evaluate alike, by induction on the calls in them. -/
theorem mirrors_argument {scope : Scope} (hscope : scope.All M.value) (p : Param) {p' : Param}
    (hp : p.Alike M.resemblance p') :
    M.Mirrors (argument e render scope p) (argument e' render' scope p') (Shared M.value) := by
  induction p using Param.induct generalizing p' with
  | literal raw value =>
    cases hp
    rw [argument, argument]
    exact .pure ⟨rfl, L.value_literal value⟩
  | reference raw =>
    cases hp
    rw [argument, argument]
    exact mirrors_get L hscope raw
  | call place name args hash bound ihargs ihhash =>
    cases p' with
    | literal | reference => cases hp
    | call place' name' args' hash' bound' =>
      obtain ⟨rfl, -, hbound, hargs, hhash⟩ := hp.call_inv
      have hlength := hargs.length_eq
      obtain ⟨hargsLength, hargsZip⟩ := List.forall₂_iff_zip.1 hargs
      obtain ⟨hhashLength, hhashZip⟩ := List.forall₂_iff_zip.1 hhash
      have hvalues : List.Forall₂ (fun p p' => M.Mirrors (argument e render scope p)
          (argument e' render' scope p') (Shared M.value)) args args' :=
        List.forall₂_iff_zip.2
          ⟨hargsLength, fun h => ihargs _ (List.of_mem_zip h).1 (hargsZip h)⟩
      have hnamed : List.Forall₂ (fun x y => x.1 = y.1 ∧ M.Mirrors (argument e render scope x.2)
          (argument e' render' scope y.2) (Shared M.value)) hash hash' :=
        List.forall₂_iff_zip.2
          ⟨hhashLength, fun h => ⟨(hhashZip h).1, ihhash _ (List.of_mem_zip h).1 (hhashZip h).2⟩⟩
      rw [argument, argument]
      refine mirrors_helperFor L hbound (fun helper hhelper => ?_) fun helper hrefuses => ?_
      · have hcalled {subject : Value} {params : List Value} (hsubject : M.value subject)
            (hparams : ∀ v ∈ params, M.value v) (arity : Nat) :
            M.Mirrors
              (do
                let named ← namedArguments e render scope hash
                invoke e render helper subject
                  { helper := name, tag := .call, scope, params, hash := Bindings.ofPairs named,
                    blockParams := [], arity }
                  { hasSink := false })
              (do
                let named ← namedArguments e' render' scope hash'
                invoke e' render' helper subject
                  { helper := name, tag := .call, scope, params, hash := Bindings.ofPairs named,
                    blockParams := [], arity }
                  { hasSink := false }) (Shared M.value) := by
          refine (mirrors_namedArguments hnamed).bind ?_
          rintro named _ ⟨rfl, hnamed⟩
          refine (mirrors_invoke L hrender hhelper hsubject
            ⟨hscope, hparams, Bindings.All.ofPairs hnamed⟩ (.none M false)).mono ?_
          exact fun _ _ h => ⟨h.1, h.2 rfl⟩
        cases hvalues with
        | nil =>
          refine (mirrors_transform L hscope.model).bind ?_
          rintro subject _ ⟨rfl, hsubject⟩
          exact hcalled hsubject (List.forall_mem_nil _) _
        | cons hfirst hrest =>
          rw [hlength]
          refine hfirst.bind ?_
          rintro v _ ⟨rfl, hv⟩
          refine (mirrors_transform L hv).bind ?_
          rintro subject _ ⟨rfl, hsubject⟩
          refine (mirrors_arguments hrest).bind ?_
          rintro params _ ⟨rfl, hparams⟩
          exact hcalled hsubject hparams _
      · have hcalled (subject : Value) (params : List Value) : NeverOk (do
            let named ← namedArguments e render scope hash
            invoke e render helper subject
              { helper := name, tag := .call, scope, params, hash := Bindings.ofPairs named,
                blockParams := [], arity := args.length }
              { hasSink := false }) := .bind fun _ => neverOk_invoke hrefuses _ _ _ _
        cases args with
        | nil => exact .bind fun _ => hcalled _ _
        | cons first rest => exact .bind fun _ => .bind fun _ => .bind fun _ => hcalled _ _

/-! ### Tags -/

variable {scope : Scope} (hscope : scope.All M.value)

include hscope

theorem mirrors_subjectOf {args args' : List Param} (hargs : Param.AllAlike M.resemblance args args') :
    M.Mirrors (subjectOf e render scope args) (subjectOf e' render' scope args')
      (Shared M.value) := by
  cases hargs with
  | nil => exact .pure ⟨rfl, hscope.model⟩
  | cons hfirst _ => exact mirrors_argument L hrender hscope _ hfirst

theorem mirrors_callOf (name : String) (tag : TagKind) (blockParams : List String)
    {args args' : List Param} (hargs : Param.AllAlike M.resemblance args args')
    {hash hash' : HashParams} (hhash : Param.HashAlike M.resemblance hash hash') :
    M.Mirrors (callOf e render name tag scope args hash blockParams)
      (callOf e' render' name tag scope args' hash' blockParams) (Shared M.Tells) := by
  have hvalues : List.Forall₂ (fun p p' => M.Mirrors (argument e render scope p)
      (argument e' render' scope p') (Shared M.value)) (args.drop 1) (args'.drop 1) :=
    (List.forall₂_drop 1 hargs).imp fun p _ h => mirrors_argument L hrender hscope p h
  unfold callOf
  rw [hargs.length_eq]
  refine (mirrors_arguments hvalues).bind ?_
  rintro params _ ⟨rfl, hparams⟩
  refine (mirrors_namedArguments (hhash.imp fun x _ h =>
    ⟨h.1, mirrors_argument L hrender hscope x.2 h.2⟩)).bind ?_
  rintro named _ ⟨rfl, hnamed⟩
  exact .pure ⟨rfl, hscope, hparams, Bindings.All.ofPairs hnamed⟩

/-- A helper called with what its tag tells it. -/
theorem mirrors_called (name : String) (tag : TagKind) (blockParams : List String)
    {args args' : List Param} (hargs : Param.AllAlike M.resemblance args args')
    {hash hash' : HashParams} (hhash : Param.HashAlike M.resemblance hash hash') {helper : Helper}
    (hhelper : M.Serves helper) {subject : Value} (hsubject : M.value subject)
    {clauses clauses' : Clauses} (hclauses : M.ClausesAlike clauses clauses') :
    M.Mirrors
      (callOf e render name tag scope args hash blockParams >>= fun told =>
        invoke e render helper subject told clauses)
      (callOf e' render' name tag scope args' hash' blockParams >>= fun told =>
        invoke e' render' helper subject told clauses') Eq := by
  refine (mirrors_callOf L hrender hscope name tag blockParams hargs hhash).bind ?_
  rintro told _ ⟨rfl, htold⟩
  exact (mirrors_invoke L hrender hhelper hsubject htold hclauses).mono fun _ _ h => h.1

/-! ### Lambdas -/

omit hrender in
/-- A text that a lambda answers is compiled alike on both sides. -/
theorem mirrors_lambdaMarkup (section_ : Option String) (marks : Delimiters) {v : Value}
    (hv : M.value v) (hlambda : v.isLambda = true) :
    M.Mirrors (lambdaMarkup e scope section_ marks v) (lambdaMarkup e' scope section_ marks v)
      (Fragment.Alike M.resemblance) := by
  have hanswer : M.Mirrors (lambdaAnswer scope section_ v) (lambdaAnswer scope section_ v) Eq := by
    unfold lambdaAnswer
    split
    · exact .ofExcept (.refl (fun _ => rfl) (fun _ => rfl) _)
    · exact (mirrors_get L hscope _).mono fun _ _ h => h.1
    · exact .pure rfl
  have hshown (u : Value) :
      M.Mirrors (do pure ⟨none, [.text none (← Render.display u)]⟩)
        (do pure ⟨none, [.text none (← Render.display u)]⟩) (Fragment.Alike M.resemblance) := by
    refine (mirrors_display u).bind ?_
    rintro text _ rfl
    exact .pure ⟨fun _ => rfl, .cons (.text fun _ => rfl) .nil⟩
  unfold lambdaMarkup
  refine hanswer.bind ?_
  rintro found _ rfl
  cases found with
  | text source =>
    have hmarks : e'.delimitersOr marks.opening marks.closing =
        e.delimitersOr marks.opening marks.closing := by
      unfold Engine.delimitersOr
      rw [L.delimiters]
    dsimp only
    rw [hmarks]
    refine (Mirrors.ofExcept (L.lambda hv hlambda _ _ _)).bind fun t t' ht => .pure ?_
    exact ⟨ht.place, ht.root⟩
  | _ => exact hshown _

/-! ### Output tags -/

theorem mirrors_outputValue {style : OutputStyle} {call call' : Invocation}
    (hcall : call.Alike M.resemblance call') (marks : Delimiters) :
    M.Mirrors (outputValue e render scope style call marks)
      (outputValue e' render' scope style call' marks) Eq := by
  obtain ⟨name, args, hash, helper⟩ := call
  obtain ⟨name', args', hash', helper'⟩ := call'
  obtain ⟨hname, hargs, hhash, hhelper⟩ := hcall
  dsimp only at hname hargs hhash hhelper
  subst hname
  have hcalled {helper : Helper} {subject : Value} (hhelper : M.Serves helper)
      (hsubject : M.value subject) :=
    mirrors_called L hrender hscope name style.tag [] hargs hhash hhelper hsubject (.none M true)
  have hargsEmpty : args'.isEmpty = args.isEmpty := by cases hargs <;> rfl
  have hhashEmpty : hash'.isEmpty = hash.isEmpty := by cases hhash <;> rfl
  unfold outputValue
  dsimp only
  cases hhelper with
  | serving h =>
    refine (mirrors_subjectOf L hrender hscope hargs).bind ?_
    rintro v _ ⟨rfl, hv⟩
    refine (mirrors_transform L hv).bind ?_
    rintro subject _ ⟨rfl, hsubject⟩
    exact hcalled h hsubject
  | refusing hcount h =>
    exact .never hcount (.bind fun _ => .bind fun _ => .bind fun _ => neverOk_invoke h _ _ _ _)
  | nothing =>
    dsimp only
    rw [hargsEmpty, hhashEmpty]
    have hmissing := L.missing
    generalize e.missing? = found at hmissing ⊢
    generalize e'.missing? = found' at hmissing ⊢
    refine .ite (fun _ => ?_) fun _ => ?_
    · cases hmissing with
      | nothing => exact .throw _
      | serving h => exact hcalled h L.null
      | refusing hcount h => exact .never hcount (.bind fun _ => neverOk_invoke h _ _ _ _)
    · refine (mirrors_get L hscope name).bind ?_
      rintro v _ ⟨rfl, hv⟩
      refine (mirrors_transform L hv).bind ?_
      rintro value _ ⟨rfl, hvalue⟩
      refine .ite (fun _ => ?_) fun _ => .ite (fun hlambda => ?_) fun _ => .pure rfl
      · cases hmissing with
        | nothing => exact .pure rfl
        | serving h => exact hcalled h L.null
        | refusing hcount h => exact .never hcount (.bind fun _ => neverOk_invoke h _ _ _ _)
      · refine (mirrors_lambdaMarkup L hscope none marks hvalue hlambda).bind ?_
        intro markup markup' hmarkup
        refine ((hrender markup markup' scope hmarkup hscope).captured).bind ?_
        rintro text _ rfl
        exact .pure rfl

theorem mirrors_renderOutput {style : OutputStyle} {call call' : Invocation}
    (hcall : call.Alike M.resemblance call') (marks : Delimiters) :
    M.Mirrors (renderOutput e render scope style call marks)
      (renderOutput e' render' scope style call' marks) Eq := by
  unfold renderOutput
  refine (mirrors_outputValue L hrender hscope hcall marks).bind ?_
  rintro v _ rfl
  refine .ite (fun _ => .pure rfl) fun _ => ?_
  rw [Regime.outputText_eq, Regime.outputText_eq, L.escaping, bind_assoc]
  refine (mirrors_display v).bind ?_
  rintro text _ rfl
  exact .emit _

/-! ### Sections -/

/-- What sections without helpers of their own do with their values. -/
structure TreatedAlike (M : Mirroring) (treated treated' : Treatment) : Prop where
  helper : treated.helper = treated'.helper
  known : treated.helper.name ∈ Regime.sectionNames
  body : treated.body.Alike M.resemblance treated'.body
  scope : treated.scope = treated'.scope
  values : treated.scope.All M.value

omit hrender in
theorem mirrors_treatment {head head' : BlockHead} (hhead : head.Alike M.resemblance head')
    {body body' : List Node} (hbody : Node.AllAlike M.resemblance body body') {v : Value}
    (hv : M.value v) :
    M.Mirrors (treatment e scope head body v) (treatment e' scope head' body' v)
      M.TreatedAlike := by
  have hfragment : Fragment.Alike M.resemblance ⟨none, body⟩ ⟨none, body'⟩ := ⟨fun _ => rfl, hbody⟩
  unfold treatment
  rw [← hhead.inverted, ← hhead.delimiters trivial, ← hbody.sources_eq trivial]
  have hnegate : Builtin.negate.name ∈ Regime.sectionNames := by decide
  have heach : Builtin.each.name ∈ Regime.sectionNames := by decide
  have hbranch : Builtin.branch.name ∈ Regime.sectionNames := by decide
  have henter : Builtin.enter.name ∈ Regime.sectionNames := by decide
  refine .ite (fun _ => .pure ⟨rfl, hnegate, hfragment, rfl, hscope⟩) fun _ => ?_
  refine .ite (fun _ => .pure ⟨rfl, heach, hfragment, rfl, hscope⟩) fun _ => ?_
  split
  · exact .pure ⟨rfl, hbranch, hfragment, rfl, hscope⟩
  · refine .ite (fun hlambda => ?_) fun _ => ?_
    · refine (mirrors_lambdaMarkup L hscope _ head.delimiters hv hlambda).bind ?_
      exact fun markup markup' hmarkup => .pure ⟨rfl, henter, hmarkup, rfl, hscope⟩
    · exact .pure ⟨rfl, henter, hfragment, rfl, hscope.child hv Bindings.All.nil⟩

omit hrender hscope in
/-- The helper that takes the value of a section, and what is done with it. -/
theorem mirrors_implicitHelper {α β : Type} {V : α → β → Prop} {head head' : BlockHead}
    (hname : head.call.name = head'.call.name) {which : Builtin}
    (hwhich : which.name ∈ Regime.sectionNames) (v : Value) {k : Helper × String → Render α}
    {k' : Helper × String → Render β}
    (hserve : ∀ helper name, M.Serves helper → M.Mirrors (k (helper, name)) (k' (helper, name)) V)
    (hrefuse : ∀ (helper : Helper) name, helper.Refuses → (k (helper, name)).NeverOk) :
    M.Mirrors (implicitHelper e head which v >>= k) (implicitHelper e' head' which v >>= k') V := by
  have hserving {helper : Helper} (name : String) (h : M.Serves helper) :
      M.Mirrors ((Pure.pure (helper, name) : Render (Helper × String)) >>= k)
        ((Pure.pure (helper, name) : Render (Helper × String)) >>= k') V := by
    rw [pure_bind, pure_bind]
    exact hserve helper name h
  have hrefusing {helper : Helper} (name : String) {m' : Render β} (hcount : ¬M.failures)
      (h : helper.Refuses) :
      M.Mirrors ((Pure.pure (helper, name) : Render (Helper × String)) >>= k) m' V := by
    rw [pure_bind]
    exact .never hcount (hrefuse helper name h)
  have hmissing := L.missing
  have hnamed := L.registry _ hwhich
  unfold implicitHelper
  rw [← hname]
  generalize e.missing? = found at hmissing ⊢
  generalize e'.missing? = found' at hmissing ⊢
  have hlooked : M.Mirrors (e.namedHelper which >>= k) (e'.namedHelper which >>= k') V := by
    unfold Engine.namedHelper
    generalize e.registry.lookup which.name = other at hnamed ⊢
    generalize e'.registry.lookup which.name = other' at hnamed ⊢
    cases hnamed with
    | nothing => exact Mirrors.bind (V := fun _ _ => False) (.throw _) fun _ _ h => h.elim
    | serving h => exact hserving which.name h
    | refusing hcount h => exact hrefusing which.name hcount h
  cases v.isNull with
  | false => exact hlooked
  | true =>
    cases hmissing with
    | nothing => exact hlooked
    | serving h => exact hserving head.call.name h
    | refusing hcount h => exact hrefusing head.call.name hcount h

theorem mirrors_blockValue {head head' : BlockHead} (hhead : head.Alike M.resemblance head')
    {body body' : List Node} (hbody : Node.AllAlike M.resemblance body body')
    {inverse inverse' : Fragment} (hinverse : inverse.Alike M.resemblance inverse') :
    M.Mirrors (blockValue e render scope head body inverse)
      (blockValue e' render' scope head' body' inverse') Eq := by
  obtain ⟨hname, hargs, hhash, hhelper⟩ := hhead.call
  have hclauses {fragment fragment' : Fragment} (hfragment : fragment.Alike _ fragment') :
      M.ClausesAlike ⟨fragment, inverse, true⟩ ⟨fragment', inverse', true⟩ :=
    ⟨hfragment, hinverse, rfl⟩
  unfold blockValue
  rw [← hname, ← hhead.blockParams]
  generalize head.call.helper = helper at hhelper ⊢
  generalize head'.call.helper = helper' at hhelper ⊢
  cases hhelper with
  | serving h =>
    refine (mirrors_subjectOf L hrender hscope hargs).bind ?_
    rintro v _ ⟨rfl, hv⟩
    refine (mirrors_transform L hv).bind ?_
    rintro subject _ ⟨rfl, hsubject⟩
    exact mirrors_called L hrender hscope _ _ _ hargs hhash h hsubject
      (hclauses ⟨fun _ => rfl, hbody⟩)
  | refusing hcount h =>
    exact .never hcount (.bind fun _ => .bind fun _ => .bind fun _ => neverOk_invoke h _ _ _ _)
  | nothing =>
    refine (mirrors_get L hscope _).bind ?_
    rintro v _ ⟨rfl, hv⟩
    refine (mirrors_transform L hv).bind ?_
    rintro subject _ ⟨rfl, hsubject⟩
    refine (mirrors_treatment L hscope hhead hbody hsubject).bind ?_
    rintro ⟨which, fragment, inner⟩ ⟨which', fragment', inner'⟩
      ⟨hwhich, hknown, hfragment, hinner, hvalues⟩
    cases (hwhich : which = which')
    cases (hinner : inner = inner')
    refine mirrors_implicitHelper L hname hknown subject (fun helper name h => ?_)
      fun helper name h => .bind fun _ => neverOk_invoke h _ _ _ _
    exact mirrors_called L hrender hvalues _ _ _ hargs hhash h hsubject (hclauses hfragment)

theorem mirrors_renderBlock {head head' : BlockHead} (hhead : head.Alike M.resemblance head')
    {body body' : List Node} (hbody : Node.AllAlike M.resemblance body body')
    {inverse inverse' : Fragment} (hinverse : inverse.Alike M.resemblance inverse') :
    M.Mirrors (renderBlock e render scope head body inverse)
      (renderBlock e' render' scope head' body' inverse') Eq := by
  unfold renderBlock
  rw [← hhead.place trivial]
  refine .inFrame ((mirrors_defineInlines hbody).bind fun _ _ _ => .located _ ?_)
  refine (mirrors_blockValue L hrender hscope hhead hbody hinverse).bind ?_
  rintro v _ rfl
  refine .ite (fun _ => .pure rfl) fun _ => (mirrors_display v).bind ?_
  rintro text _ rfl
  exact .emit text

/-! ### Partials and nodes -/

theorem mirrors_partialScope {args args' : List Param}
    (hargs : Param.AllAlike M.resemblance args args') {hash hash' : HashParams}
    (hhash : Param.HashAlike M.resemblance hash hash') :
    M.Mirrors (partialScope e render scope args hash) (partialScope e' render' scope args' hash')
      (Shared (Scope.All M.value)) := by
  have hempty : hash'.isEmpty = hash.isEmpty := by cases hhash <;> rfl
  have hnamed {inner : Scope} (hinner : inner.All M.value) :
      M.Mirrors
        (if hash.isEmpty then pure inner
          else do pure (inner.withBindings (Bindings.ofPairs (← namedArguments e render scope hash))))
        (if hash.isEmpty then pure inner
          else do
            pure (inner.withBindings (Bindings.ofPairs (← namedArguments e' render' scope hash'))))
        (Shared (Scope.All M.value)) := by
    refine .ite (fun _ => .pure ⟨rfl, hinner⟩) fun _ => ?_
    refine (mirrors_namedArguments (hhash.imp fun x _ h =>
      ⟨h.1, mirrors_argument L hrender hscope x.2 h.2⟩)).bind ?_
    rintro named _ ⟨rfl, hnamed⟩
    exact .pure ⟨rfl, hinner.withBindings (Bindings.All.ofPairs hnamed)⟩
  unfold partialScope
  rw [hempty]
  cases hargs with
  | nil => exact hnamed hscope
  | cons hfirst _ =>
    refine (mirrors_argument L hrender hscope _ hfirst).bind ?_
    rintro model _ ⟨rfl, hmodel⟩
    exact hnamed (hscope.child hmodel Bindings.All.nil)

end

end Mirroring

/-! ### Nodes

A renderer for every way in which partials are compiled; the evaluator's own is one of them. -/

section

variable (compile : String → Render Fragment)

/-- A partial: the visible inline partial of the name, or else what is compiled. -/
def partialBy (name : String) : Render Fragment := do
  let visible ← Render.ofFault (← Render.read (·.side.frames)).visible
  partialFound (compile name) (visible.lookup name)

/-- A node, with partials compiled in this way. -/
def renderNodeBy (e : Engine) (render : Renderer) (scope : Scope) : Node → Render Unit
  | .inclusion place name args hash _ =>
    Render.located place do
      let fragment ← partialBy compile name
      let inner ← partialScope e render scope (Param.placedArgs place [] args)
        (Param.placedHash place [] hash)
      render fragment inner
  | n => renderNode e render scope n

/-- Nodes one after the other. -/
def renderNodesBy (e : Engine) (render : Renderer) (scope : Scope) : List Node → Render Unit
  | [] => pure ()
  | n :: rest => do
    renderNodeBy compile e render scope n
    renderNodesBy e render scope rest

/-- A fragment, with fragments nested at most `depth` deep. -/
def renderFragmentBy (e : Engine) : Nat → Renderer
  | 0, _, _ => Render.exhausted
  | depth + 1, fragment, scope => do
    defineInlines fragment.nodes
    Render.located fragment.place
      (renderNodesBy compile e (renderFragmentBy e depth) scope fragment.nodes)

end

/-- The evaluator compiles partials through the cache. -/
theorem renderNodesBy_compiled (e : Engine) (render : Renderer) (scope : Scope) (nodes : List Node) :
    renderNodesBy (partialOf.compiled e) e render scope nodes = renderNodes e render scope nodes := by
  induction nodes with
  | nil => rfl
  | cons n rest ih =>
    have hnode : renderNodeBy (partialOf.compiled e) e render scope n =
        renderNode e render scope n := by
      cases n <;> rfl
    rw [renderNodesBy, renderNodes, hnode, ih]

theorem renderFragmentBy_compiled (e : Engine) (depth : Nat) :
    renderFragmentBy (partialOf.compiled e) e depth = renderFragment e depth := by
  induction depth with
  | zero => rfl
  | succ depth ih =>
    funext fragment scope
    rw [renderFragmentBy, renderFragment, ih, renderNodesBy_compiled]

namespace Mirroring

variable {M : Mirroring} {e e' : Engine} (L : M.Lawful e e')
  {compile compile' : String → Render Fragment}
  (hcompile : ∀ name, M.Mirrors (compile name) (compile' name) (Fragment.Alike M.resemblance))

include hcompile

theorem mirrors_partialBy (name : String) :
    M.Mirrors (partialBy compile name) (partialBy compile' name)
      (Fragment.Alike M.resemblance) := by
  unfold partialBy
  refine (Mirrors.read (V := Frames.Alike M.resemblance M.value) fun w w' hw => ?_).bind ?_
  · cases hw with
    | beside _ hframes _ => exact hframes
  intro frames frames' hframes
  refine (Mirrors.ofFault (Frames.visible_agree hframes)).bind fun top top' htop => ?_
  have hfound := htop.lookup name
  generalize top.lookup name = found at hfound ⊢
  generalize top'.lookup name = found' at hfound ⊢
  cases hfound with
  | none => exact hcompile name
  | some h =>
    cases h with
    | nodes hbody => exact .pure ⟨fun _ => rfl, hbody⟩
    | foreign => exact .ite (fun _ => hcompile name) fun _ => .throw _

include L

section

variable {render render' : Renderer} (hrender : M.RendersAlike render render') {scope : Scope}
  (hscope : scope.All M.value)

include hrender hscope

/-- Nodes that are alike are rendered alike; one case for each kind of node. -/
theorem mirrors_renderNodeBy {n n' : Node} (hn : n.Alike M.resemblance n') :
    M.Mirrors (renderNodeBy compile e render scope n) (renderNodeBy compile' e' render' scope n')
      Eq := by
  cases n' with
  | text place content =>
    cases hn
    exact .emit content
  | comment | inlinePartial =>
    cases hn
    exact .pure rfl
  | output place style call marks =>
    cases hn with
    | output hplace hcall hmarks =>
      cases hplace trivial
      cases hmarks trivial
      exact .located place (mirrors_renderOutput L hrender hscope (hcall.placed place) marks)
  | inclusion place name args hash marks =>
    cases hn with
    | inclusion hplace hargs hhash _ =>
      cases hplace trivial
      refine .located place ((mirrors_partialBy hcompile name).bind fun fragment fragment' hf => ?_)
      refine (mirrors_partialScope L hrender hscope (hargs.placedArgs place [])
        (hhash.placedHash place [])).bind ?_
      rintro inner _ ⟨rfl, hinner⟩
      exact hrender fragment fragment' inner hf hinner
  | block head' clause' otherwise' =>
    cases n with
    | text | comment | output | inclusion | inlinePartial => cases hn
    | block head clause otherwise =>
      obtain ⟨hhead, ⟨hsome, hbody⟩, ⟨_, hinverse⟩⟩ := hn.block_inv
      cases clause with
      | none =>
        cases clause' with
        | none => exact .pure rfl
        | some body' => cases hsome
      | some body =>
        cases clause' with
        | none => cases hsome
        | some body' =>
          exact mirrors_renderBlock L hrender hscope (hhead.placed trivial) hbody
            ⟨hhead.elsePlace, hinverse⟩

theorem mirrors_renderNodesBy {nodes nodes' : List Node}
    (hnodes : Node.AllAlike M.resemblance nodes nodes') :
    M.Mirrors (renderNodesBy compile e render scope nodes)
      (renderNodesBy compile' e' render' scope nodes') Eq := by
  induction hnodes with
  | nil => exact .pure rfl
  | cons hn _ ih => exact (mirrors_renderNodeBy L hcompile hrender hscope hn).bind fun _ _ _ => ih

end

/-- Fragments nested to any depth are rendered alike, by induction on the depth. -/
theorem renderFragmentBy_alike (depth : Nat) :
    M.RendersAlike (renderFragmentBy compile e depth) (renderFragmentBy compile' e' depth) := by
  induction depth with
  | zero => exact fun _ _ _ _ _ => .exhausted
  | succ depth ih =>
    intro fragment fragment' scope hfragment hscope
    unfold renderFragmentBy
    rw [← hfragment.place trivial]
    refine (mirrors_defineInlines hfragment.nodes).bind fun _ _ _ => .located fragment.place ?_
    exact mirrors_renderNodesBy L hcompile ih hscope hfragment.nodes

end Mirroring

end Stencil
