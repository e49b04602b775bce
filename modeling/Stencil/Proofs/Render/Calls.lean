import Stencil.Proofs.Render.Sections

/-!
# Calls in tags and calls in parentheses

A helper can be called by a tag of its own and, in parentheses, by an argument of another tag. Either
way its arguments are evaluated one after the other, the subject first, and the helper is told what
they have come to. The steps that come before the helper are the same ones, so two such calls differ
in nothing but the kind of tag and whether there is something to write to, and they fail together when
an argument fails. A tag whose name stands for no helper is the exception: the helper for missing
names is called without a subject, and the first argument is not evaluated.
-/

namespace Stencil

namespace Render

variable {α β : Type}

/-- Steps taken in turn: each of them once, in the world that the one before it has left. -/
inductive InTurn : List (Render α) → World → List α → World → Prop where
  | nil (w : World) : InTurn [] w [] w
  | cons {step : Render α} {rest : List (Render α)} {w between after : World} {a : α}
      {values : List α} : step.outcome w = some (.ok a, between) →
      InTurn rest between values after → InTurn (step :: rest) w (a :: values) after

/-- Steps taken in turn up to one without a result: it has failed, or it has no outcome. -/
inductive StopsAt : List (Render α) → World → Option (Failure × World) → Prop where
  | failing {step : Render α} {rest : List (Render α)} {w after : World} {f : Failure} :
      step.outcome w = some (.error f, after) → StopsAt (step :: rest) w (some (f, after))
  | exhausted {step : Render α} {rest : List (Render α)} {w : World} :
      step.outcome w = none → StopsAt (step :: rest) w none
  | later {step : Render α} {rest : List (Render α)} {w between : World} {a : α}
      {stop : Option (Failure × World)} : step.outcome w = some (.ok a, between) →
      StopsAt rest between stop → StopsAt (step :: rest) w stop

/-- The outcome of a run that ends where one of its steps has come to no result. -/
def stopped (stop : Option (Failure × World)) : Option (Except Failure β × World) :=
  stop.map fun (f, after) => (.error f, after)

/-- A run that takes steps in turn and goes on from what they have come to; where one of them has no
result, it ends as that step does. -/
def TakesFirst (steps : List (Render α)) (m : Render β) (k : List α → Render β) : Prop :=
  ∀ w, (∃ values between, InTurn steps w values between ∧
      m.outcome w = (k values).outcome between) ∨
    ∃ stop, StopsAt steps w stop ∧ m.outcome w = stopped stop

theorem InTurn.unique {steps : List (Render α)} {w after after' : World} {values values' : List α}
    (h : InTurn steps w values after) (h' : InTurn steps w values' after') :
    values = values' ∧ after = after' := by
  induction h generalizing values' with
  | nil w =>
    cases h'
    exact ⟨rfl, rfl⟩
  | cons hstep _ ih =>
    cases h' with
    | cons hstep' hrest' =>
      cases hstep.symm.trans hstep'
      obtain ⟨rfl, rfl⟩ := ih hrest'
      exact ⟨rfl, rfl⟩

theorem StopsAt.not_inTurn {steps : List (Render α)} {w after : World}
    {stop : Option (Failure × World)} {values : List α} (h : StopsAt steps w stop) :
    ¬InTurn steps w values after := by
  intro h'
  induction h generalizing values with
  | failing hstep | exhausted hstep =>
    cases h' with
    | cons hstep' _ => cases hstep.symm.trans hstep'
  | later hstep _ ih =>
    cases h' with
    | cons hstep' hrest' =>
      cases hstep.symm.trans hstep'
      exact ih hrest'

theorem StopsAt.unique {steps : List (Render α)} {w : World} {stop stop' : Option (Failure × World)}
    (h : StopsAt steps w stop) (h' : StopsAt steps w stop') : stop = stop' := by
  induction h with
  | failing hstep =>
    cases h' with
    | failing hstep' =>
      cases hstep.symm.trans hstep'
      rfl
    | exhausted hstep' | later hstep' _ => cases hstep.symm.trans hstep'
  | exhausted hstep =>
    cases h' with
    | exhausted => rfl
    | failing hstep' | later hstep' _ => cases hstep.symm.trans hstep'
  | later hstep _ ih =>
    cases h' with
    | failing hstep' | exhausted hstep' => cases hstep.symm.trans hstep'
    | later hstep' hrest' =>
      cases hstep.symm.trans hstep'
      exact ih hrest'

namespace TakesFirst

variable {step : Render α} {rest steps : List (Render α)} {m m' : Render β}
  {k k' : List α → Render β}

theorem nil (h : m = k []) : TakesFirst [] m k := by
  subst h
  exact fun w => .inl ⟨[], w, .nil w, rfl⟩

/-- One step more in front. -/
theorem cons {f : α → Render β} (h : ∀ a, TakesFirst rest (f a) fun values => k (a :: values)) :
    TakesFirst (step :: rest) (step >>= f) k := by
  intro w
  cases hstep : step.outcome w with
  | none =>
    refine .inr ⟨none, .exhausted hstep, ?_⟩
    rw [outcome_bind, hstep]
    rfl
  | some found =>
    obtain ⟨r, between⟩ := found
    cases r with
    | error failure => exact .inr ⟨_, .failing hstep, outcome_bind_of_error hstep⟩
    | ok a =>
      rw [outcome_bind_of_ok hstep]
      rcases h a between with ⟨values, after, hturn, heq⟩ | ⟨stop, hstop, heq⟩
      · exact .inl ⟨a :: values, after, .cons hstep hturn, heq⟩
      · exact .inr ⟨stop, .later hstep hstop, heq⟩

/-- Two runs that take the same steps come to the same values, from which each goes on in its own
way, or end alike. -/
theorem both (h : TakesFirst steps m k) (h' : TakesFirst steps m' k') (w : World) :
    (∃ values between, InTurn steps w values between ∧
      m.outcome w = (k values).outcome between ∧ m'.outcome w = (k' values).outcome between) ∨
    ∃ stop, StopsAt steps w stop ∧ m.outcome w = stopped stop ∧ m'.outcome w = stopped stop := by
  rcases h w with ⟨values, between, hturn, heq⟩ | ⟨stop, hstop, heq⟩
  · rcases h' w with ⟨values', between', hturn', heq'⟩ | ⟨stop', hstop', -⟩
    · obtain ⟨rfl, rfl⟩ := hturn.unique hturn'
      exact .inl ⟨values, between, hturn, heq, heq'⟩
    · exact absurd hturn hstop'.not_inTurn
  · rcases h' w with ⟨values', between', hturn', -⟩ | ⟨stop', hstop', heq'⟩
    · exact absurd hturn' hstop.not_inTurn
    · obtain rfl := hstop.unique hstop'
      exact .inr ⟨stop, hstop, heq, heq'⟩

end TakesFirst

end Render

open Render

section

variable (e : Engine) (render : Renderer) (scope : Scope)

/-- What is evaluated for a call, in order: its subject, the other positional arguments and the named
ones. -/
def Invocation.steps (call : Invocation) : List (Render Value) :=
  (subjectOf e render scope call.args >>= transform e) ::
    (call.args.drop 1 ++ call.hash.map (·.2)).map (argument e render scope)

/-- What a helper without block parameters is told of the values that the arguments of its call have
come to, the subject first among them. -/
def Invocation.told (call : Invocation) (scope : Scope) (tag : TagKind) (values : List Value) : Call :=
  { helper := call.name, tag, scope
    params := (values.drop 1).take (call.args.drop 1).length
    hash := Bindings.ofPairs
      ((call.hash.map (·.1)).zip ((values.drop 1).drop (call.args.drop 1).length))
    blockParams := [], arity := call.args.length }

variable {e render scope}

/-! ### Arguments are steps in turn -/

section

variable {β : Type} {rest : List (Render Value)} {k : List Value → Render β}

theorem takesFirst_arguments (args : List Param) {f : List Value → Render β}
    (h : ∀ values, values.length = args.length →
      TakesFirst rest (f values) fun others => k (values ++ others)) :
    TakesFirst (args.map (argument e render scope) ++ rest)
      (arguments e render scope args >>= f) k := by
  induction args generalizing f k with
  | nil =>
    rw [arguments, pure_bind]
    exact h [] rfl
  | cons p args ih =>
    rw [arguments, bind_assoc]
    refine TakesFirst.cons fun v => ?_
    rw [bind_assoc]
    refine ih fun values hlength => ?_
    rw [pure_bind]
    exact h (v :: values) (congrArg (· + 1) hlength)

theorem takesFirst_namedArguments (hash : HashParams) {f : List (String × Value) → Render β}
    (h : ∀ values, values.length = hash.length →
      TakesFirst rest (f ((hash.map (·.1)).zip values)) fun others => k (values ++ others)) :
    TakesFirst ((hash.map (·.2)).map (argument e render scope) ++ rest)
      (namedArguments e render scope hash >>= f) k := by
  induction hash generalizing f k with
  | nil =>
    rw [namedArguments, pure_bind]
    exact h [] rfl
  | cons entry hash ih =>
    obtain ⟨key, p⟩ := entry
    rw [namedArguments, bind_assoc]
    refine TakesFirst.cons fun v => ?_
    rw [bind_assoc]
    refine ih fun values hlength => ?_
    rw [pure_bind]
    exact h (v :: values) (congrArg (· + 1) hlength)

end

/-- The arguments after the first are evaluated in turn, and the helper is told what they have come
to beside the subject. -/
theorem takesFirst_callOf (call : Invocation) (tag : TagKind) (subject : Value)
    {f : Call → Render Value} :
    TakesFirst (call.steps e render scope).tail
      (callOf e render call.name tag scope call.args call.hash [] >>= f)
      fun values => f (call.told scope tag (subject :: values)) := by
  rw [callOf, bind_assoc, Invocation.steps, List.tail_cons, List.map_append]
  refine takesFirst_arguments (call.args.drop 1) fun params hparams => ?_
  rw [bind_assoc, ← List.append_nil ((call.hash.map (·.2)).map _)]
  refine takesFirst_namedArguments call.hash fun named _ => .nil ?_
  rw [pure_bind, List.append_nil]
  simp only [Invocation.told, List.drop_one, List.tail_cons] at hparams ⊢
  rw [← hparams, List.take_left, List.drop_left]

/-- A helper called with the subject and the other arguments of a call. -/
theorem takesFirst_called (call : Invocation) (tag : TagKind) (helper : Helper)
    (clauses : Clauses) :
    TakesFirst (call.steps e render scope)
      (do
        let subject ← transform e (← subjectOf e render scope call.args)
        let told ← callOf e render call.name tag scope call.args call.hash []
        invoke e render helper subject told clauses)
      fun values => invoke e render helper (values.headD .null) (call.told scope tag values) clauses := by
  rw [← bind_assoc]
  exact TakesFirst.cons fun subject => takesFirst_callOf call tag subject

/-- A call in parentheses evaluates its arguments as a tag does. -/
theorem argument_call_eq (place : Option Location) (call : Invocation) {helper : Helper}
    (hhelper : (call.helper <|> e.missing?) = some helper) :
    argument e render scope (.call place call.name call.args call.hash call.helper) = (do
      let subject ← transform e (← subjectOf e render scope call.args)
      let told ← callOf e render call.name .call scope call.args call.hash []
      invoke e render helper subject told { hasSink := false }) := by
  have hfor : e.helperFor call.name call.helper = pure helper := by
    unfold Engine.helperFor
    cases hbound : call.helper with
    | some bound =>
      rw [hbound] at hhelper
      cases hhelper
      rfl
    | none =>
      rw [hbound] at hhelper
      have hmissing : e.missing? = some helper := hhelper
      simp only [hmissing]
  obtain ⟨name, args, hash, bound⟩ := call
  rw [argument, hfor, pure_bind]
  cases args with
  | nil => simp [subjectOf, callOf, arguments]
  | cons first rest => simp [subjectOf, callOf]

theorem outputValue_eq_of_bound (style : OutputStyle) (marks : Delimiters) {call : Invocation}
    {helper : Helper} (hhelper : call.helper = some helper) :
    outputValue e render scope style call marks = (do
      let subject ← transform e (← subjectOf e render scope call.args)
      let told ← callOf e render call.name style.tag scope call.args call.hash []
      invoke e render helper subject told { hasSink := true }) := by
  simp only [outputValue, hhelper]

/-- A tag with arguments whose name stands for no helper calls the helper for missing names without a
subject. -/
theorem outputValue_eq_of_unbound (style : OutputStyle) (marks : Delimiters) {call : Invocation}
    {helper : Helper} (hname : call.helper = none) (hmissing : e.missing? = some helper)
    (harguments : call.args ≠ [] ∨ call.hash ≠ []) :
    outputValue e render scope style call marks =
      callOf e render call.name style.tag scope call.args call.hash [] >>= fun told =>
        invoke e render helper .null told { hasSink := true } := by
  have hsome : (!call.args.isEmpty || !call.hash.isEmpty) = true := by simpa using harguments
  simp only [outputValue, hname, hsome, hmissing, if_true]

end

/-! ### Tags and arguments -/

/-- A tag and a call in parentheses with the same name and the same arguments evaluate these in turn,
each once, and end alike where one of them fails. Then they call the same helper with the same
subject, and what they tell it differs in the kind of tag only. A tag whose name stands for no helper
evaluates all arguments but the first, and its helper is told the same but has no subject. -/
theorem tag_calls_as_argument (e : Engine) (render : Renderer) (scope : Scope) (style : OutputStyle)
    (marks : Delimiters) (place : Option Location) (call : Invocation) {helper : Helper}
    (hhelper : (call.helper <|> e.missing?) = some helper)
    (harguments : call.helper = none → call.args ≠ [] ∨ call.hash ≠ []) :
    (call.helper = some helper → ∀ w,
      (∃ values between, InTurn (call.steps e render scope) w values between ∧
        (outputValue e render scope style call marks).outcome w =
          (invoke e render helper (values.headD .null) (call.told scope style.tag values)
            { hasSink := true }).outcome between ∧
        (argument e render scope (.call place call.name call.args call.hash call.helper)).outcome w =
          (invoke e render helper (values.headD .null) (call.told scope .call values)
            { hasSink := false }).outcome between) ∨
      ∃ stop, StopsAt (call.steps e render scope) w stop ∧
        (outputValue e render scope style call marks).outcome w = stopped stop ∧
        (argument e render scope (.call place call.name call.args call.hash call.helper)).outcome w =
          stopped stop) ∧
    (call.helper = none →
      TakesFirst (call.steps e render scope)
        (argument e render scope (.call place call.name call.args call.hash call.helper))
        (fun values => invoke e render helper (values.headD .null) (call.told scope .call values)
          { hasSink := false }) ∧
      TakesFirst (call.steps e render scope).tail (outputValue e render scope style call marks)
        fun values => invoke e render helper .null (call.told scope style.tag (.null :: values))
          { hasSink := true }) := by
  rw [argument_call_eq place call hhelper]
  refine ⟨fun hbound => ?_, fun hname => ⟨takesFirst_called call .call helper _, ?_⟩⟩
  · rw [outputValue_eq_of_bound style marks hbound]
    exact (takesFirst_called call style.tag helper _).both (takesFirst_called call .call helper _)
  · have hmissing : e.missing? = some helper := by
      rw [hname] at hhelper
      exact hhelper
    rw [outputValue_eq_of_unbound style marks hname hmissing (harguments hname)]
    exact takesFirst_callOf call style.tag .null

/-- A look-up in what another look-up has found. -/
def nestedLookup : Invocation :=
  { name := "lookup", helper := some ⟨0, .builtin .lookup⟩
    args := [.call none "lookup" [.reference "shelf", .literal "\"top\"" (.text "top")] []
        (some ⟨0, .builtin .lookup⟩), .literal "\"book\"" (.text "book")] }

/-- A scope with a shelf and a book on it. -/
def shelfScope : Scope :=
  .ofModel (.map 0 [(.text "shelf", .map 1 [(.text "top", .map 2 [(.text "book", .text "Emma")])])])
    Resolver.standard

theorem tag_calls_as_argument_nested :
    ∃ values between,
      InTurn (nestedLookup.steps .standard (renderFragment .standard 3) shelfScope) {} values between ∧
      (outputValue .standard (renderFragment .standard 3) shelfScope .triple nestedLookup
          .standard).outcome {} =
        (invoke .standard (renderFragment .standard 3) ⟨0, .builtin .lookup⟩ (values.headD .null)
          (nestedLookup.told shelfScope .triple values) { hasSink := true }).outcome between ∧
      (argument .standard (renderFragment .standard 3) shelfScope
          (.call none nestedLookup.name nestedLookup.args nestedLookup.hash
            nestedLookup.helper)).outcome {} =
        (invoke .standard (renderFragment .standard 3) ⟨0, .builtin .lookup⟩ (values.headD .null)
          (nestedLookup.told shelfScope .call values) { hasSink := false }).outcome between := by
  have hhelper : (nestedLookup.helper <|> Engine.standard.missing?) =
      some ⟨0, .builtin .lookup⟩ := rfl
  have harguments (_ : nestedLookup.helper = none) :
      nestedLookup.args ≠ [] ∨ nestedLookup.hash ≠ [] := .inl (List.cons_ne_nil _ _)
  obtain ⟨hcalls, -⟩ := tag_calls_as_argument .standard (renderFragment .standard 3) shelfScope
    .triple .standard none nestedLookup hhelper harguments
  rcases hcalls rfl {} with hruns | ⟨stop, -, -, hcall⟩
  · exact hruns
  · have hfound : (argument .standard (renderFragment .standard 3) shelfScope
        (.call none nestedLookup.name nestedLookup.args nestedLookup.hash
          nestedLookup.helper)).outcome {} = some (.ok (.text "Emma"), { nextLabel := 2 }) := rfl
    rw [hfound] at hcall
    cases stop <;> cases hcall

/-- An engine whose helper for missing names answers its subject. -/
def echoingEngine : Engine :=
  { Engine.standard with
    registry := Engine.standard.registry.put "helperMissing" ⟨1, .host fun subject _ => .done subject⟩ }

/-- A name that stands for no helper, with a call of a helper that answers `v` as its argument. -/
def unboundCall : Invocation :=
  { name := "n", args := [.call none "h" [] [] (some ⟨2, .host fun _ _ => .done (.text "v")⟩)] }

/-- In parentheses the argument of a name that stands for no helper is the subject of the helper for
missing names. In a tag it is not even evaluated. -/
theorem unbound_tag_drops_argument :
    echoingEngine.missing?.isSome = true ∧
      (argument echoingEngine (renderFragment echoingEngine 3) shelfScope
        (.call none unboundCall.name unboundCall.args unboundCall.hash unboundCall.helper)).outcome {} =
        some (.ok (.text "v"), { nextLabel := 2 }) ∧
      (outputValue echoingEngine (renderFragment echoingEngine 3) shelfScope .plain unboundCall
        .standard).outcome {} = some (.ok .null, {}) :=
  ⟨rfl, rfl, rfl⟩

end Stencil
