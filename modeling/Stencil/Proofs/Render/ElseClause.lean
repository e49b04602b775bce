import Stencil.Proofs.Render.Quiet
import Stencil.Proofs.Render.Sections

/-!
# Where an else clause is rendered

A section evaluates the call of its helper, and the built-in helpers that give way to the else clause
render it in the scope of that call. This is the scope that the section stands in, unless the section
has no helper of its own and enters its value: then the call is made in a child scope before anybody
has asked whether the value is there, and the else clause of an empty value is rendered in that child
scope.
-/

namespace Stencil

/-! ## The call of a section -/

section

variable (e : Engine) (render : Renderer) (scope : Scope) (head : BlockHead) (body : List Node)

theorem sectionCall_quiet : (sectionCall e render scope head body).Quiet := by
  unfold sectionCall
  split
  · refine (subjectOf_quiet e render scope _).bind fun v => (transform_quiet e v).bind fun _ => ?_
    exact (callOf_quiet e render scope _ _ _ _ _).bind fun _ => .pure _
  · refine (Render.Quiet.get scope _).bind fun v => (transform_quiet e v).bind fun subject => ?_
    refine (treatment_quiet e scope head body subject).bind fun treated => ?_
    refine (implicitHelper_quiet e head treated.helper subject).bind fun found => ?_
    exact (callOf_quiet e render treated.scope _ _ _ _ _).bind fun _ => .pure _

end

variable {e : Engine} {render : Renderer} {scope : Scope} {head : BlockHead} {body : List Node}
  {told : SectionCall} {w after : World}

/-- Sections that are called in the scope they stand in: those with a helper of their own, inverted
ones, and those whose value is iterated over or decides. -/
def StaysInScope (head : BlockHead) (subject : Value) : Prop :=
  head.call.helper.isSome = true ∨ head.inverted = true ∨ subject.isIterable = true ∨
    ∃ b, subject = .bool b

theorem callOf_scope {name : String} {tag : TagKind} {args : List Param} {hash : HashParams}
    {blockParams : List String} {call : Call}
    (h : (callOf e render name tag scope args hash blockParams).outcome w =
      some (.ok call, after)) : call.scope = scope := by
  obtain ⟨params, w₁, -, h⟩ := Render.outcome_bind_ok h
  obtain ⟨named, w₂, -, h⟩ := Render.outcome_bind_ok h
  cases h
  rfl

theorem treatment_scope {subject : Value} {treated : Treatment}
    (hstays : head.inverted = true ∨ subject.isIterable = true ∨ ∃ b, subject = .bool b)
    (h : (treatment e scope head body subject).outcome w = some (.ok treated, after)) :
    treated.scope = scope := by
  unfold treatment at h
  split at h
  · cases h
    rfl
  · rename_i hinverted
    split at h
    · cases h
      rfl
    · rename_i hiterable
      rcases hstays with hstays | hstays | ⟨b, rfl⟩
      · exact absurd hstays hinverted
      · exact absurd hstays hiterable
      · cases h
        rfl

/-- The call is made in the scope of the section. -/
theorem sectionCall_scope (hstays : StaysInScope head told.subject)
    (h : (sectionCall e render scope head body).outcome w = some (.ok told, after)) :
    told.call.scope = scope := by
  unfold sectionCall at h
  split at h
  · obtain ⟨v, w₁, -, h⟩ := Render.outcome_bind_ok h
    obtain ⟨subject, w₂, -, h⟩ := Render.outcome_bind_ok h
    obtain ⟨call, w₃, hcall, h⟩ := Render.outcome_bind_ok h
    cases h
    exact callOf_scope hcall
  · rename_i hnone
    obtain ⟨v, w₁, -, h⟩ := Render.outcome_bind_ok h
    obtain ⟨subject, w₂, -, h⟩ := Render.outcome_bind_ok h
    obtain ⟨treated, w₃, htreated, h⟩ := Render.outcome_bind_ok h
    obtain ⟨⟨helper, name⟩, w₄, -, h⟩ := Render.outcome_bind_ok h
    obtain ⟨call, w₅, hcall, h⟩ := Render.outcome_bind_ok h
    cases h
    rw [callOf_scope hcall]
    refine treatment_scope (hstays.resolve_left ?_) htreated
    simp [hnone]

/-! ## Giving way to the else clause -/

/-- A built-in helper finds nothing in its subject that it would render the body for. The world
changes only when an iterator has to be drawn to find out. -/
inductive Builtin.Declines (subject : Value) (call : Call) (w : World) : Builtin → World → Prop where
  | mapping {label : Label} : subject = .map label [] → Declines subject call w .each w
  | items {after : World} : subject.isIterable = true →
      (Render.items subject).outcome w = some (.ok [], after) → Declines subject call w .each after
  | scalar : subject.isIterable = false → (∀ label entries, subject ≠ .map label entries) →
      Declines subject call w .each w
  | branch : call.isFalsy subject = true → Declines subject call w .branch w
  | negate : call.isFalsy subject = false → Declines subject call w .negate w
  | enter : call.isFalsy subject = true → Declines subject call w .enter w

/-- What a helper does that gives way to the else clause. -/
def elseAction (call : Call) : Action Value := do
  pure (.text (← Action.request (.render .inverse call.scope)))

theorem Builtin.each_of_not_map {subject : Value} (call : Call)
    (hmap : ∀ label entries, subject ≠ .map label entries) :
    Builtin.each.act subject call =
      if subject.isIterable then do
        eachOf call (numbered (← Action.request (.items subject)))
      else elseAction call := by
  cases subject with
  | map label entries => exact absurd rfl (hmap label entries)
  | _ => rfl

/-- The else clause rendered in the scope of a call, as the answer of a helper. -/
def elseAnswer (render : Renderer) (call : Call) (inverse : Fragment) : Render Value :=
  Render.mapFailure (Failure.fromHelper call.helper) do
    pure (.text (← Render.captured (render inverse call.scope)))

/-- A built-in helper that declines answers with the else clause. -/
theorem invoke_of_declines {which : Builtin} {helper : Helper} {subject : Value} {call : Call}
    {clauses : Clauses} (hwhich : helper.behaviour = .builtin which)
    (h : which.Declines subject call w after) :
    (invoke e render helper subject call clauses).outcome w =
      (elseAnswer render call clauses.inverse).outcome after := by
  have helse : (elseAction call).perform (answer e render call clauses) =
      Render.captured (render clauses.inverse call.scope) >>= fun text => pure (.text text) :=
    Action.perform_request_bind _ _ _
  have hinvoke (v : World) (haction : ((which.act subject call).perform
      (answer e render call clauses)).outcome w =
        ((elseAction call).perform (answer e render call clauses)).outcome v) :
      (invoke e render helper subject call clauses).outcome w =
        (elseAnswer render call clauses.inverse).outcome v := by
    unfold invoke elseAnswer
    rw [Helper.act, hwhich, ← helse]
    exact congrArg (Option.map fun found : Except Failure Value × World =>
      (found.1.mapError (Failure.fromHelper call.helper), found.2)) haction
  cases h with
  | mapping hsubject =>
    subst hsubject
    exact hinvoke w rfl
  | items hiterable hitems =>
    refine hinvoke after ?_
    have hmap : ∀ label entries, subject ≠ .map label entries := by
      rintro label entries rfl
      cases hiterable
    -- The items are asked for, none come, and only then the else clause is rendered.
    rw [Builtin.each_of_not_map call hmap, if_pos hiterable]
    show (Action.perform _ ((Action.request (.items subject)).bind fun items =>
      Builtin.eachOf call (Builtin.numbered items))).outcome w = _
    rw [Action.perform_request_bind, Render.outcome_bind]
    show ((Render.items subject).outcome w).bind _ = _
    rw [hitems]
    rfl
  | scalar hiterable hmap =>
    refine hinvoke w ?_
    rw [Builtin.each_of_not_map call hmap, hiterable]
    rfl
  | branch hfalsy =>
    refine hinvoke w ?_
    rw [Builtin.act, hfalsy]
    rfl
  | negate hfalsy =>
    refine hinvoke w ?_
    rw [Builtin.act, hfalsy]
    rfl
  | enter hfalsy =>
    refine hinvoke w ?_
    rw [Builtin.act, hfalsy]
    rfl

/-- The body is rendered in a scope, whatever the else clause is. -/
theorem perform_body_bind {clauses others : Clauses} (hbody : clauses.body = others.body)
    (call : Call) (scope : Scope) {α : Type} {k k' : String → Action α}
    (hk : ∀ text, (k text).perform (answer e render call clauses) =
      (k' text).perform (answer e render call others)) :
    ((Action.request (.render .body scope)).bind k).perform (answer e render call clauses) =
      ((Action.request (.render .body scope)).bind k').perform (answer e render call others) := by
  have hanswer : answer e render call clauses (.render .body scope) =
      answer e render call others (.render .body scope) := by
    unfold answer fragmentOf
    rw [hbody]
  rw [Action.perform_request_bind, Action.perform_request_bind, hanswer]
  exact bind_congr hk

/-- Iterations ask for the body only, by induction on the entries. -/
theorem perform_eachEntry {clauses others : Clauses} (hbody : clauses.body = others.body)
    (call : Call) (count index : Nat) (entries : List (Value × Value)) :
    (Builtin.eachEntry call count index entries).perform (answer e render call clauses) =
      (Builtin.eachEntry call count index entries).perform (answer e render call others) := by
  induction entries generalizing index with
  | nil => rfl
  | cons entry rest ih =>
    refine perform_body_bind hbody call _ fun text => ?_
    show ((Builtin.eachEntry call count (index + 1) rest).bind _).perform _ =
      ((Builtin.eachEntry call count (index + 1) rest).bind _).perform _
    rw [Action.perform_bind, Action.perform_bind, ih]
    rfl

theorem perform_eachOf {clauses others : Clauses} (hbody : clauses.body = others.body)
    (call : Call) {entries : List (Value × Value)} (hne : entries ≠ []) :
    (Builtin.eachOf call entries).perform (answer e render call clauses) =
      (Builtin.eachOf call entries).perform (answer e render call others) := by
  have hempty : entries.isEmpty = false := by simpa using hne
  unfold Builtin.eachOf
  rw [hempty]
  show ((Builtin.eachEntry call entries.length 0 entries).bind _).perform _ =
    ((Builtin.eachEntry call entries.length 0 entries).bind _).perform _
  rw [Action.perform_bind, Action.perform_bind, perform_eachEntry hbody]
  rfl

/-- A built-in helper of a section that does not decline does not ask for the else clause. -/
theorem invoke_of_not_declines {which : Builtin} {helper : Helper} {subject : Value} {call : Call}
    {clauses others : Clauses} (hbody : clauses.body = others.body)
    (hwhich : helper.behaviour = .builtin which)
    (hmember : which ∈ [Builtin.each, .branch, .negate, .enter])
    (h : ∀ after, ¬which.Declines subject call w after) :
    (invoke e render helper subject call clauses).outcome w =
      (invoke e render helper subject call others).outcome w := by
  have hinvoke (haction : ((which.act subject call).perform
      (answer e render call clauses)).outcome w =
        ((which.act subject call).perform (answer e render call others)).outcome w) :
      (invoke e render helper subject call clauses).outcome w =
        (invoke e render helper subject call others).outcome w := by
    unfold invoke
    rw [Helper.act, hwhich]
    exact congrArg (Option.map fun found : Except Failure Value × World =>
      (found.1.mapError (Failure.fromHelper call.helper), found.2)) haction
  have hrender (scope : Scope) : ((Action.request (.render .body scope)).bind fun text =>
      Action.done (Value.text text)).perform (answer e render call clauses) =
        ((Action.request (.render .body scope)).bind fun text =>
          Action.done (Value.text text)).perform (answer e render call others) :=
    perform_body_bind hbody call scope fun _ => rfl
  refine hinvoke ?_
  simp only [List.mem_cons, List.not_mem_nil, or_false] at hmember
  rcases hmember with rfl | rfl | rfl | rfl
  · by_cases hmap : ∃ label entries, subject = .map label entries
    · obtain ⟨label, entries, rfl⟩ := hmap
      have hne : entries ≠ [] := by
        rintro rfl
        exact h w (.mapping rfl)
      exact congrFun (perform_eachOf hbody call hne) w
    · have hmap : ∀ label entries, subject ≠ .map label entries :=
        fun label entries heq => hmap ⟨label, entries, heq⟩
      rw [Builtin.each_of_not_map call hmap]
      cases hiterable : subject.isIterable with
      | false => exact absurd (.scalar hiterable hmap) (h w)
      | true =>
        show (((Action.request (.items subject)).bind fun items =>
            Builtin.eachOf call (Builtin.numbered items)).perform _).outcome w =
          (((Action.request (.items subject)).bind fun items =>
            Builtin.eachOf call (Builtin.numbered items)).perform _).outcome w
        rw [Action.perform_request_bind, Action.perform_request_bind, Render.outcome_bind,
          Render.outcome_bind]
        show ((Render.items subject).outcome w).bind _ = ((Render.items subject).outcome w).bind _
        cases hitems : (Render.items subject).outcome w with
        | none => rfl
        | some found =>
          obtain ⟨r, after⟩ := found
          cases r with
          | error f => rfl
          | ok items =>
            have hne : Builtin.numbered items ≠ [] := by
              intro hnil
              have hitemsNil : items = [] := by simpa [Builtin.numbered] using hnil
              subst hitemsNil
              exact h after (.items hiterable hitems)
            exact congrFun (perform_eachOf hbody call hne) after
  · cases hfalsy : call.isFalsy subject with
    | true => exact absurd (.branch hfalsy) (h w)
    | false =>
      rw [Builtin.act, hfalsy]
      exact congrFun (hrender _) w
  · cases hfalsy : call.isFalsy subject with
    | false => exact absurd (.negate hfalsy) (h w)
    | true =>
      rw [Builtin.act, hfalsy]
      exact congrFun (hrender _) w
  · cases hfalsy : call.isFalsy subject with
    | true => exact absurd (.enter hfalsy) (h w)
    | false =>
      rw [Builtin.act, hfalsy]
      exact congrFun (hrender _) w

/-! ## Sections that give way -/

theorem defineInlines_of_plain
    (h : ∀ n ∈ body, ∀ place name nodes marks, n ≠ .inlinePartial place name nodes marks) :
    defineInlines body = pure () := by
  induction body with
  | nil => rfl
  | cons n rest ih =>
    obtain ⟨hn, hrest⟩ := List.forall_mem_cons.1 h
    cases n with
    | inlinePartial place name nodes marks => exact absurd rfl (hn place name nodes marks)
    | _ => exact ih hrest

theorem Builtin.Declines.output {which : Builtin} {subject : Value} {call : Call}
    (h : which.Declines subject call w after) : after.output = w.output := by
  cases h with
  | items _ hitems => exact Render.Quiet.items subject w _ after hitems
  | _ => rfl

/-- The else clause is rendered with an output of its own, which becomes the answer. -/
theorem outcome_elseAnswer {call : Call} {inverse : Fragment} {result : Except Failure Unit}
    (h : (render inverse call.scope).outcome { w with output := "" } = some (result, after)) :
    (elseAnswer render call inverse).outcome w =
      some (match result with
        | .ok () => .ok (.text after.output)
        | .error f => .error (f.fromHelper call.helper), { after with output := w.output }) := by
  have hcaptured : (Render.captured (render inverse call.scope)).outcome w =
      some (result.map fun _ => after.output, { after with output := w.output }) := by
    rw [Render.captured, Render.outcome_ofOutcome, h]
    rfl
  show ((Render.captured (render inverse call.scope) >>= fun text =>
    (pure (Value.text text) : Render Value)).outcome w).map _ = _
  rw [Render.outcome_bind, hcaptured]
  cases result <;> rfl

/-- What a captured step adds to the output around it: all that it has written, or nothing if it
fails. -/
def kept (result : Except Failure Unit) (after : World) : String :=
  match result with
  | .ok _ => after.output
  | .error _ => ""

/-- A section whose helper answers with a text that was rendered writes the text, or fails as the
rendering does. -/
theorem outcome_of_answer {inverse : Fragment} {pushed defined popped : Frames} {called : World}
    {result : Except Failure Unit} (hpush : w.side.frames.push = .ok pushed)
    (hdefine : (defineInlines body).outcome (w.withFrames pushed) =
      some (.ok (), w.withFrames defined))
    (hcall : (sectionCall e render scope head body).outcome (w.withFrames defined) =
      some (.ok told, called))
    (hanswer : (invoke e render told.helper told.subject told.call
      ⟨told.body, inverse, true⟩).outcome called =
        some ((result.map fun _ => .text after.output).mapError
          (Failure.fromHelper told.call.helper), { after with output := w.output }))
    (hpop : after.side.frames.pop = .ok popped) :
    (renderBlock e render scope head body inverse).outcome w =
      some (result.mapError fun f => (f.fromHelper told.call.helper).locate head.place,
        { after with output := w.output ++ kept result after }.withFrames popped) := by
  have hvalue : (blockValue e render scope head body inverse).outcome (w.withFrames defined) =
      some ((result.map fun _ => .text after.output).mapError
        (Failure.fromHelper told.call.helper), { after with output := w.output }) := by
    rw [blockValue_eq, Render.outcome_bind_of_ok hcall, hanswer]
  have hinside : (insideBlock e render scope head body inverse).outcome (w.withFrames pushed) =
      some (result.mapError fun f => (f.fromHelper told.call.helper).locate head.place,
        { after with output := w.output ++ kept result after }) := by
    rw [insideBlock_eq, Render.outcome_bind_of_ok hdefine]
    show ((blockValue e render scope head body inverse >>= writeAnswer).outcome
      (w.withFrames defined)).map _ = _
    rw [Render.outcome_bind, hvalue]
    cases result with
    | ok _ =>
      show ((writeAnswer (.text after.output)).outcome { after with output := w.output }).map _ = _
      rw [outcome_writeAnswer_text]
      rfl
    | error f =>
      rw [kept, String.append_empty]
      rfl
  rw [renderBlock_eq, Render.outcome_inFrame, hpush]
  dsimp only
  rw [hinside]
  simp only [Option.bind_some, hpop]

section

variable {which : Builtin} {inverse : Fragment} {pushed : Frames} {called : World}
  (hplain : ∀ n ∈ body, ∀ place name nodes marks, n ≠ .inlinePartial place name nodes marks)
  (hpush : w.side.frames.push = .ok pushed)
  (hcall : (sectionCall e render scope head body).outcome (w.withFrames pushed) =
    some (.ok told, called))
  (hwhich : told.helper.behaviour = .builtin which)

include hplain hpush hcall hwhich

/-- A section that declines writes what its else clause writes in its own frame, or fails as the
else clause does. -/
theorem outcome_of_declines {popped : Frames} {declined : World} {result : Except Failure Unit}
    (hstays : StaysInScope head told.subject)
    (hdeclines : which.Declines told.subject told.call called declined)
    (hinverse : (render inverse scope).outcome { declined with output := "" } =
      some (result, after))
    (hpop : after.side.frames.pop = .ok popped) :
    (renderBlock e render scope head body inverse).outcome w =
      some (result.mapError fun f => (f.fromHelper told.call.helper).locate head.place,
        { after with output := w.output ++ kept result after }.withFrames popped) := by
  have houtput : declined.output = w.output := by
    have hquiet := sectionCall_quiet e render scope head body (w.withFrames pushed) _ _ hcall
    rw [hdeclines.output, hquiet]
    rfl
  have hscope : told.call.scope = scope := sectionCall_scope hstays hcall
  rw [← hscope] at hinverse
  have hdefine : (defineInlines body).outcome (w.withFrames pushed) =
      some (.ok (), w.withFrames pushed) := by
    rw [defineInlines_of_plain hplain]
    rfl
  refine outcome_of_answer hpush hdefine hcall ?_ hpop
  rw [invoke_of_declines hwhich hdeclines, outcome_elseAnswer hinverse, houtput]
  cases result <;> rfl

/-- A section that does not decline comes to the same with any other else clause. -/
theorem outcome_of_not_declines
    (hmember : which ∈ [Builtin.each, .branch, .negate, .enter])
    (h : ∀ declined, ¬which.Declines told.subject told.call called declined) (other : Fragment) :
    (renderBlock e render scope head body other).outcome w =
      (renderBlock e render scope head body inverse).outcome w := by
  have hanswer : (blockValue e render scope head body other).outcome (w.withFrames pushed) =
      (blockValue e render scope head body inverse).outcome (w.withFrames pushed) := by
    rw [blockValue_eq, blockValue_eq, Render.outcome_bind, Render.outcome_bind, hcall]
    exact invoke_of_not_declines rfl hwhich hmember h
  have hinside : (insideBlock e render scope head body other).outcome (w.withFrames pushed) =
      (insideBlock e render scope head body inverse).outcome (w.withFrames pushed) := by
    rw [insideBlock_eq, insideBlock_eq, defineInlines_of_plain hplain]
    show ((blockValue e render scope head body other >>= writeAnswer).outcome
        (w.withFrames pushed)).map _ =
      ((blockValue e render scope head body inverse >>= writeAnswer).outcome
        (w.withFrames pushed)).map _
    rw [Render.outcome_bind, Render.outcome_bind, hanswer]
  rw [renderBlock_eq, renderBlock_eq, Render.outcome_inFrame, Render.outcome_inFrame, hpush]
  dsimp only
  rw [hinside]

/-- An else clause is rendered in the scope in which its section stands. Where the built-in helper of
a section that stays in its scope declines, the section writes what the else clause writes there, in
the frame of the section, or fails as the else clause does; and where the helper does not decline,
the else clause does not matter. -/
theorem else_rendered_in_scope (hstays : StaysInScope head told.subject)
    (hmember : which ∈ [Builtin.each, .branch, .negate, .enter]) :
    (∀ declined result after popped,
      which.Declines told.subject told.call called declined →
      (render inverse scope).outcome { declined with output := "" } = some (result, after) →
      after.side.frames.pop = .ok popped →
      (renderBlock e render scope head body inverse).outcome w =
        some (result.mapError fun f => (f.fromHelper told.call.helper).locate head.place,
          { after with output := w.output ++ kept result after }.withFrames popped)) ∧
    ((∀ declined, ¬which.Declines told.subject told.call called declined) → ∀ other,
      (renderBlock e render scope head body other).outcome w =
        (renderBlock e render scope head body inverse).outcome w) :=
  ⟨fun _ _ _ _ hdeclines hinverse hpop =>
    outcome_of_declines hplain hpush hcall hwhich hstays hdeclines hinverse hpop,
    fun h other => outcome_of_not_declines hplain hpush hcall hwhich hmember h other⟩

end

/-- Data in which `x` is zero and `y` is a text. -/
def zeroScope : Scope :=
  .ofModel (.map 0 [(.text "x", .int 0), (.text "y", .text "Y")]) Resolver.standard

/-- A clause that reads `y` at the level it is rendered at. -/
def ownLevel : Fragment := ⟨none, [.output none .plain { name := "./y" } .standard]⟩

/-- The section `with x`. -/
def withZero : BlockHead :=
  { place := none, inverted := false,
    call := { name := "with", args := [.reference "x"], helper := some ⟨0, .builtin .enter⟩ },
    blockParams := [], label := .word, elsePlace := none, delimiters := .standard }

theorem else_rendered_in_scope_withZero :
    ∃ after, (renderBlock .standard (renderFragment .standard 2) zeroScope withZero
      [.text none "A"] ownLevel).outcome {} = some (.ok (), after) ∧ after.output = "Y" := by
  have hplain : ∀ n ∈ [Node.text none "A"], ∀ place name nodes marks,
      n ≠ .inlinePartial place name nodes marks := by simp
  have hcall : (sectionCall .standard (renderFragment .standard 2) zeroScope withZero
      [.text none "A"]).outcome (World.withFrames {} (.stack [[], []])) =
        some (.ok ⟨⟨0, .builtin .enter⟩, .int 0, ⟨"with", .block, zeroScope, [], [], [], 1⟩,
          ⟨none, [.text none "A"]⟩⟩, { side := ⟨[], .stack [[], []]⟩, nextLabel := 1 }) := rfl
  have hinverse : (renderFragment .standard 2 ownLevel zeroScope).outcome
      { side := ⟨[], .stack [[], []]⟩, nextLabel := 1 } =
        some (.ok (), { side := ⟨[], .stack [[], []]⟩, nextLabel := 2, output := "Y" }) := rfl
  exact ⟨_, (else_rendered_in_scope hplain rfl hcall rfl (.inl rfl) (by decide)).1 _ _ _ _
    (.enter rfl) hinverse rfl, rfl⟩

/-- A section that enters its value renders the else clause of an empty value a level deeper than it
stands. -/
theorem bareZero_else_in_child :
    let head := { withZero with call := { name := "x" } }
    ((renderBlock .standard (renderFragment .standard 2) zeroScope head [.text none "A"]
        ownLevel).outcome {}).map (·.2.output) = some "" ∧
      ((renderFragment .standard 2 ownLevel zeroScope).outcome {}).map (·.2.output) =
        some "Y" := by
  decide

end Stencil
