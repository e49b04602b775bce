import Stencil.Proofs.Render.Nesting

/-!
# Faults inside sections

The clause of a section is rendered from inside its helper, so a failure in it passes through the call
of the helper on its way out. A failure of the template's own passes as it is. A fault is blamed on
the helper of the section, although the helper has done nothing wrong, and from there on it is a
render error that passes through everything around it.
-/

namespace Stencil

open Render

/-- What becomes of a failure on its way out of a section: it leaves the clause, the call of the
helper and the tag. -/
def Layer.pass (layer : Layer) (f : Failure) : Failure :=
  ((f.locate layer.clause.place).fromHelper layer.told.call.helper).locate layer.head.place

/-- The innermost frame can be popped where it is not the last one. -/
theorem Frames.pop_of_length {f : Frames} (h : 1 < f.all.length) :
    ∃ g, f.pop = .ok g ∧ g.all.length + 1 = f.all.length := by
  rcases f with (_ | ⟨top, _ | ⟨below, rest⟩⟩) | v
  · simp [all] at h
  · simp [all] at h
  · exact ⟨stack (below :: rest), rfl, rfl⟩
  · simp [all] at h

section

variable {e : Engine} {f : Failure} {after : World}

theorem outcome_renderNodes_append {render : Renderer} {scope : Scope} {before : List Node}
    {w v : World} (h : (renderNodes e render scope before).outcome w = some (.ok (), v))
    (nodes : List Node) : (renderNodes e render scope (before ++ nodes)).outcome w =
      (renderNodes e render scope nodes).outcome v := by
  induction before generalizing w with
  | nil =>
    cases h
    rfl
  | cons n rest ih =>
    rw [renderNodes] at h
    obtain ⟨_, between, hn, hrest⟩ := outcome_bind_ok h
    rw [List.cons_append, renderNodes, outcome_bind_of_ok hn]
    exact ih hrest

/-- A fragment fails with the failure of the node that it has reached. -/
theorem Fragment.Reaches.fails {fragment : Fragment} {scope : Scope} {w : World} {visit : Visit}
    (h : fragment.Reaches e scope w visit) (hfails : visit.outcome e = some (.error f, after)) :
    (renderFragment e (visit.depth + 1) fragment scope).outcome w =
      some (.error (f.locate fragment.place), after) := by
  cases h with
  | @intro depth before rest n defined v hnodes hdefine hbefore =>
    have hfails : (renderNode e (renderFragment e depth) scope n).outcome v =
        some (.error f, after) := hfails
    have hreached : (renderNodes e (renderFragment e depth) scope fragment.nodes).outcome defined =
        some (.error f, after) := by
      rw [hnodes, outcome_renderNodes_append hbefore, renderNodes]
      exact outcome_bind_of_error hfails
    show (defineInlines fragment.nodes >>= fun _ => _).outcome w = _
    rw [outcome_bind_of_ok hdefine]
    exact outcome_mapFailure_of_error hreached

/-- A built-in helper fails with the failure of a clause that it has asked for. -/
theorem invoke_of_failing_clause {render : Renderer} {helper : Helper} {which : Builtin}
    {subject : Value} {call : Call} {clauses : Clauses} {called asked : World} {what : Markup}
    {inner : Scope} {clause : Fragment} (hwhich : helper.behaviour = .builtin which)
    (hasks : (which.act subject call).Asks (answer e render call clauses) called
      (.render what inner) asked)
    (hclause : fragmentOf e clauses what = .ok clause)
    (hfails : (render clause inner).outcome { asked with output := "" } = some (.error f, after)) :
    (invoke e render helper subject call clauses).outcome called =
      some (.error (f.fromHelper call.helper), { after with output := asked.output }) := by
  have hanswer : (answer e render call clauses (.render what inner)).outcome asked =
      some (.error f, { after with output := asked.output }) := by
    show (Render.ofExcept (fragmentOf e clauses what) >>= fun fragment => _).outcome asked = _
    rw [hclause]
    show (Render.captured (render clause inner)).outcome asked = _
    rw [Render.captured, outcome_ofOutcome, hfails]
    rfl
  unfold invoke
  rw [Helper.act, hwhich]
  exact outcome_mapFailure_of_error
    ((Builtin.act_forwards which subject call).outcome_of_asks hasks hanswer)

/-- A section fails as the node in its clause does, but for what becomes of the failure on its way
out; its frame is gone. -/
theorem Opens.fails {outer visit : Visit} {layer : Layer} (h : Opens e outer layer visit)
    (hfails : visit.outcome e = some (.error f, after)) (hframes : 1 < after.side.frames.all.length) :
    ∃ after', outer.outcome e = some (.error (layer.pass f), after') ∧
      after'.side.frames.all.length + 1 = after.side.frames.all.length := by
  obtain ⟨popped, hpop, hlength⟩ := Frames.pop_of_length hframes
  cases h with
  | @intro scope inner head body inverse w called asked told which what clause _ hcalls hwhich
      hasks hclause hreaches =>
    obtain ⟨pushed, defined, hpush, hdefine, hcall⟩ := hcalls
    let restored : World := { after with output := asked.output }
    refine ⟨restored.withFrames popped, ?_, hlength⟩
    have hvalue : (blockValue e (renderFragment e (visit.depth + 1)) scope head.placed body
        ⟨head.elsePlace, inverse.getD []⟩).outcome defined =
          some (.error ((f.locate clause.place).fromHelper told.call.helper), restored) := by
      rw [blockValue_eq, outcome_bind_of_ok hcall]
      exact invoke_of_failing_clause hwhich hasks hclause (hreaches.fails hfails)
    have hinside : (insideBlock e (renderFragment e (visit.depth + 1)) scope head.placed body
        ⟨head.elsePlace, inverse.getD []⟩).outcome (w.withFrames pushed) =
          some (.error (Layer.pass ⟨head, told, called, what, clause⟩ f), restored) := by
      rw [insideBlock_eq, outcome_bind_of_ok hdefine]
      exact outcome_mapFailure_of_error (outcome_bind_of_error hvalue)
    have hrestored : restored.side.frames.pop = .ok popped := hpop
    show (renderBlock _ _ _ _ _ ⟨head.elsePlace, inverse.getD []⟩).outcome w = _
    rw [renderBlock_eq, outcome_inFrame, hpush]
    simp only [hinside, Option.bind_some, hrestored]

/-- Sections nested to any depth fail as the node inside them does, but for what becomes of the
failure on its way out of each, by induction on the sections. -/
theorem Nesting.fails {outer inner : Visit} {layers : List Layer} (h : Nesting e outer layers inner)
    (hfails : inner.outcome e = some (.error f, after))
    (hframes : layers.length < after.side.frames.all.length) :
    ∃ after', outer.outcome e = some (.error (layers.foldr Layer.pass f), after') ∧
      after'.side.frames.all.length + layers.length = after.side.frames.all.length := by
  induction h with
  | here visit => exact ⟨after, hfails, rfl⟩
  | @inside outer between inner layer layers hopens _ ih =>
    rw [List.length_cons] at hframes
    obtain ⟨middle, hmiddle, hlength⟩ := ih hfails (by omega)
    obtain ⟨after', houter, hpopped⟩ := hopens.fails hmiddle (by omega)
    refine ⟨after', houter, ?_⟩
    rw [List.length_cons]
    omega

end

/-! ### What becomes of a failure -/

/-- A failure that is no fault is at most blamed on a place on its way out of a section. -/
theorem Layer.pass_of_not_fault (layer : Layer) {f : Failure} (h : ∀ cause, f ≠ .fault cause) :
    ∃ place, layer.pass f = f.locate place := by
  cases f with
  | fault cause => exact absurd rfl (h cause)
  | render cause place =>
    cases place with
    | some place => exact ⟨none, rfl⟩
    | none =>
      show ∃ place, Failure.locate layer.head.place (.render cause layer.clause.place) = _
      cases layer.clause.place with
      | some place => exact ⟨some place, rfl⟩
      | none => exact ⟨layer.head.place, rfl⟩
  | notFound | scan | parse => exact ⟨none, rfl⟩

theorem Failure.locate_not_fault {f : Failure} (h : ∀ cause, f ≠ .fault cause)
    (place : Option Location) (cause : Fault) : f.locate place ≠ .fault cause := by
  cases f with
  | fault cause' => exact absurd rfl (h cause')
  | render cause' known => cases known <;> exact fun heq => nomatch heq
  | notFound | scan | parse => exact fun heq => nomatch heq

/-- A second place does not replace the first one. -/
theorem Failure.locate_locate (f : Failure) (place other : Option Location) :
    ∃ known, (f.locate place).locate other = f.locate known := by
  cases f with
  | render cause known =>
    cases known with
    | some known => exact ⟨none, rfl⟩
    | none =>
      cases place with
      | some place => exact ⟨some place, rfl⟩
      | none => exact ⟨other, rfl⟩
  | notFound | scan | parse | fault => exact ⟨none, rfl⟩

/-- So it is however many sections it leaves, by induction on the sections. -/
theorem foldr_pass_of_not_fault (layers : List Layer) {f : Failure} (h : ∀ cause, f ≠ .fault cause) :
    ∃ place, layers.foldr Layer.pass f = f.locate place := by
  induction layers with
  | nil =>
    refine ⟨none, ?_⟩
    cases f with
    | render cause place => cases place <;> rfl
    | _ => rfl
  | cons layer layers ih =>
    obtain ⟨place, hrest⟩ := ih
    obtain ⟨other, hpass⟩ := layer.pass_of_not_fault (Failure.locate_not_fault h place)
    rw [List.foldr_cons, hrest, hpass]
    exact Failure.locate_locate f place other

/-- A fault is blamed on the helper of the innermost section, and stays a render error from there
on. -/
theorem foldr_pass_fault (layers : List Layer) (layer : Layer) (cause : Fault) :
    ∃ place, (layers ++ [layer]).foldr Layer.pass (.fault cause) =
      .render (.helperFailed layer.told.call.helper cause) place := by
  rw [List.foldr_append]
  have hblamed : [layer].foldr Layer.pass (.fault cause) =
      .render (.helperFailed layer.told.call.helper cause) layer.head.place := rfl
  rw [hblamed]
  obtain ⟨place, hpassed⟩ := foldr_pass_of_not_fault layers
    (f := .render (.helperFailed layer.told.call.helper cause) layer.head.place)
    fun _ heq => nomatch heq
  rw [hpassed]
  cases layer.head.place with
  | some known => exact ⟨some known, rfl⟩
  | none => exact ⟨place, rfl⟩

/-- What reaches the outside of sections nested to any depth. A failure of the template's own is the
one of the node inside, blamed on a place at most. A fault is not: from the first section on it is
blamed on the helper of that section, the innermost one, which has only rendered its clause. -/
theorem fault_blamed_on_innermost {e : Engine} {outer inner : Visit} {layers : List Layer}
    (h : Nesting e outer layers inner) {f : Failure} {after : World}
    (hfails : inner.outcome e = some (.error f, after))
    (hframes : layers.length < after.side.frames.all.length) :
    ∃ g after', outer.outcome e = some (.error g, after') ∧ (layers = [] → g = f) ∧
      (∀ others layer cause, layers = others ++ [layer] → f = .fault cause →
        ∃ place, g = .render (.helperFailed layer.told.call.helper cause) place) ∧
      ((∀ cause, f ≠ .fault cause) → ∃ place, g = f.locate place) := by
  obtain ⟨after', houter, -⟩ := h.fails hfails hframes
  refine ⟨_, after', houter, ?_, ?_, foldr_pass_of_not_fault layers⟩
  · rintro rfl
    rfl
  · rintro others layer cause rfl rfl
    exact foldr_pass_fault others layer cause

/-- Data with a function that raises. -/
def raisingScope : Scope :=
  .ofModel (.map 0 [(.text "t", .bool true), (.text "f", .function 1 (.raises "boom"))])
    Resolver.standard

/-- The tag of that function. -/
def raisingTag : Node := .output none .plain { name := "f" } .standard

/-- The section `if t` around some nodes. -/
def ifTrue (body : List Node) : Node :=
  .block
    { place := none, inverted := false,
      call := { name := "if", args := [.reference "t"], helper := some ⟨0, .builtin .branch⟩ },
      blockParams := [], label := .word, elsePlace := none, delimiters := .standard }
    (some body) none

theorem fault_blamed_on_innermost_raising :
    ∃ layer inner after, Nesting .standard ⟨1, raisingScope, ifTrue [raisingTag], {}⟩ [layer] inner ∧
      inner.outcome .standard = some (.error (.fault (.raised .runtime "boom")), after) ∧
      ∃ place after', Visit.outcome .standard ⟨1, raisingScope, ifTrue [raisingTag], {}⟩ =
        some (.error (.render (.helperFailed "if" (.raised .runtime "boom")) place), after') := by
  let inner : Visit :=
    ⟨0, raisingScope, raisingTag, { side := ⟨[], .stack [[], []]⟩, nextLabel := 1 }⟩
  obtain ⟨layer, hopens, hblamed⟩ : ∃ layer, Opens .standard
      ⟨1, raisingScope, ifTrue [raisingTag], {}⟩ layer inner ∧ layer.told.call.helper = "if" :=
    ⟨_, .intro ⟨_, _, rfl, rfl, rfl⟩ rfl .now rfl (.first rfl rfl), rfl⟩
  have hnested : Nesting .standard ⟨1, raisingScope, ifTrue [raisingTag], {}⟩ [layer] inner :=
    .inside hopens (.here inner)
  have hfails : inner.outcome .standard = some (.error (.fault (.raised .runtime "boom")),
      { inner.world with nextLabel := 2 }) := rfl
  obtain ⟨g, after', houter, -, hfault, -⟩ :=
    fault_blamed_on_innermost hnested hfails (Nat.lt_succ_self 1)
  obtain ⟨place, rfl⟩ := hfault [] layer _ rfl rfl
  rw [hblamed] at houter
  exact ⟨layer, inner, _, hnested, hfails, place, after', houter⟩

/-- What a function raises reaches the outside as it is from a tag on its own, and blamed on the
helper `if` from a tag inside a section. -/
theorem raised_fault_blamed_on_if :
    ((renderNode .standard (renderFragment .standard 3) raisingScope raisingTag).outcome {}).map
        (·.1) = some (.error (.fault (.raised .runtime "boom"))) ∧
      ((renderNode .standard (renderFragment .standard 3) raisingScope
        (ifTrue [raisingTag])).outcome {}).map (·.1) =
          some (.error (.render (.helperFailed "if" (.raised .runtime "boom")) none)) :=
  ⟨rfl, rfl⟩

end Stencil
