import Mathlib.Data.List.Forall2
import Stencil.Proofs.Render.Determined

/-!
# Iterations

A section that iterates has one frame for its inline partials, not one for each item: what one item
leaves in it is there for the next. All that can be left there are inline partials, and an item
leaves none but those of the body itself unless a partial that it renders defines some. As long as no
item leaves more, the section writes what the body writes for each item on its own, one after the
other.
-/

namespace Stencil

open Render

/-! ### What a body defines -/

/-- The inline partial that some nodes define under a name: the last one counts. -/
def Node.inline? (name : String) : List Node → Option InlinePartial
  | [] => none
  | .inlinePartial _ known body _ :: rest =>
    (inline? name rest).or (if name = known then some (.nodes body) else none)
  | _ :: rest => inline? name rest

/-- Partials with those that some nodes define in front of them. -/
def Partials.behind (nodes : List Node) (partials : Partials) : Partials :=
  fun name => (Node.inline? name nodes).or (partials name)

namespace Partials

/-- Defining the same partials again changes nothing. -/
theorem behind_behind (nodes : List Node) (partials : Partials) :
    (partials.behind nodes).behind nodes = partials.behind nodes := by
  funext name
  unfold behind
  cases Node.inline? name nodes <;> rfl

theorem behind_inlinePartial (partials : Partials) (place : Option Location) (name : String)
    (body : List Node) (marks : Delimiters) (rest : List Node) :
    partials.behind (.inlinePartial place name body marks :: rest) =
      behind rest fun other => if other = name then some (.nodes body) else partials other := by
  funext other
  show ((Node.inline? other rest).or (if other = name then some (.nodes body) else none)).or
    (partials other) = (Node.inline? other rest).or
      (if other = name then some (.nodes body) else partials other)
  rw [Option.or_assoc]
  by_cases h : other = name
  · rw [if_pos h, if_pos h, Option.some_or]
  · rw [if_neg h, if_neg h, Option.none_or]

end Partials

/-- Where there is an innermost frame, definitions are put into it. -/
theorem outcome_defineInlines_top (nodes : List Node) {w : World} {top : Frame}
    {below : List Frame} (h : w.side.frames = .stack (top :: below)) :
    ∃ left : Frame, (defineInlines nodes).outcome w =
        some (.ok (), w.withFrames (.stack (left :: below))) ∧
      (left.lookup ·) = Partials.behind nodes (top.lookup ·) := by
  induction nodes generalizing w top with
  | nil => exact ⟨top, by rw [← h]; rfl, rfl⟩
  | cons n rest ih =>
    cases n with
    | inlinePartial place name body marks =>
      obtain ⟨left, hrun, hleft⟩ :=
        ih (w := w.withFrames (.stack (Frame.define name (.nodes body) top :: below))) rfl
      refine ⟨left, ?_, ?_⟩
      · show (Render.changeFrames _ >>= fun _ => defineInlines rest).outcome w = _
        rw [outcome_bind, outcome_changeFrames, h]
        exact hrun
      · rw [hleft, Partials.behind_inlinePartial]
        refine congrArg (Partials.behind rest) (funext fun other => ?_)
        rw [Frame.define_eq, Table.lookup_put]
    | _ => exact ih h

/-- Defining the inline partials of some nodes puts them in front of those that are shown. -/
theorem outcome_defineInlines (nodes : List Node) {w : World} {partials : Partials}
    (h : w.side.frames.shown = .ok partials) :
    ∃ frames, (defineInlines nodes).outcome w = some (.ok (), w.withFrames frames) ∧
      frames.shown = .ok (partials.behind nodes) := by
  cases hframes : w.side.frames with
  | foreign v =>
    rw [hframes] at h
    cases h
  | stack frames =>
    rw [hframes] at h
    cases frames with
    | nil => cases h
    | cons top below =>
      cases h
      obtain ⟨left, hrun, hleft⟩ := outcome_defineInlines_top nodes hframes
      exact ⟨_, hrun, congrArg Except.ok hleft⟩

/-! ### One item -/

/-- A fragment is rendered after its inline partials are defined. -/
theorem outcome_renderFragment {e : Engine} (depth : Nat) (fragment : Fragment) (scope : Scope)
    {w : World} {partials : Partials} (h : w.side.frames.shown = .ok partials) :
    ∃ frames, (renderFragment e (depth + 1) fragment scope).outcome w =
        (Render.located fragment.place
          (renderNodes e (renderFragment e depth) scope fragment.nodes)).outcome
            (w.withFrames frames) ∧
      (defineInlines fragment.nodes).outcome w = some (.ok (), w.withFrames frames) ∧
      frames.shown = .ok (partials.behind fragment.nodes) := by
  obtain ⟨frames, hrun, hframes⟩ := outcome_defineInlines fragment.nodes h
  refine ⟨frames, ?_, hrun, hframes⟩
  show (defineInlines fragment.nodes >>= fun _ => _).outcome w = _
  rw [Render.outcome_bind, hrun]
  rfl

/-- A body renders on its own in a scope, with an output of its own. It writes a text, and besides
those that it defines itself it leaves no inline partials that were not there before. -/
def WritesAlone (e : Engine) (depth : Nat) (body : List Node) (w : World) (partials : Partials)
    (scope : Scope) (text : String) : Prop :=
  ∃ after, (renderFragment e depth ⟨none, body⟩ scope).outcome { w with output := "" } =
      some (.ok (), after) ∧
    after.output = text ∧ after.side.frames.shown = .ok (partials.behind body)

/-- The entries that a list or a mapping is iterated over, each a key with an item: the items of a
list are counted. -/
inductive Iterates : Value → List (Value × Value) → Prop where
  | list (label : Label) (items : List Value) : Iterates (.list label items) (Builtin.numbered items)
  | tuple (label : Label) (items : List Value) :
      Iterates (.tuple label items) (Builtin.numbered items)
  | map (label : Label) (entries : List (Value × Value)) : Iterates (.map label entries) entries

namespace Iterates

variable {v : Value} {entries : List (Value × Value)}

/-- Collections are no texts and no functions, so they are what they are transformed to. -/
theorem transform (h : Iterates v entries) (t : Transformer) (label : Label) :
    t.apply label v = v := by
  cases h <;> cases t <;> rfl

theorem still (h : Iterates v entries) (hv : v.Still) :
    ∀ entry ∈ entries, entry.1.Still ∧ entry.2.Still := by
  cases h with
  | list | tuple => exact Regime.numbered_all Regime.still_closed hv.inner
  | map label =>
    exact fun entry hentry =>
      ⟨hv.inner _ (Value.mem_inner_map hentry).1, hv.inner _ (Value.mem_inner_map hentry).2⟩

/-- The helper `each` goes through these entries. -/
theorem outcome_each (h : Iterates v entries) (e : Engine) (render : Renderer) (call : Call)
    (clauses : Clauses) (u : World) :
    ((Builtin.each.act v call).perform (answer e render call clauses)).outcome u =
      ((Builtin.eachOf call entries).perform (answer e render call clauses)).outcome u := by
  cases h with
  | list label items | tuple label items =>
    show (Action.perform _ ((Action.request (.items _)).bind fun items =>
      Builtin.eachOf call (Builtin.numbered items))).outcome u = _
    rw [Action.perform_request_bind]
    rfl
  | map => rfl

end Iterates

/-- The scope of one item: a child for the item with the variables of the iteration, and the declared
names bound to the item and its key. -/
def iterationScope (scope : Scope) (blockParams : List String) (count index : Nat)
    (entry : Value × Value) : Scope :=
  let inner := scope.child entry.2 (Builtin.iterationVariables index count entry.1)
  if blockParams.isEmpty then inner
  else inner.withBindings (Bindings.ofPairs (blockParams.zip [entry.2, entry.1]))

theorem iterationScope_still {scope : Scope} (hscope : scope.All Value.Still)
    (blockParams : List String) (count index : Nat) {entry : Value × Value} (hkey : entry.1.Still)
    (hitem : entry.2.Still) :
    (iterationScope scope blockParams count index entry).All Value.Still := by
  have hvariables : (Builtin.iterationVariables index count entry.1).All Value.Still :=
    Regime.iterationVariables_all Regime.still_closed index count hkey
  have hinner := hscope.child hitem hvariables
  unfold iterationScope
  split
  · exact hinner
  · refine hinner.withBindings (Bindings.All.ofPairs (Bindings.All.zip ?_))
    exact List.forall_mem_cons.2 ⟨hitem, List.forall_mem_singleton.2 hkey⟩

section

variable {e : Engine} (he : e.Still) {w : World} (hw : w.Still) {body : List Node}
  (hbody : Node.AllBuiltIn body) {partials : Partials}
  (hpartials : w.side.frames.shown = .ok partials) {depth : Nat}

include he hw hbody hpartials

/-- What a body writes on its own it writes wherever the same is seen and its own inline partials are
defined already, and it leaves what is seen as it was. -/
theorem outcome_iteration {scope : Scope} (hscope : scope.All Value.Still) {text : String}
    (halone : WritesAlone e (depth + 1) body w partials scope text) {u : World} (hu : u.Still)
    (hseen : u.view e = { w.view e with partials := .ok (partials.behind body) }) :
    ∃ after, (Render.captured (renderFragment e (depth + 1) ⟨none, body⟩ scope)).outcome u =
        some (.ok text, after) ∧
      after.Still ∧ after.view e = u.view e ∧ after.output = u.output := by
  obtain ⟨own, hown, rfl, hleft⟩ := halone
  have hshown : u.side.frames.shown = .ok (partials.behind body) := congrArg View.partials hseen
  have hinlines : Determined e (defineInlines body) fun _ => True := determined_defineInlines hbody
  have hnodes : Determined e (Render.located none
      (renderNodes e (renderFragment e depth) scope body)) fun _ => True :=
    .located none (determined_renderNodes he (renderFragment_determined he depth) hscope hbody)
  -- Both renders come to the nodes of the body with the same to be seen.
  obtain ⟨frames, hfragment, hdefine, hframes⟩ :=
    outcome_renderFragment (e := e) depth ⟨none, body⟩ scope (w := { w with output := "" }) hpartials
  obtain ⟨frames', hfragment', hdefine', hframes'⟩ :=
    outcome_renderFragment (e := e) depth ⟨none, body⟩ scope (w := { u with output := "" }) hshown
  rw [Partials.behind_behind] at hframes'
  have hstill := (hinlines.still (hw.withOutput "") hdefine).1
  have hstill' := (hinlines.still (hu.withOutput "") hdefine').1
  have hsame : (World.withFrames { u with output := "" } frames').view e =
      (World.withFrames { w with output := "" } frames).view e := by
    show (⟨u.side.data, frames'.shown, e.templateAt u.cache⟩ : View) =
      ⟨w.side.data, frames.shown, e.templateAt w.cache⟩
    have hdata : u.side.data = w.side.data := congrArg View.data hseen
    have htemplates : e.templateAt u.cache = e.templateAt w.cache := congrArg View.templates hseen
    rw [hframes, hframes', hdata, htemplates]
  rw [hfragment] at hown
  obtain ⟨after, written, hrun, hafter, houtput, houtput'⟩ :=
    hnodes.transfer hstill hstill' hsame hown
  have hview := hnodes.view_after hstill hown
  refine ⟨{ after with output := u.output }, ?_, (hnodes.still hstill' hrun).1.withOutput _, ?_, rfl⟩
  · rw [Render.captured, outcome_ofOutcome, hfragment', hrun]
    show some (Except.ok after.output, _) = _
    rw [houtput', houtput]
    rfl
  · show after.view e = u.view e
    rw [hafter, hview, hseen, hleft]
    rfl

/-! ### All items -/

/-- The texts of the items are put together, by induction on the items: every item is rendered where
the same is to be seen as where the first one was. -/
theorem outcome_eachEntry {call : Call} (hscope : call.scope.All Value.Still) {clauses : Clauses}
    (hclauses : clauses.body = ⟨none, body⟩) {count : Nat} {entries : List (Value × Value)}
    (hentries : ∀ entry ∈ entries, entry.1.Still ∧ entry.2.Still) {index : Nat}
    {texts : List String}
    (halone : List.Forall₂ (fun item text => WritesAlone e (depth + 1) body w partials
      (iterationScope call.scope call.blockParams count item.2 item.1) text)
      (entries.zipIdx index) texts) {u : World} (hu : u.Still)
    (hseen : u.view e = { w.view e with partials := .ok (partials.behind body) }) :
    ∃ after, ((Builtin.eachEntry call count index entries).perform
        (answer e (renderFragment e (depth + 1)) call clauses)).outcome u =
          some (.ok (String.join texts), after) ∧
      after.Still ∧ after.view e = u.view e ∧ after.output = u.output := by
  induction entries generalizing index texts u with
  | nil =>
    cases halone
    exact ⟨u, rfl, hu, rfl, rfl⟩
  | cons entry rest ih =>
    obtain ⟨⟨hkey, hitem⟩, hrest⟩ := List.forall_mem_cons.1 hentries
    rw [List.zipIdx_cons] at halone
    cases halone with
    | @cons _ text _ texts hfirst hothers =>
      have hown := iterationScope_still hscope call.blockParams count index hkey hitem
      obtain ⟨between, hrun, hstill, hview, houtput⟩ :=
        outcome_iteration he hw hbody hpartials hown hfirst hu hseen
      obtain ⟨after, hrun', hstill', hview', houtput'⟩ :=
        ih hrest hothers hstill (hview.trans hseen)
      refine ⟨after, ?_, hstill', hview'.trans hview, houtput'.trans houtput⟩
      have hanswer : (answer e (renderFragment e (depth + 1)) call clauses (.render .body
          (iterationScope call.scope call.blockParams count index entry))).outcome u =
            some (.ok text, between) := by
        rw [← hrun, ← hclauses]
        rfl
      show (Action.perform _ ((Action.request (.render .body
        (iterationScope call.scope call.blockParams count index entry))).bind fun text =>
          (Builtin.eachEntry call count (index + 1) rest).bind fun others =>
            Action.done (text ++ others))).outcome u = _
      rw [Action.perform_request_bind, Render.outcome_bind_of_ok hanswer, Action.perform_bind,
        Render.outcome_bind_of_ok hrun', String.join_cons]
      rfl

/-- The answer of `each`: the texts of the items together, or nothing where there are none and there
is no else clause either. -/
theorem outcome_eachOf (call : Call) (clauses : Clauses) (hscope : call.scope.All Value.Still)
    (hclauses : clauses.body = ⟨none, body⟩) (hinverse : clauses.inverse.nodes = [])
    {entries : List (Value × Value)} (hentries : ∀ entry ∈ entries, entry.1.Still ∧ entry.2.Still)
    {texts : List String}
    (halone : List.Forall₂ (fun item text => WritesAlone e (depth + 1) body w partials
      (iterationScope call.scope call.blockParams entries.length item.2 item.1) text)
      entries.zipIdx texts) {u : World} (hu : u.Still)
    (hseen : u.view e = { w.view e with partials := .ok (partials.behind body) }) :
    ∃ after, ((Builtin.eachOf call entries).perform
        (answer e (renderFragment e (depth + 1)) call clauses)).outcome u =
          some (.ok (.text (String.join texts)), after) ∧
      after.view e = u.view e ∧ after.output = u.output := by
  cases entries with
  | nil =>
    cases halone
    obtain ⟨clause, ⟨place, nodes⟩, hasSink⟩ := clauses
    have hnodes : nodes = [] := hinverse
    subst hnodes
    exact ⟨u, rfl, rfl, rfl⟩
  | cons entry rest =>
    obtain ⟨after, hrun, -, hview, houtput⟩ :=
      outcome_eachEntry he hw hbody hpartials hscope hclauses hentries halone hu hseen
    refine ⟨after, ?_, hview, houtput⟩
    show (Action.perform _ ((Builtin.eachEntry call (rest.length + 1) 0 (entry :: rest)).bind
      fun text => Action.done (Value.text text))).outcome u = _
    rw [Action.perform_bind]
    exact (Render.outcome_bind_of_ok hrun).trans rfl

/-- What `each` is told by a section that names what it iterates over. -/
def eachCall (scope : Scope) (blockParams : List String) : Call :=
  { helper := "each", tag := .block, scope, params := [], hash := [], blockParams, arity := 1 }

omit he hw hbody hpartials in
theorem outcome_sectionCall (body : List Node) (render : Renderer) {scope : Scope}
    {head : BlockHead} {reference : String} {helper : Helper}
    (hcall : head.call =
      { name := "each", args := [.reference reference], helper := some helper })
    {u : World} {v : Value} (hv : scope.get u.side.readable reference = .ok v)
    (htransform : ∀ label, e.transformer.apply label v = v) :
    (sectionCall e render scope head body).outcome u =
      some (.ok ⟨helper, v, eachCall scope head.blockParams, ⟨none, body⟩⟩,
        { u with nextLabel := u.nextLabel + 1 }) := by
  have hget : (Render.get scope reference).outcome u = some (.ok v, u) := by
    rw [outcome_get, hv]
  have hsubject : (transform e v).outcome u =
      some (.ok v, { u with nextLabel := u.nextLabel + 1 }) := by
    show some (Except.ok (e.transformer.apply u.nextLabel v), _) = _
    rw [htransform]
  unfold sectionCall
  rw [hcall]
  dsimp only
  rw [subjectOf, argument, Render.outcome_bind_of_ok hget, Render.outcome_bind_of_ok hsubject]
  rfl

/-- What the helper of such a section answers once the inline partials of the body are defined. -/
theorem outcome_blockValue {scope : Scope} (hscope : scope.All Value.Still) {head : BlockHead}
    {reference : String} {helper : Helper}
    (hcall : head.call =
      { name := "each", args := [.reference reference], helper := some helper })
    (hhelper : helper.behaviour = .builtin .each) {v : Value} {entries : List (Value × Value)}
    (hv : scope.get w.side.readable reference = .ok v) (hentries : Iterates v entries)
    {texts : List String}
    (halone : List.Forall₂ (fun item text => WritesAlone e (depth + 1) body w partials
      (iterationScope scope head.blockParams entries.length item.2 item.1) text)
      entries.zipIdx texts) {frames : Frames} (hdefined : (w.withFrames frames).Still)
    (hframes : frames.shown = .ok (partials.behind body)) :
    ∃ after, (blockValue e (renderFragment e (depth + 1)) scope head body
        ⟨head.elsePlace, []⟩).outcome (w.withFrames frames) =
          some (.ok (.text (String.join texts)), after) ∧
      after.output = w.output ∧ after.side.data = w.side.data := by
  have hreading := Scope.get_meets membersKeep_still (.literal .null) hscope hw.holds.readable
  have hstill : v.Still := (hreading reference).of_ok hv
  have htold := outcome_sectionCall body (renderFragment e (depth + 1)) hcall
    (u := w.withFrames frames) hv (hentries.transform e.transformer)
  have hcalled : World.Still { w.withFrames frames with nextLabel := w.nextLabel + 1 } :=
    ⟨hdefined.data, hdefined.partials, hdefined.cache⟩
  have hseen : World.view e { w.withFrames frames with nextLabel := w.nextLabel + 1 } =
      { w.view e with partials := .ok (partials.behind body) } := by
    rw [← hframes]
    rfl
  obtain ⟨after, hrun, hview, houtput⟩ :=
    outcome_eachOf he hw hbody hpartials (eachCall scope head.blockParams)
      ⟨⟨none, body⟩, ⟨head.elsePlace, []⟩, true⟩ hscope rfl rfl (hentries.still hstill) halone
      hcalled hseen
  have hperform := (hentries.outcome_each e _ _ _ _).trans hrun
  refine ⟨after, ?_, houtput, congrArg View.data (hview.trans hseen)⟩
  rw [blockValue_eq, Render.outcome_bind_of_ok htold]
  unfold invoke
  rw [Helper.act, hhelper]
  exact congrArg (Option.map _) hperform

/-- What happens inside the frame of such a section: the texts of the items are written. -/
theorem outcome_insideBlock {scope : Scope} (hscope : scope.All Value.Still) {head : BlockHead}
    {reference : String} {helper : Helper}
    (hcall : head.call =
      { name := "each", args := [.reference reference], helper := some helper })
    (hhelper : helper.behaviour = .builtin .each) {v : Value} {entries : List (Value × Value)}
    (hv : scope.get w.side.readable reference = .ok v) (hentries : Iterates v entries)
    {texts : List String}
    (halone : List.Forall₂ (fun item text => WritesAlone e (depth + 1) body w partials
      (iterationScope scope head.blockParams entries.length item.2 item.1) text)
      entries.zipIdx texts) {pushed : Frames} (hpush : w.side.frames.push = .ok pushed)
    (hpushed : pushed.shown = .ok partials) :
    ∃ after, (insideBlock e (renderFragment e (depth + 1)) scope head body
        ⟨head.elsePlace, []⟩).outcome (w.withFrames pushed) = some (.ok (), after) ∧
      after.output = w.output ++ String.join texts ∧ after.side.data = w.side.data := by
  have hinner : World.Still (w.withFrames pushed) :=
    ⟨hw.data, hw.partials.push hpush, hw.cache⟩
  obtain ⟨frames, hdefine, hframes⟩ :=
    outcome_defineInlines body (w := w.withFrames pushed) hpushed
  have hdefined := ((determined_defineInlines (e := e) hbody).still hinner hdefine).1
  obtain ⟨after, hvalue, houtput, hdata⟩ := outcome_blockValue he hw hbody hpartials hscope hcall
    hhelper hv hentries halone hdefined hframes
  refine ⟨{ after with output := after.output ++ String.join texts }, ?_, ?_, hdata⟩
  · rw [insideBlock_eq, Render.outcome_bind_of_ok hdefine]
    show Option.map _ ((_ >>= writeAnswer).outcome (w.withFrames frames)) = _
    rw [Render.outcome_bind_of_ok hvalue, outcome_writeAnswer_text]
    rfl
  · show after.output ++ _ = _
    rw [houtput]

/-- Iterations are independent as long as none leaves an inline partial that is not the body's own.
Against still data and with the built-in helpers, a section that iterates over a list or a mapping
writes, one after the other, what its body writes for each item when it is rendered on its own, in
the scope of that item and with the partials that are visible where the section stands. -/
theorem items_written_in_order {scope : Scope} (hscope : scope.All Value.Still) {head : BlockHead}
    {reference : String} {helper : Helper}
    (hcall : head.call =
      { name := "each", args := [.reference reference], helper := some helper })
    (hhelper : helper.behaviour = .builtin .each) {v : Value} {entries : List (Value × Value)}
    (hv : scope.get w.side.readable reference = .ok v) (hentries : Iterates v entries)
    {texts : List String}
    (halone : List.Forall₂ (fun item text => WritesAlone e (depth + 1) body w partials
      (iterationScope scope head.blockParams entries.length item.2 item.1) text)
      entries.zipIdx texts) :
    ∃ after, (renderNode e (renderFragment e (depth + 1)) scope
        (.block head (some body) none)).outcome w = some (.ok (), after) ∧
      after.output = w.output ++ String.join texts ∧ after.side = w.side := by
  obtain ⟨known, pushed, hknown, hpush, hpushed⟩ | ⟨cause, hcause, -⟩ := w.side.frames.push_eq
  case inr =>
    rw [hpartials] at hcause
    cases hcause
  cases Except.ok.inj (hpartials.symm.trans hknown)
  -- The tag has no literals, so its place changes nothing in it.
  have hplaced : head.placed.call =
      { name := "each", args := [.reference reference], helper := some helper } := by
    rw [BlockHead.placed, hcall]
    rfl
  obtain ⟨after, (hinside : (insideBlock _ _ _ _ _ ⟨head.elsePlace, []⟩).outcome _ = _), houtput,
    hdata⟩ := outcome_insideBlock he hw hbody hpartials hscope hplaced hhelper hv hentries halone hpush
      hpushed
  have hbound : ∀ b ∈ head.placed.call.ownBound ++ head.placed.call.argBound, b.IsBuiltIn := by
    rw [hplaced]
    exact List.forall_mem_singleton.2 ⟨.each, hhelper, rfl⟩
  have hdetermined : Determined e (insideBlock e (renderFragment e (depth + 1)) scope head.placed
      body ⟨head.elsePlace, []⟩) fun _ => True :=
    determined_insideBlock he (renderFragment_determined he _) hscope hbound hbody Node.Every.nil
  have hpop := (Regime.pop_inFrame hdetermined.keeps hw.holds hpush hinside).1
  refine ⟨after.withFrames w.side.frames, ?_, houtput, ?_⟩
  · show (renderBlock _ _ _ _ _ ⟨head.elsePlace, []⟩).outcome w = _
    rw [renderBlock_eq, outcome_inFrame, hpush]
    simp only [hinside, Option.bind_some, hpop]
  · show (⟨after.side.data, w.side.frames⟩ : SideChannel) = w.side
    rw [hdata]

end

/-- Data in which `xs` is a list of two texts. -/
def pairScope : Scope :=
  .ofModel (.map 0 [(.text "xs", .list 1 [.text "a", .text "b"])]) Resolver.standard

/-- The section `each xs`. -/
def eachPair : BlockHead :=
  { place := none, inverted := false,
    call := { name := "each", args := [.reference "xs"], helper := some ⟨0, .builtin .each⟩ },
    blockParams := ["x"], label := .word, elsePlace := none, delimiters := .standard }

/-- A body that defines an inline partial and renders it behind its item. -/
def dashed : List Node :=
  [.inlinePartial none "q" [.text none "-"] .standard,
    .output none .plain { name := "x" } .standard, .inclusion none "q" [] [] .standard]

theorem pairScope_still : pairScope.All Value.Still := by
  have htext (s : String) : (Value.text s).Still := .literal (.text s)
  refine Scope.All.ofModel (.intro rfl rfl fun u hu => ?_) _
  simp only [Value.inner, List.flatMap_cons, List.flatMap_nil, List.append_nil, List.mem_cons,
    List.not_mem_nil, or_false] at hu
  rcases hu with rfl | rfl
  · exact htext "xs"
  · refine .intro rfl rfl (List.forall_mem_cons.2 ⟨htext "a", ?_⟩)
    exact List.forall_mem_singleton.2 (htext "b")

theorem dashed_allBuiltIn : Node.AllBuiltIn dashed := by
  intro n hn b hb
  simp only [dashed, Node.withinAll, Node.within, List.append_nil, List.mem_cons,
    List.cons_append, List.nil_append, List.not_mem_nil, or_false] at hn
  rcases hn with rfl | rfl | rfl | rfl <;> exact absurd hb List.not_mem_nil

/-- Where no partials are visible, the body leaves its own. -/
theorem shown_dashed : Frames.shown (.stack [[("q", .nodes [.text none "-"])]]) =
    .ok (Partials.behind dashed fun _ => none) := by
  refine congrArg Except.ok (funext fun name => ?_)
  by_cases h : name = "q"
  · subst h
    rfl
  · show [("q", InlinePartial.nodes [.text none "-"])].lookup name = _
    rw [Table.lookup_cons_of_ne h]
    simp [Partials.behind, dashed, Node.inline?, h]

theorem items_written_in_order_dashed :
    ∃ after, (renderNode .standard (renderFragment .standard 3) pairScope
        (.block eachPair (some dashed) none)).outcome {} = some (.ok (), after) ∧
      after.output = "a-b-" ∧ after.side = {} := by
  have hw : World.Still {} := ⟨Bindings.All.nil, Frames.Every.initial, Cache.Gives.none⟩
  have hfirst : WritesAlone .standard 3 dashed {} (fun _ => none)
      (iterationScope pairScope ["x"] 2 0 (.int 0, .text "a")) "a-" :=
    ⟨{ side := ⟨[], .stack [[("q", .nodes [.text none "-"])]]⟩, nextLabel := 1, output := "a-" },
      rfl, rfl, shown_dashed⟩
  have hsecond : WritesAlone .standard 3 dashed {} (fun _ => none)
      (iterationScope pairScope ["x"] 2 1 (.int 1, .text "b")) "b-" :=
    ⟨{ side := ⟨[], .stack [[("q", .nodes [.text none "-"])]]⟩, nextLabel := 1, output := "b-" },
      rfl, rfl, shown_dashed⟩
  have hcall : eachPair.call =
      { name := "each", args := [.reference "xs"], helper := some ⟨0, .builtin .each⟩ } := rfl
  have hpair : pairScope.get ({} : World).side.readable "xs" =
      .ok (.list 1 [.text "a", .text "b"]) := rfl
  exact items_written_in_order .standard hw dashed_allBuiltIn rfl pairScope_still hcall rfl hpair
    (.list 1 _) (.cons hfirst (.cons hsecond .nil))

/-- An engine with a partial that defines an inline partial in front of another partial. -/
def leakyEngine : Engine :=
  { Engine.standard with
    loader := .memory ⟨⟨"", ""⟩,
      [("p", "\x7b\x7b#*inline \"q\"\x7d\x7dB\x7b\x7b/inline\x7d\x7d"), ("q", "A")]⟩ }

/-- A body that renders the one partial and then the other, which defines the first anew. -/
def leaky : List Node :=
  [.inclusion none "q" [] [] .standard, .inclusion none "p" [] [] .standard]

/-- An inline partial that a partial defines in one item is seen by the next: on its own every item
writes the same. -/
theorem items_not_independent :
    ((renderNode leakyEngine (renderFragment leakyEngine 3) pairScope
        (.block eachPair (some leaky) none)).outcome {}).map (·.2.output) = some "AB" ∧
      ((renderFragment leakyEngine 3 ⟨none, leaky⟩
        (iterationScope pairScope ["x"] 2 0 (.int 0, .text "a"))).outcome {}).map (·.2.output) =
          some "A" ∧
      ((renderFragment leakyEngine 3 ⟨none, leaky⟩
        (iterationScope pairScope ["x"] 2 1 (.int 1, .text "b"))).outcome {}).map (·.2.output) =
          some "A" := by
  decide +kernel

end Stencil
