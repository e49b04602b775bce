import Stencil.Proofs.Render.Holding

/-!
# Steps that append to the output

A render only ever writes: nothing that it does looks at what has been written before. So a step comes
to the same whatever the output is when it begins, and what it writes follows what is there. This
holds in every engine and of every helper, because it holds of the elementary steps and is kept by the
ways in which steps are put together.
-/

namespace Stencil

/-- The world if `before` had been written before everything else. -/
def World.behind (before : String) (w : World) : World := { w with output := before ++ w.output }

/-- The world with nothing written. -/
def World.blank (w : World) : World := { w with output := "" }

namespace World

@[simp] theorem behind_output (before : String) (w : World) :
    (w.behind before).output = before ++ w.output := rfl

@[simp] theorem blank_output (w : World) : w.blank.output = "" := rfl

@[simp] theorem blank_behind (before : String) (w : World) : (w.behind before).blank = w.blank := rfl

@[simp] theorem behind_blank (w : World) : w.blank.behind w.output = w := by
  simp [behind, blank]

theorem blank_of_output {w : World} (h : w.output = "") : w.blank = w := by
  rw [blank, ← h]

theorem behind_behind (before then_ : String) (w : World) :
    (w.behind then_).behind before = w.behind (before ++ then_) := by
  simp [behind, String.append_assoc]

end World

namespace Render

variable {α β : Type}

/-- A step that appends to the output, and otherwise does not depend on it. -/
def Appends (m : Render α) : Prop :=
  ∀ w : World, m.outcome w = (m.outcome w.blank).map fun (r, after) => (r, after.behind w.output)

namespace Appends

variable {m : Render α}

/-- What is known of how a step ends tells how it ends with an empty output, and the other way
round. -/
theorem outcome_blank (h : m.Appends) {w after : World} {r : Except Failure α}
    (hr : m.outcome w = some (r, after)) :
    ∃ written, m.outcome w.blank = some (r, written) ∧ after = written.behind w.output := by
  rw [h w] at hr
  obtain ⟨⟨r', written⟩, hblank, heq⟩ := Option.map_eq_some_iff.1 hr
  cases heq
  exact ⟨written, hblank, rfl⟩

theorem of_blank (h : m.Appends) {w written : World} {r : Except Failure α}
    (hr : m.outcome w.blank = some (r, written)) :
    m.outcome w = some (r, written.behind w.output) := by
  rw [h w, hr]
  rfl

/-! ### Ways of putting steps together -/

theorem bind {k : α → Render β} (hm : m.Appends)
    (hk : ∀ a w after, m.outcome w = some (.ok a, after) → (k a).Appends) :
    (m >>= k).Appends := by
  intro w
  cases hr : m.outcome w.blank with
  | none =>
    rw [outcome_bind, outcome_bind, hm w, hr]
    rfl
  | some ended =>
    obtain ⟨r, between⟩ := ended
    cases r with
    | error f =>
      rw [outcome_bind_of_error hr, outcome_bind_of_error (hm.of_blank hr)]
      rfl
    | ok a =>
      have hnext := hk a _ between hr
      rw [outcome_bind_of_ok hr, outcome_bind_of_ok (hm.of_blank hr), hnext (between.behind _),
        hnext between, Option.map_map, World.blank_behind]
      congr 1
      funext ended
      exact Prod.ext rfl (World.behind_behind _ _ _).symm

theorem observe (hm : m.Appends) : (Render.observe m).Appends := by
  intro w
  rw [Render.observe, outcome_ofOutcome, outcome_ofOutcome, hm w, Option.map_map, Option.map_map]
  rfl

theorem mapFailure (g : Failure → Failure) (hm : m.Appends) : (Render.mapFailure g m).Appends := by
  intro w
  rw [Render.mapFailure, outcome_ofOutcome, outcome_ofOutcome, hm w, Option.map_map,
    Option.map_map]
  rfl

/-- A step whose output is kept apart begins with an empty one anyway. -/
theorem captured (m : Render Unit) : (Render.captured m).Appends := by
  intro w
  rw [Render.captured, outcome_ofOutcome, outcome_ofOutcome, Option.map_map]
  congr 1
  funext ended
  refine Prod.ext rfl ?_
  simp [World.behind, World.blank]

theorem inFrame (hm : m.Appends) : (Render.inFrame m).Appends := by
  intro w
  cases hpush : w.side.frames.push with
  | error cause =>
    have hblank : w.blank.side.frames.push = .error cause := hpush
    rw [outcome_inFrame, outcome_inFrame, hpush, hblank]
    simp
  | ok pushed =>
    have hblank : w.blank.side.frames.push = .ok pushed := hpush
    rw [outcome_inFrame_of_push hpush, outcome_inFrame_of_push hblank, hm, Option.map_map,
      Option.map_map]
    congr 1
    funext ended
    unfold popped
    dsimp only [Function.comp_apply, World.behind]
    split <;> rfl

/-! ### Elementary steps -/

/-- A step that always ends in the same way and leaves the world as it is. -/
theorem const {r : Except Failure α} (h : ∀ w, m.outcome w = some (r, w)) : m.Appends := by
  intro w
  simp [h]

theorem pure (a : α) : Appends (Pure.pure a) := const fun _ => rfl

theorem throw (f : Failure) : Appends (MonadExcept.throw f : Render α) := const fun _ => rfl

theorem ofExcept (x : Except Failure α) : (Render.ofExcept x).Appends :=
  const (outcome_ofExcept x)

theorem ofFault (x : Except Fault α) : (Render.ofFault x).Appends := by
  cases x with
  | ok a => exact .pure a
  | error cause => exact .throw (.fault cause)

theorem read {f : World → α} (h : ∀ w : World, f w = f w.blank) : (Render.read f).Appends := by
  intro w
  simp [Render.read, ← h w]

theorem update {f : World → World} (h : ∀ w : World, f w = (f w.blank).behind w.output) :
    (Render.update f).Appends := by
  intro w
  simp [Render.update, ← h w]

/-- A sequence whose second step appends whatever the first one comes to. -/
theorem andThen {k : α → Render β} (hm : m.Appends) (hk : ∀ a, (k a).Appends) :
    (m >>= k).Appends := hm.bind fun a _ _ _ => hk a

theorem get (scope : Scope) (reference : String) : (Render.get scope reference).Appends :=
  (read fun _ => rfl).andThen fun _ => ofExcept _

/-- Steps that note down which iterators have been drawn. -/
theorem draw (drawn : World → List Label) (h : ∀ w : World, drawn w = drawn w.blank) :
    (Render.update fun w => { w with drawn := drawn w }).Appends := by
  refine update fun w => ?_
  rw [h w]
  simp [World.behind, World.blank]

theorem display (v : Value) : (Render.display v).Appends :=
  (read fun _ => rfl).andThen fun _ => (ofFault _).andThen fun found =>
    (draw (fun _ => found.2) fun _ => rfl).andThen fun _ => pure found.1

theorem items (v : Value) : (Render.items v).Appends := by
  cases v with
  | iterator label found =>
    refine (read fun _ => rfl).andThen fun drawn => ?_
    split
    · exact pure _
    · exact (draw (fun w => label :: w.drawn) fun _ => rfl).andThen fun _ => pure found
  | _ => exact pure _

theorem emit (s : String) : (Render.emit s).Appends :=
  update fun w => by simp [World.behind, World.blank]

theorem freshLabel : Render.freshLabel.Appends := by
  intro w
  simp [Render.freshLabel, World.behind, World.blank]

theorem changeFrames (f : Frames → Except Fault Frames) : (Render.changeFrames f).Appends := by
  refine (read fun _ => rfl).andThen fun frames => (ofFault _).andThen fun changed => ?_
  exact update fun w => by simp [World.behind, World.blank]

/-- Compiling through the cache. -/
theorem compiled (e : Engine) (name : String) : (partialOf.compiled e name).Appends := by
  intro w
  simp [partialOf.compiled, World.behind, World.blank]

end Appends

end Render

namespace Material

open Render

variable {M : Material} {e : Engine} {α : Type} {V : α → Prop}

/-- Elementary steps append to the output: only one of them writes at all. -/
theorem Elementary.appends {m : Render α} (h : M.Elementary e m V) : m.Appends := by
  cases h with
  | pure => exact .pure _
  | throw f => exact .throw f
  | get scope reference => exact .get scope reference
  | display v => exact .display v
  | items v => exact .items v
  | freshLabel => exact .freshLabel
  | emit text => exact .emit text
  | partials | data | frames => exact .read fun _ => rfl
  | define => exact .changeFrames _
  | compiled name => exact .compiled e name
  | setData | note => exact .update fun w => by simp [World.behind, World.blank]
  | log level message =>
    refine .update fun w => ?_
    split <;> simp [World.behind, World.blank]

theorem Composed.appends {m : Renderer → Render α} (h : any.Composed e m V) {render : Renderer}
    (hrender : ∀ fragment scope, (render fragment scope).Appends) : (m render).Appends := by
  induction h with
  | elementary h => exact h.appends
  | fragment scope _ => exact hrender _ scope
  | bind hm _ ihm ihk => exact ihm.bind fun a w after hr => ihk a (hm.gives hr)
  | observe _ ih => exact ih.observe
  | mapFailure g _ ih => exact ih.mapFailure g
  | captured _ _ => exact .captured _
  | inFrame _ ih => exact ih.inFrame

end Material

open Material

/-- Whatever is rendered, what has been written before makes no difference to it, by induction on how
deep fragments nest. -/
theorem renderFragment_appends (e : Engine) (depth : Nat) (fragment : Fragment) (scope : Scope) :
    (renderFragment e depth fragment scope).Appends := by
  induction depth generalizing fragment scope with
  | zero => exact fun _ => rfl
  | succ depth ih =>
    exact (composed_fragment (any_lawful e) trivial fragment scope
      (whole (fun _ _ => trivial) fun _ _ => trivial)).appends ih

theorem renderNode_appends (e : Engine) (depth : Nat) (scope : Scope) (n : Node) :
    (renderNode e (renderFragment e depth) scope n).Appends :=
  (composed_renderNode (any_lawful e) scope
    (whole (fun _ _ => trivial) fun _ _ => trivial) fun _ => trivial).appends
      (renderFragment_appends e depth)

end Stencil
