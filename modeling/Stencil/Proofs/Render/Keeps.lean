import Stencil.Proofs.Outcome
import Stencil.Render.World

/-!
# What a step of the world keeps

`Keeps J F m V` says of a step `m` that it takes worlds in which `J` holds to worlds in which `J`
holds, however it ends, that its failures satisfy `F` and its results `V`. There is one rule for
each way in which steps are put together, so an invariant of a render is shown by following the
definition of the render.
-/

namespace Stencil

namespace World

/-- The world with other frames. -/
def withFrames (w : World) (frames : Frames) : World := { w with side := { w.side with frames } }

end World

namespace Render

variable {α β : Type}

/-! ### Outcomes -/

@[simp] theorem outcome_ofOutcome (f : World → Option (Except Failure α × World)) (w : World) :
    (ofOutcome f).outcome w = f w := rfl

/-- A sequence of two steps stops at the first failure. -/
theorem outcome_bind (m : Render α) (k : α → Render β) (w : World) :
    (m >>= k).outcome w = (m.outcome w).bind fun (r, after) =>
      match r with
      | .ok a => (k a).outcome after
      | .error f => some (.error f, after) := by
  change (m.outcome w).bind _ = _
  congr 1
  funext ⟨r, after⟩
  cases r <;> rfl

theorem outcome_changeFrames (f : Frames → Except Fault Frames) (w : World) :
    (changeFrames f).outcome w = match f w.side.frames with
      | .ok frames => some (.ok (), w.withFrames frames)
      | .error cause => some (.error (.fault cause), w) := by
  unfold changeFrames
  rw [outcome_bind]
  simp only [read, outcome_ofOutcome, Option.bind_some, outcome_bind]
  cases f w.side.frames <;> rfl

/-- A frame of its own is pushed before the step and popped after it, however the step ends. -/
theorem outcome_inFrame (m : Render α) (w : World) :
    (inFrame m).outcome w = match w.side.frames.push with
      | .error cause => some (.error (.fault cause), w)
      | .ok pushed => (m.outcome (w.withFrames pushed)).bind fun (r, after) =>
        match after.side.frames.pop with
        | .error cause => some (.error (.fault cause), after)
        | .ok popped => some (r, after.withFrames popped) := by
  unfold inFrame
  rw [outcome_bind, outcome_changeFrames]
  cases w.side.frames.push with
  | error cause => rfl
  | ok pushed =>
    simp only [Option.bind_some, outcome_bind, observe, outcome_ofOutcome]
    cases m.outcome (w.withFrames pushed) with
    | none => rfl
    | some found =>
      obtain ⟨r, after⟩ := found
      simp only [Option.map_some, Option.bind_some, outcome_changeFrames]
      cases after.side.frames.pop with
      | error cause => rfl
      | ok popped => cases r <;> rfl

/-! ### Rules -/

/-- A step keeps an invariant, and its failures and results are of a kind. -/
def Keeps (J : World → Prop) (F : Failure → Prop) (m : Render α) (V : α → Prop) : Prop :=
  ∀ w r after, J w → m.outcome w = some (r, after) → J after ∧ Meets F V r

namespace Keeps

variable {J : World → Prop} {F : Failure → Prop} {m : Render α} {V : α → Prop} {U : β → Prop}

theorem pure {a : α} (h : V a) : Keeps J F (Pure.pure a) V := by
  intro w r after hw hr
  cases hr
  exact ⟨hw, .ok h⟩

theorem throw {f : Failure} (h : F f) : Keeps J F (MonadExcept.throw f) V := by
  intro w r after hw hr
  cases hr
  exact ⟨hw, .error h⟩

theorem exhausted : Keeps J F Render.exhausted V := by
  intro w r after hw hr
  cases hr

theorem ite {p : Prop} [Decidable p] {m' : Render α} (hm : p → Keeps J F m V)
    (hm' : ¬p → Keeps J F m' V) : Keeps J F (if p then m else m') V := by
  by_cases h : p
  · rw [if_pos h]
    exact hm h
  · rw [if_neg h]
    exact hm' h

theorem mono {G : Failure → Prop} {W : α → Prop} (h : Keeps J F m V) (hF : ∀ f, F f → G f)
    (hV : ∀ a, V a → W a) : Keeps J G m W := by
  intro w r after hw hr
  obtain ⟨hafter, hmeets⟩ := h w r after hw hr
  exact ⟨hafter, hmeets.mono hF hV⟩

/-- The results of a step are not looked at. -/
theorem weaken (h : Keeps J F m V) : Keeps J F m fun _ => True :=
  h.mono (fun _ hf => hf) fun _ _ => trivial

theorem bind {k : α → Render β} (hm : Keeps J F m V) (hk : ∀ a, V a → Keeps J F (k a) U) :
    Keeps J F (m >>= k) U := by
  intro w r after hw hr
  rw [outcome_bind, Option.bind_eq_some_iff] at hr
  obtain ⟨⟨r₁, w₁⟩, h₁, hr⟩ := hr
  obtain ⟨hw₁, hmeets⟩ := hm w r₁ w₁ hw h₁
  cases hmeets with
  | ok h => exact hk _ h w₁ r after hw₁ hr
  | error h =>
    cases hr
    exact ⟨hw₁, .error h⟩

theorem ofExcept {x : Except Failure α} (h : Meets F V x) : Keeps J F (Render.ofExcept x) V := by
  cases h with
  | ok h => exact Keeps.pure h
  | error h => exact Keeps.throw h

theorem ofFault {x : Except Fault α} (h : Meets (fun cause => F (.fault cause)) V x) :
    Keeps J F (Render.ofFault x) V := by
  cases h with
  | ok h => exact Keeps.pure h
  | error h => exact Keeps.throw h

theorem read {f : World → α} (h : ∀ w, J w → V (f w)) : Keeps J F (Render.read f) V := by
  intro w r after hw hr
  cases hr
  exact ⟨hw, .ok (h w hw)⟩

theorem update {f : World → World} (h : ∀ w, J w → J (f w)) :
    Keeps J F (Render.update f) fun _ => True := by
  intro w r after hw hr
  cases hr
  exact ⟨h w hw, .ok trivial⟩

theorem freshLabel (h : ∀ w, J w → J { w with nextLabel := w.nextLabel + 1 }) :
    Keeps J F Render.freshLabel fun _ => True := by
  intro w r after hw hr
  cases hr
  exact ⟨h w hw, .ok trivial⟩

theorem observe {G : Failure → Prop} (hm : Keeps J F m V) :
    Keeps J G (Render.observe m) (Meets F V) := by
  intro w r after hw hr
  simp only [Render.observe, outcome_ofOutcome, Option.map_eq_some_iff] at hr
  obtain ⟨⟨r₁, w₁⟩, h₁, hr⟩ := hr
  cases hr
  obtain ⟨hw₁, hmeets⟩ := hm w r₁ w₁ hw h₁
  exact ⟨hw₁, .ok hmeets⟩

theorem mapFailure {G : Failure → Prop} {g : Failure → Failure} (hm : Keeps J F m V)
    (hg : ∀ f, F f → G (g f)) : Keeps J G (Render.mapFailure g m) V := by
  intro w r after hw hr
  simp only [Render.mapFailure, outcome_ofOutcome, Option.map_eq_some_iff] at hr
  obtain ⟨⟨r₁, w₁⟩, h₁, hr⟩ := hr
  cases hr
  obtain ⟨hw₁, hmeets⟩ := hm w r₁ w₁ hw h₁
  exact ⟨hw₁, hmeets.mapError hg⟩

/-- What is written is kept apart: the text has what the invariant says of an output. -/
theorem captured {m : Render Unit} {T : String → Prop} (hm : Keeps J F m fun _ => True)
    (hempty : ∀ w, J w → J { w with output := "" })
    (hrestore : ∀ w before, J w → J before → J { w with output := before.output })
    (htext : ∀ w, J w → T w.output) : Keeps J F (Render.captured m) T := by
  intro w r after hw hr
  simp only [Render.captured, outcome_ofOutcome, Option.map_eq_some_iff] at hr
  obtain ⟨⟨r₁, w₁⟩, h₁, hr⟩ := hr
  cases hr
  obtain ⟨hw₁, hmeets⟩ := hm _ r₁ w₁ (hempty w hw) h₁
  refine ⟨hrestore w₁ w hw₁ hw, ?_⟩
  cases hmeets with
  | ok _ => exact .ok (htext w₁ hw₁)
  | error h => exact .error h

theorem changeFrames {f : Frames → Except Fault Frames}
    (h : ∀ w, J w → Meets (fun cause => F (.fault cause)) (fun frames => J (w.withFrames frames))
      (f w.side.frames)) : Keeps J F (Render.changeFrames f) fun _ => True := by
  intro w r after hw hr
  have hmeets := h w hw
  rw [outcome_changeFrames] at hr
  split at hr
  · rename_i frames hframes
    cases hr
    exact ⟨hmeets.of_ok hframes, .ok trivial⟩
  · rename_i cause hcause
    cases hr
    exact ⟨hw, .error (hmeets.of_error hcause)⟩

end Keeps

end Render

end Stencil
