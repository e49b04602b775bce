import Stencil.Proofs.Agreement
import Stencil.Proofs.Render.Sections

/-!
# Steps that match

Two steps match with respect to a relation of worlds when from related worlds both come to nothing,
or both end alike in worlds that are related again. There is one rule for each way in which steps
are put together. What becomes of the output, of the frames and of the rest of a world is up to the
relation.
-/

namespace Stencil

namespace Render

/-- What two steps that match come to: both to nothing, or both to results that are related by `V`
or to the same failure, in worlds that are related by `W`. -/
inductive EndsMatch {α β : Type} (W : World → World → Prop) (V : α → β → Prop) :
    Option (Except Failure α × World) → Option (Except Failure β × World) → Prop where
  | nothing : EndsMatch W V none none
  | ends {r : Except Failure α} {r' : Except Failure β} {after after' : World} :
      Agree Eq V r r' → W after after' → EndsMatch W V (some (r, after)) (some (r', after'))

/-- Steps that end alike in worlds that are alike. -/
def Matches {α β : Type} (W : World → World → Prop) (m : Render α) (m' : Render β)
    (V : α → β → Prop) : Prop :=
  ∀ w w', W w w' → EndsMatch W V (m.outcome w) (m'.outcome w')

namespace Matches

variable {W : World → World → Prop} {α β γ δ : Type} {m : Render α} {m' : Render β}
  {V : α → β → Prop} {U : γ → δ → Prop}

theorem pure {a : α} {b : β} (h : V a b) : Matches W (Pure.pure a) (Pure.pure b) V :=
  fun _ _ hw => .ends (.ok h) hw

theorem throw (f : Failure) : Matches W (MonadExcept.throw f) (MonadExcept.throw f) V :=
  fun _ _ hw => .ends (.error rfl) hw

theorem exhausted : Matches W Render.exhausted Render.exhausted V := fun _ _ _ => .nothing

/-- Steps whose ends are told in another way. -/
theorem of_retold {n : Render γ} {n' : Render δ} {g : Except Failure α → Except Failure γ}
    {g' : Except Failure β → Except Failure δ} (hm : Matches W m m' V)
    (hn : ∀ w, n.outcome w = (m.outcome w).map fun x => (g x.1, x.2))
    (hn' : ∀ w, n'.outcome w = (m'.outcome w).map fun x => (g' x.1, x.2))
    (hg : ∀ r r', Agree Eq V r r' → Agree Eq U (g r) (g' r')) : Matches W n n' U := by
  intro w w' hw
  have hends := hm w w' hw
  rw [hn, hn']
  generalize m.outcome w = x at hends ⊢
  generalize m'.outcome w' = y at hends ⊢
  cases hends with
  | nothing => exact .nothing
  | ends hagree hafter => exact .ends (hg _ _ hagree) hafter

theorem mono {V' : α → β → Prop} (h : Matches W m m' V) (hV : ∀ a b, V a b → V' a b) :
    Matches W m m' V' :=
  h.of_retold (fun _ => Option.map_id'.symm) (fun _ => Option.map_id'.symm) fun _ _ hagree =>
    hagree.mono (fun _ _ hf => hf) hV

theorem bind {k : α → Render γ} {k' : β → Render δ} (hm : Matches W m m' V)
    (hk : ∀ a b, V a b → Matches W (k a) (k' b) U) : Matches W (m >>= k) (m' >>= k') U := by
  intro w w' hw
  have hends := hm w w' hw
  rw [outcome_bind, outcome_bind]
  generalize m.outcome w = x at hends ⊢
  generalize m'.outcome w' = y at hends ⊢
  cases hends with
  | nothing => exact .nothing
  | @ends _ _ after after' hagree hafter =>
    cases hagree with
    | ok hab => exact hk _ _ hab after after' hafter
    | error hf => exact .ends (.error hf) hafter

theorem ite {p : Prop} [Decidable p] {n : Render α} {n' : Render β} (hm : p → Matches W m m' V)
    (hn : ¬p → Matches W n n' V) : Matches W (if p then m else n) (if p then m' else n') V := by
  by_cases h : p
  · rw [if_pos h, if_pos h]
    exact hm h
  · rw [if_neg h, if_neg h]
    exact hn h

theorem ofExcept {x : Except Failure α} {y : Except Failure β} (h : Agree Eq V x y) :
    Matches W (Render.ofExcept x) (Render.ofExcept y) V := by
  cases h with
  | ok h => exact .pure h
  | error h =>
    subst h
    exact .throw _

theorem ofFault {x : Except Fault α} {y : Except Fault β} (h : Agree Eq V x y) :
    Matches W (Render.ofFault x) (Render.ofFault y) V := by
  cases h with
  | ok h => exact .pure h
  | error h =>
    subst h
    exact .throw _

theorem read {f : World → α} {f' : World → β} (h : ∀ w w', W w w' → V (f w) (f' w')) :
    Matches W (Render.read f) (Render.read f') V :=
  fun w w' hw => .ends (.ok (h w w' hw)) hw

theorem update {f f' : World → World} (h : ∀ w w', W w w' → W (f w) (f' w')) :
    Matches W (Render.update f) (Render.update f') Eq :=
  fun w w' hw => .ends (.ok rfl) (h w w' hw)

theorem observe (hm : Matches W m m' V) :
    Matches W (Render.observe m) (Render.observe m') (Agree Eq V) :=
  hm.of_retold (fun _ => rfl) (fun _ => rfl) fun _ _ h => .ok h

theorem mapFailure (g : Failure → Failure) (hm : Matches W m m' V) :
    Matches W (Render.mapFailure g m) (Render.mapFailure g m') V := by
  refine hm.of_retold (fun _ => rfl) (fun _ => rfl) fun r r' h => ?_
  cases h with
  | ok h => exact .ok h
  | error h => exact .error (congrArg g h)

theorem located (place : Option Location) (hm : Matches W m m' V) :
    Matches W (Render.located place m) (Render.located place m') V := hm.mapFailure _

/-- A frame of its own, where pushing and popping frames match. -/
theorem inFrame (hpush : Matches W (Render.changeFrames Frames.push)
      (Render.changeFrames Frames.push) fun _ _ => True)
    (hpop : Matches W (Render.changeFrames Frames.pop) (Render.changeFrames Frames.pop)
      fun _ _ => True)
    (hm : Matches W m m' V) : Matches W (Render.inFrame m) (Render.inFrame m') V :=
  hpush.bind fun _ _ _ => hm.observe.bind fun _ _ h => hpop.bind fun _ _ _ => .ofExcept h

end Matches

end Render

end Stencil
