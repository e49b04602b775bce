import Stencil.Proofs.Value.Clean

/-!
# Still data

Still data holds nothing that can be called and nothing that can be drawn only once, at any depth.
It is the same whenever it is looked at: its text and its items do not depend on what was drawn
before, and no transformer makes a new value of it.
-/

namespace Stencil

namespace Value

/-- Iterators: values whose items are gone once they are drawn. -/
def isIterator : Value → Bool
  | iterator .. => true
  | _ => false

/-- Data without callables and iterators, at any depth, keys of mappings included. -/
inductive Still : Value → Prop where
  | intro {v : Value} : v.isCallable = false → v.isIterator = false → (∀ u ∈ v.inner, Still u) →
      Still v

namespace Still

variable {v : Value}

theorem not_callable (h : v.Still) : v.isCallable = false := by
  cases h with
  | intro hcallable _ _ => exact hcallable

theorem not_iterator (h : v.Still) : v.isIterator = false := by
  cases h with
  | intro _ hiterator _ => exact hiterator

theorem inner (h : v.Still) : ∀ u ∈ v.inner, u.Still := by
  cases h with
  | intro _ _ hinner => exact hinner

/-- Still data is no lambda. -/
theorem not_lambda (h : v.Still) : v.isLambda = false := not_lambda_of_not_callable h.not_callable

theorem of_scalar (hcallable : v.isCallable = false) (hiterator : v.isIterator = false)
    (hinner : v.inner = []) : v.Still :=
  .intro hcallable hiterator fun u hu => by
    rw [hinner] at hu
    exact nomatch hu

theorem literal (l : Literal) : l.value.Still := by
  cases l <;> exact of_scalar rfl rfl rfl

theorem int (n : Particular Int) : (Value.int n).Still := literal (.integer n)

theorem float (x : Particular Float) : (Value.float x).Still := literal (.decimal x)

end Still

/-- Values are displayed as one text whatever has been drawn, and nothing is drawn by it, when this
is so for each of them. -/
theorem displays_still {items : List Value}
    (h : ∀ v ∈ items, ∃ text : Except Fault String, ∀ drawn, v.display drawn = text.map (·, drawn)) :
    ∃ parts : Except Fault (List String), ∀ drawn, displays drawn items = parts.map (·, drawn) := by
  induction items with
  | nil => exact ⟨.ok [], fun drawn => by rw [displays]; rfl⟩
  | cons v rest ih =>
    obtain ⟨⟨text, hv⟩, hrest⟩ := List.forall_mem_cons.1 h
    obtain ⟨parts, hparts⟩ := ih hrest
    refine ⟨do pure ((← text) :: (← parts)), fun drawn => ?_⟩
    rw [displays, hv]
    cases text with
    | error cause => rfl
    | ok first =>
      show (displays drawn rest >>= fun found => pure (first :: found.1, found.2)) = _
      rw [hparts]
      cases parts <;> rfl

/-- The text of still data does not depend on what has been drawn, by induction on the value. -/
theorem Still.display (v : Value) (hv : v.Still) :
    ∃ text : Except Fault String, ∀ drawn, v.display drawn = text.map (·, drawn) := by
  induction v using Value.induct with
  | step v ih =>
    have hinner : ∀ u ∈ v.inner, ∃ text : Except Fault String, ∀ drawn,
        u.display drawn = text.map (·, drawn) :=
      fun u hu => ih u hu (hv.inner u hu)
    have hliteral (h : ∀ drawn, v.display drawn = do pure (← v.literal, drawn)) :
        ∃ text : Except Fault String, ∀ drawn, v.display drawn = text.map (·, drawn) := by
      refine ⟨v.literal, fun drawn => ?_⟩
      rw [h]
      cases v.literal <;> rfl
    cases v with
    | null => exact ⟨.ok "", fun drawn => by rw [Value.display]; rfl⟩
    | bool b => exact ⟨.ok (if b then "true" else "false"), fun drawn => by rw [Value.display]; rfl⟩
    | text s | safe s => exact ⟨.ok s, fun drawn => by rw [Value.display]; rfl⟩
    | list label items | tuple label items =>
      obtain ⟨parts, hparts⟩ : ∃ parts : Except Fault (List String), ∀ drawn,
          displays drawn items = parts.map (·, drawn) := displays_still hinner
      refine ⟨parts.map (",".intercalate ·), fun drawn => ?_⟩
      rw [Value.display, hparts]
      cases parts <;> rfl
    | iterator label items => exact absurd hv.not_iterator (by simp [isIterator])
    | _ =>
      refine hliteral fun drawn => ?_
      rw [Value.display]
      all_goals simp

end Value

/-- Members of still data are still. -/
theorem membersKeep_still : MembersKeep Value.Still :=
  .of_inner Value.Still.int Value.Still.inner Value.Still.float fun _ _ _ h => by
    exact absurd h.not_callable (by simp [Value.isCallable])

/-- A transformer that puts only still data in place of texts. -/
def Transformer.Still : Transformer → Prop
  | lambdas table => ∀ entry ∈ table, entry.2.Still
  | identity => True

theorem Transformer.Still.standard : Transformer.standard.Still := fun _ h => nomatch h

/-- Still data becomes still data, the same whatever label is free. -/
theorem Transformer.Still.apply {t : Transformer} (ht : t.Still) {v : Value} (hv : v.Still) :
    ∃ u : Value, u.Still ∧ ∀ label, t.apply label v = u := by
  cases t with
  | identity => exact ⟨v, hv, fun _ => rfl⟩
  | lambdas table =>
    unfold Transformer.apply
    dsimp only
    split
    · rename_i other hother
      obtain ⟨s, -, hs⟩ := Option.bind_eq_some_iff.1 hother
      have hstill := ht (s, other) (Table.mem_of_lookup hs)
      exact ⟨other, hstill, fun label => lift_of_not_callable label hstill.not_callable⟩
    · exact ⟨v, hv, fun label => lift_of_not_callable label hv.not_callable⟩

end Stencil
