import Stencil.Proofs.Helper.Asking
import Stencil.Proofs.Render.ElseClause
import Stencil.Proofs.Render.Iterations

/-!
# Which clauses the built-in helpers ask for

The built-in helpers for sections ask for few things: the items of what they iterate over, and their
clauses. In which scopes they have them rendered, and when it is the body that they have rendered, is
shown here for each of them.
-/

namespace Stencil

open Render

namespace Builtin

/-- The entries that `each` goes through: those of a mapping with their keys, or the items of what
else can be iterated over, drawn where they can be drawn only once. -/
inductive GoesThrough (subject : Value) (w : World) : List (Value × Value) → Prop where
  | mapping {label : Label} {entries : List (Value × Value)} :
      subject = .map label entries → GoesThrough subject w entries
  | items {found : List Value} {after : World} : subject.isIterable = true →
      (Render.items subject).outcome w = some (.ok found, after) →
      GoesThrough subject w (numbered found)

section

variable {e : Engine} {render : Renderer} {call : Call} {clauses : Clauses} {w asked : World}
  {what : Markup} {inner : Scope} {subject : Value}

/-- A clause rendered into the answer of a helper is all that is asked for. -/
theorem asks_renderText_iff {q : Request} {clause : Markup} {scope : Scope} :
    Action.Asks (answer e render call clauses)
        (do pure (Value.text (← Action.request (.render clause scope)))) w q asked ↔
      q = .render clause scope ∧ asked = w := by
  constructor
  · intro h
    rcases Action.asks_request_bind_iff.1 h with h | ⟨text, between, -, h⟩
    · exact h
    · exact absurd h Action.not_asks_done
  · intro h
    exact Action.asks_request_bind_iff.2 (.inl h)

/-- The iterations ask for the body, in the scope of each entry. -/
theorem asks_eachEntry {count index : Nat} {entries : List (Value × Value)}
    (h : (eachEntry call count index entries).Asks (answer e render call clauses) w
      (.render what inner) asked) :
    what = .body ∧ ∃ i entry, entries[i]? = some entry ∧
      inner = iterationScope call.scope call.blockParams count (index + i) entry := by
  induction entries generalizing index w with
  | nil => exact absurd h Action.not_asks_done
  | cons entry rest ih =>
    rcases Action.asks_request_bind_iff.1 h with ⟨heq, -⟩ | ⟨text, between, -, h⟩
    · cases heq
      exact ⟨rfl, 0, entry, rfl, rfl⟩
    · rcases h.of_bind with h | ⟨others, after, -, h⟩
      · obtain ⟨hwhat, i, other, hother, hinner⟩ := ih h
        refine ⟨hwhat, i + 1, other, hother, ?_⟩
        rw [hinner, Nat.add_right_comm, Nat.add_assoc]
      · exact absurd h Action.not_asks_done

/-- Without entries the inverse is asked for, and otherwise the body for each entry. -/
theorem asks_eachOf {entries : List (Value × Value)}
    (h : (eachOf call entries).Asks (answer e render call clauses) w (.render what inner) asked) :
    (entries = [] ∧ what = .inverse ∧ inner = call.scope) ∨
      what = .body ∧ ∃ index entry, entries[index]? = some entry ∧
        inner = iterationScope call.scope call.blockParams entries.length index entry := by
  unfold eachOf at h
  split at h
  · rename_i hempty
    obtain ⟨heq, -⟩ := asks_renderText_iff.1 h
    cases heq
    exact .inl ⟨List.isEmpty_iff.1 hempty, rfl, rfl⟩
  · rcases h.of_bind with h | ⟨text, after, -, h⟩
    · obtain ⟨hwhat, index, entry, hentry, hinner⟩ := asks_eachEntry h
      rw [Nat.zero_add] at hinner
      exact .inr ⟨hwhat, index, entry, hentry, hinner⟩
    · exact absurd h Action.not_asks_done

/-- What `each` asks to be rendered: the body in the scope of one of the entries, or the inverse in
the scope of the call. -/
theorem asks_each (h : (each.act subject call).Asks (answer e render call clauses) w
    (.render what inner) asked) :
    (what = .inverse ∧ inner = call.scope) ∨
      what = .body ∧ ∃ entries index entry, GoesThrough subject w entries ∧
        entries[index]? = some entry ∧
        inner = iterationScope call.scope call.blockParams entries.length index entry := by
  by_cases hmap : ∃ label entries, subject = .map label entries
  · obtain ⟨label, entries, rfl⟩ := hmap
    have h : (eachOf call entries).Asks _ w _ asked := h
    rcases asks_eachOf h with ⟨-, h⟩ | ⟨hwhat, index, entry, hentry, hinner⟩
    · exact .inl h
    · exact .inr ⟨hwhat, entries, index, entry, .mapping rfl, hentry, hinner⟩
  · rw [each_of_not_map call fun label entries heq => hmap ⟨label, entries, heq⟩] at h
    by_cases hiterable : subject.isIterable = true
    · rw [if_pos hiterable] at h
      rcases Action.asks_request_bind_iff.1 h with ⟨heq, -⟩ | ⟨found, after, hfound, h⟩
      · cases heq
      · rcases asks_eachOf h with ⟨-, h⟩ | ⟨hwhat, index, entry, hentry, hinner⟩
        · exact .inl h
        · exact .inr ⟨hwhat, _, index, entry, .items hiterable hfound, hentry, hinner⟩
    · rw [if_neg hiterable] at h
      obtain ⟨heq, -⟩ := asks_renderText_iff.1 h
      cases heq
      exact .inl ⟨rfl, rfl⟩

theorem not_asks_displayAll {values : List Value} :
    ¬(displayAll values).Asks (answer e render call clauses) w (.render what inner) asked := by
  induction values generalizing w with
  | nil => exact Action.not_asks_done
  | cons v rest ih =>
    intro h
    rcases Action.asks_request_bind_iff.1 h with ⟨heq, -⟩ | ⟨text, between, -, h⟩
    · cases heq
    · rcases h.of_bind with h | ⟨others, after, -, h⟩
      · exact ih h
      · exact Action.not_asks_done h

/-- The other built-in helpers render nothing. -/
theorem not_asks_render {which : Builtin} (hwhich : which ∉ [each, branch, negate, enter]) :
    ¬(which.act subject call).Asks (answer e render call clauses) w (.render what inner) asked := by
  intro h
  cases which with
  | each | branch | negate | enter => simp at hwhich
  | lookup =>
    unfold act at h
    dsimp only at h
    split at h
    · cases h
    · split at h
      · cases h
      · rcases Action.asks_request_bind_iff.1 h with ⟨heq, -⟩ | ⟨name, after, -, h⟩
        · cases heq
        · split at h <;> cases h
  | log =>
    rcases h.of_bind with h | ⟨texts, after, -, h⟩
    · exact not_asks_displayAll h
    · rcases Action.asks_request_bind_iff.1 h with ⟨heq, -⟩ | ⟨_, after, -, h⟩
      · cases heq
      · cases h
  | missing => cases h

/-- One clause or the other, depending on the subject, is what a helper that decides asks for. -/
theorem asks_choice {p : Prop} [Decidable p] {clause other : Markup} {scope scope' : Scope}
    (h : Action.Asks (answer e render call clauses)
      (if p then do pure (Value.text (← Action.request (.render clause scope)))
        else do pure (Value.text (← Action.request (.render other scope')))) w
      (.render what inner) asked) :
    (p ∧ what = clause ∧ inner = scope) ∨ (¬p ∧ what = other ∧ inner = scope') := by
  by_cases hp : p
  · rw [if_pos hp] at h
    obtain ⟨heq, -⟩ := asks_renderText_iff.1 h
    cases heq
    exact .inl ⟨hp, rfl, rfl⟩
  · rw [if_neg hp] at h
    obtain ⟨heq, -⟩ := asks_renderText_iff.1 h
    cases heq
    exact .inr ⟨hp, rfl, rfl⟩

/-- All that built-in helpers ask to be rendered: the inverse in the scope of the call; and the body
there, in a child for the subject, or in the scope of an entry. -/
theorem asks_render {which : Builtin}
    (h : (which.act subject call).Asks (answer e render call clauses) w (.render what inner)
      asked) :
    (what = .inverse ∧ inner = call.scope) ∨
      what = .body ∧ (inner = call.scope ∨ inner = call.scope.child subject [] ∨
        ∃ count index entry, which = .each ∧
          inner = iterationScope call.scope call.blockParams count index entry) := by
  cases which with
  | each =>
    rcases asks_each h with h | ⟨hwhat, entries, index, entry, -, -, hinner⟩
    · exact .inl h
    · exact .inr ⟨hwhat, .inr (.inr ⟨entries.length, index, entry, rfl, hinner⟩)⟩
  | branch =>
    rcases asks_choice h with ⟨-, h⟩ | ⟨-, hwhat, hinner⟩
    · exact .inl h
    · exact .inr ⟨hwhat, .inl hinner⟩
  | negate =>
    rcases asks_choice h with ⟨-, hwhat, hinner⟩ | ⟨-, h⟩
    · exact .inr ⟨hwhat, .inl hinner⟩
    · exact .inl h
  | enter =>
    rcases asks_choice h with ⟨-, h⟩ | ⟨-, hwhat, hinner⟩
    · exact .inl h
    · refine .inr ⟨hwhat, ?_⟩
      rw [hinner]
      unfold Call.scopeFor
      split
      · exact .inl rfl
      · exact .inr (.inl rfl)
  | lookup | log | missing => exact absurd h (not_asks_render (by simp))

/-! ### When the body is rendered -/

/-- When a built-in helper for sections has the body rendered: it goes through at least one entry, or
its subject is as it should be. -/
def Accepts (subject : Value) (call : Call) (w : World) : Builtin → Prop
  | each => ∃ entries, GoesThrough subject w entries ∧ entries ≠ []
  | branch | enter => call.isFalsy subject = false
  | negate => call.isFalsy subject = true
  | _ => False

/-- The body for the first entry is asked for at once. -/
theorem eachOf_asks_body {entries : List (Value × Value)} (h : entries ≠ []) :
    ∃ inner, (eachOf call entries).Asks (answer e render call clauses) w (.render .body inner) w := by
  cases entries with
  | nil => exact absurd rfl h
  | cons entry rest =>
    have hfirst : (eachEntry call (rest.length + 1) 0 (entry :: rest)).Asks
        (answer e render call clauses) w
        (.render .body (iterationScope call.scope call.blockParams (rest.length + 1) 0 entry)) w :=
      Action.asks_request_bind_iff.2 (.inl ⟨rfl, rfl⟩)
    exact ⟨_, hfirst.bind _⟩

theorem each_asks_body (h : each.Accepts subject call w) :
    ∃ inner asked, (each.act subject call).Asks (answer e render call clauses) w
      (.render .body inner) asked := by
  obtain ⟨entries, hthrough, hentries⟩ := h
  have hasks (u : World) : ∃ inner, (eachOf call entries).Asks (answer e render call clauses) u
      (.render .body inner) u := eachOf_asks_body hentries
  cases hthrough with
  | mapping hsubject =>
    subst hsubject
    obtain ⟨inner, hasks⟩ := hasks w
    exact ⟨inner, w, hasks⟩
  | @items found after hiterable hfound =>
    have hmap : ∀ label entries, subject ≠ .map label entries := by
      rintro label entries rfl
      cases hiterable
    obtain ⟨inner, hasks⟩ := hasks after
    refine ⟨inner, after, ?_⟩
    rw [each_of_not_map call hmap, if_pos hiterable]
    exact Action.asks_request_bind_iff.2 (.inr ⟨found, after, hfound, hasks⟩)

/-- A built-in helper asks for the body exactly when it accepts its subject. -/
theorem asks_body_iff {which : Builtin} :
    (∃ inner asked, (which.act subject call).Asks (answer e render call clauses) w
      (.render .body inner) asked) ↔ which.Accepts subject call w := by
  constructor
  · rintro ⟨inner, asked, h⟩
    cases which with
    | each =>
      rcases asks_each h with ⟨hwhat, -⟩ | ⟨-, entries, index, entry, hthrough, hentry, -⟩
      · cases hwhat
      · refine ⟨entries, hthrough, ?_⟩
        rintro rfl
        cases hentry
    | branch | enter =>
      rcases asks_choice h with ⟨-, hwhat, -⟩ | ⟨hfalsy, -⟩
      · cases hwhat
      · exact eq_false_of_ne_true hfalsy
    | negate =>
      rcases asks_choice h with ⟨hfalsy, -⟩ | ⟨-, hwhat, -⟩
      · exact hfalsy
      · cases hwhat
    | lookup | log | missing => exact absurd h (not_asks_render (by simp))
  · intro h
    cases which with
    | each => exact each_asks_body h
    | branch =>
      have hfalsy : call.isFalsy subject = false := h
      refine ⟨call.scope, w, ?_⟩
      rw [act, hfalsy]
      exact asks_renderText_iff.2 ⟨rfl, rfl⟩
    | negate =>
      have hfalsy : call.isFalsy subject = true := h
      refine ⟨call.scope, w, ?_⟩
      rw [act, hfalsy]
      exact asks_renderText_iff.2 ⟨rfl, rfl⟩
    | enter =>
      have hfalsy : call.isFalsy subject = false := h
      refine ⟨call.scopeFor subject, w, ?_⟩
      rw [act, hfalsy]
      exact asks_renderText_iff.2 ⟨rfl, rfl⟩
    | lookup | log | missing => exact h.elim

end

end Builtin

end Stencil
