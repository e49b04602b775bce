import Stencil.Proofs.Source.Expressions

/-!
# The grammar of expressions

A derivation of the grammar is kept as a tree: an argument is a bare text or a call in parentheses,
and a sentence is a name with arguments, named arguments and block parameters. The items of a tree are
what it derives. No two sentences derive the same items, for an argument is told from what stands
behind it by its first two items.
-/

namespace Stencil

open Expression (BeginsArgument Detached)

/-- An argument as the grammar derives it. -/
inductive Phrase where
  | quoted (raw : String)
  | word (raw : String)
  /-- A call in parentheses: its head, its positional arguments and its named ones. -/
  | call (name : String) (args : List Phrase) (hash : List (String × Phrase))

/-- An expression as the grammar derives it. -/
structure Sentence where
  name : String
  args : List Phrase
  hash : List (String × Phrase)
  blockParams : List String

namespace Phrase

/-- What holds of a phrase when it holds of the phrases inside it holds of every phrase. -/
theorem induct {P : Phrase → Prop} (quoted : ∀ raw, P (.quoted raw)) (word : ∀ raw, P (.word raw))
    (call : ∀ name args hash, (∀ p ∈ args, P p) → (∀ entry ∈ hash, P entry.2) →
      P (.call name args hash)) : ∀ p, P p :=
  @Phrase.rec P (fun args => ∀ p ∈ args, P p) (fun hash => ∀ entry ∈ hash, P entry.2)
    (fun entry => P entry.2) quoted word call
    (List.forall_mem_nil _) (fun _ _ hp hrest => List.forall_mem_cons.2 ⟨hp, hrest⟩)
    (List.forall_mem_nil _) (fun _ _ hentry hrest => List.forall_mem_cons.2 ⟨hentry, hrest⟩)
    (fun _ _ hp => hp)

mutual

/-- The items that a phrase derives. -/
def items : Phrase → List Item
  | quoted raw => [.quoted raw]
  | word raw => [.word raw]
  | call name args hash =>
    .openParen :: .word name :: (argItems args ++ (hashItems hash ++ [.closeParen]))

/-- The items of positional arguments. -/
def argItems : List Phrase → List Item
  | [] => []
  | p :: rest => items p ++ argItems rest

/-- The items of named arguments. -/
def hashItems : List (String × Phrase) → List Item
  | [] => []
  | (key, p) :: rest => .word key :: .equals :: (items p ++ hashItems rest)

end

end Phrase

/-- The items that a sentence derives. -/
def Sentence.items (s : Sentence) : List Item :=
  .word s.name :: (Phrase.argItems s.args ++
    (Phrase.hashItems s.hash ++ BlockHead.paramItems s.blockParams))

namespace Phrase

variable {args args' : List Phrase} {hash hash' : List (String × Phrase)}
  {rest rest' tail tail' : List Item}

theorem mem_argItems {p : Phrase} {item : Item} (hp : p ∈ args) (hitem : item ∈ p.items) :
    item ∈ argItems args := by
  induction args with
  | nil => cases hp
  | cons q more ih =>
    rw [argItems, List.mem_append]
    rcases List.mem_cons.1 hp with rfl | hp
    · exact .inl hitem
    · exact .inr (ih hp)

theorem mem_hashItems {entry : String × Phrase} {item : Item} (hentry : entry ∈ hash)
    (hitem : item ∈ entry.2.items) : item ∈ hashItems hash := by
  induction hash with
  | nil => cases hentry
  | cons other more ih =>
    rw [hashItems, List.mem_cons, List.mem_cons, List.mem_append]
    rcases List.mem_cons.1 hentry with rfl | hentry
    · exact .inr (.inr (.inl hitem))
    · exact .inr (.inr (.inr (ih hentry)))

/-! ## Where arguments begin and end -/

theorem detached_items (p : Phrase) (rest : List Item) : Detached (p.items ++ rest) := by
  cases p with
  | quoted | word => exact ⟨by simp [items], by simp [items]⟩
  | call => exact ⟨by simp [items], by simp [items]⟩

theorem detached_hashItems (hash : List (String × Phrase)) (hrest : Detached rest) :
    Detached (hashItems hash ++ rest) := by
  cases hash with
  | nil => exact hrest
  | cons e more => exact ⟨by simp [hashItems], by simp [hashItems]⟩

theorem detached_argItems (args : List Phrase) (hrest : Detached rest) :
    Detached (argItems args ++ rest) := by
  cases args with
  | nil => exact hrest
  | cons p more =>
    rw [argItems, List.append_assoc]
    exact detached_items p _

theorem beginsArgument_items (p : Phrase) (hrest : Detached rest) :
    BeginsArgument (p.items ++ rest) := by
  cases p with
  | quoted raw => exact List.cons_ne_nil _ _
  | call name args hash => exact List.cons_ne_nil _ _
  | word raw =>
    unfold BeginsArgument
    -- A word is an argument unless what is behind it makes it a key or declares block parameters.
    split
    · rename_i heq
      cases heq
    · rename_i heq
      cases heq
      exact hrest.1 rfl
    · rename_i heq
      cases heq
      exact hrest.2 rfl
    · exact List.cons_ne_nil _ _

/-- What can stand behind the arguments of a tag or a call. -/
inductive Stops : List Item → Prop where
  | ending : Stops []
  | call {rest : List Item} : Stops (.closeParen :: rest)
  | blockParams {rest : List Item} : Stops (.word "as" :: .pipe :: rest)

theorem Stops.paramItems (names : List String) : Stops (BlockHead.paramItems names) := by
  cases names with
  | nil => exact .ending
  | cons name rest => exact .blockParams

theorem Stops.detached (h : Stops tail) : Detached tail := by
  cases h <;> exact ⟨by simp, by simp⟩

theorem Stops.not_beginsArgument (h : Stops tail) : ¬ BeginsArgument tail := by
  cases h with
  | ending => exact fun h => h rfl
  | call | blockParams => exact id

theorem Stops.ne_key (h : Stops tail) (key : String) (rest : List Item) :
    tail ≠ .word key :: .equals :: rest := by
  cases h <;> simp

/-- No positional argument begins where named ones do, or where there are none. -/
theorem not_beginsArgument_hashItems (hash : List (String × Phrase)) (h : Stops tail) :
    ¬ BeginsArgument (hashItems hash ++ tail) := by
  cases hash with
  | nil => exact h.not_beginsArgument
  | cons e more => exact id

/-! ## Derivations are unique -/

/-- The items of a phrase are those of no other, whatever follows either. -/
def Determined (p : Phrase) : Prop :=
  ∀ (q : Phrase) (rest rest' : List Item), p.items ++ rest = q.items ++ rest' → p = q ∧ rest = rest'

theorem hash_unique (hhash : ∀ entry ∈ hash, entry.2.Determined) (ht : Stops tail)
    (ht' : Stops tail') (h : hashItems hash ++ tail = hashItems hash' ++ tail') :
    hash = hash' ∧ tail = tail' := by
  induction hash generalizing hash' with
  | nil =>
    cases hash' with
    | nil => exact ⟨rfl, h⟩
    | cons e more => exact absurd h (ht.ne_key e.1 _)
  | cons e rest ih =>
    obtain ⟨key, p⟩ := e
    cases hash' with
    | nil => exact absurd h.symm (ht'.ne_key key _)
    | cons e' rest' =>
      obtain ⟨key', q⟩ := e'
      obtain ⟨hp, hrest⟩ := List.forall_mem_cons.1 hhash
      simp only [hashItems, List.cons_append, List.append_assoc, List.cons.injEq, Item.word.injEq,
        true_and] at h
      obtain ⟨rfl, hvalue⟩ := h
      obtain ⟨rfl, hmore⟩ := hp q _ _ hvalue
      obtain ⟨rfl, htail⟩ := ih hrest hmore
      exact ⟨rfl, htail⟩

theorem arguments_unique (hargs : ∀ p ∈ args, p.Determined)
    (hhash : ∀ entry ∈ hash, entry.2.Determined) (ht : Stops tail) (ht' : Stops tail')
    (h : argItems args ++ (hashItems hash ++ tail) =
      argItems args' ++ (hashItems hash' ++ tail')) :
    args = args' ∧ hash = hash' ∧ tail = tail' := by
  -- An argument on one side only would begin where the other side has none left.
  have hnone {p : Phrase} {more : List Phrase} {hash other : List (String × Phrase)}
      {tail end_ : List Item} (ht : Stops tail) (hend : Stops end_) :
      hashItems hash ++ tail ≠ argItems (p :: more) ++ (hashItems other ++ end_) := by
    intro heq
    have hbegins := p.beginsArgument_items
      (detached_argItems more (detached_hashItems other hend.detached))
    rw [← List.append_assoc, ← argItems, ← heq] at hbegins
    exact not_beginsArgument_hashItems hash ht hbegins
  induction args generalizing args' with
  | nil =>
    cases args' with
    | nil => exact ⟨rfl, hash_unique hhash ht ht' h⟩
    | cons q more => exact absurd h (hnone ht ht')
  | cons p rest ih =>
    cases args' with
    | nil => exact absurd h.symm (hnone ht' ht)
    | cons q rest' =>
      obtain ⟨hp, hrest⟩ := List.forall_mem_cons.1 hargs
      rw [argItems, argItems, List.append_assoc, List.append_assoc] at h
      obtain ⟨rfl, hmore⟩ := hp q _ _ h
      obtain ⟨rfl, hothers⟩ := ih hrest hmore
      exact ⟨rfl, hothers⟩

/-- Every phrase is determined by its items. -/
theorem determined (p : Phrase) : p.Determined := by
  induction p using Phrase.induct with
  | quoted raw =>
    intro q rest rest' h
    cases q <;> simp_all [items]
  | word raw =>
    intro q rest rest' h
    cases q <;> simp_all [items]
  | call name args hash hargs hhash =>
    intro q rest rest' h
    cases q with
    | quoted | word => simp [items] at h
    | call name' args' hash' =>
      simp only [items, List.cons_append, List.append_assoc, List.nil_append, List.cons.injEq,
        Item.word.injEq, true_and] at h
      obtain ⟨rfl, hbehind⟩ := h
      obtain ⟨rfl, rfl, hclosed⟩ := arguments_unique hargs hhash .call .call hbehind
      exact ⟨rfl, (List.cons.inj hclosed).2⟩

end Phrase

theorem BlockHead.paramItems_injective {names names' : List String}
    (h : paramItems names = paramItems names') : names = names' := by
  cases names with
  | nil =>
    cases names' with
    | nil => rfl
    | cons => cases h
  | cons name rest =>
    cases names' with
    | nil => cases h
    | cons name' rest' =>
      simp only [paramItems, List.cons.injEq, Item.word.injEq, true_and] at h
      obtain ⟨rfl, h⟩ := h
      have hwords := List.append_cancel_right h
      rw [List.map_injective_iff.2 (fun _ _ heq => Item.word.inj heq) hwords]

/-- A list of items has at most one derivation. -/
theorem Sentence.items_injective {s s' : Sentence} (h : s.items = s'.items) : s = s' := by
  obtain ⟨name, args, hash, names⟩ := s
  obtain ⟨name', args', hash', names'⟩ := s'
  simp only [items, List.cons.injEq, Item.word.injEq] at h
  obtain ⟨rfl, hbehind⟩ := h
  obtain ⟨rfl, rfl, hparams⟩ := Phrase.arguments_unique (fun p _ => p.determined)
    (fun entry _ => entry.2.determined) (.paramItems names) (.paramItems names') hbehind
  rw [BlockHead.paramItems_injective hparams]

end Stencil
