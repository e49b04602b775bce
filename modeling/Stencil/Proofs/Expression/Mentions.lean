import Stencil.Proofs.Expression.Grammar

/-!
# What the items of an expression mention

The heads of calls and the texts that stand as arguments can be read off the items of an expression
from left to right, without parsing it: a head stands behind an opening parenthesis, a key before an
equals sign, block parameters behind their pipe, and every other text is an argument. In what is
parsed from the items the same names are listed.
-/

namespace Stencil

namespace Item

/-- The heads of the calls among some items: the words behind opening parentheses. -/
def callHeads : List Item → List String
  | [] => []
  | .openParen :: .word name :: rest => name :: callHeads rest
  | _ :: rest => callHeads rest

/-- The texts that stand as arguments among some items: all but the heads of calls, the keys of named
arguments, and block parameters. -/
def argumentTexts : List Item → List String
  | [] => []
  | .openParen :: .word _ :: rest => argumentTexts rest
  | .word _ :: .equals :: rest => argumentTexts rest
  | .word "as" :: .pipe :: _ => []
  | .word raw :: rest => raw :: argumentTexts rest
  | .quoted raw :: rest => raw :: argumentTexts rest
  | _ :: rest => argumentTexts rest

@[simp] theorem callHeads_word (raw : String) (rest : List Item) :
    callHeads (.word raw :: rest) = callHeads rest := by
  rw [callHeads]
  rintro _ _ ⟨⟩

@[simp] theorem callHeads_quoted (raw : String) (rest : List Item) :
    callHeads (.quoted raw :: rest) = callHeads rest := by
  rw [callHeads]
  rintro _ _ ⟨⟩

@[simp] theorem callHeads_closeParen (rest : List Item) :
    callHeads (.closeParen :: rest) = callHeads rest := by
  rw [callHeads]
  rintro _ _ ⟨⟩

@[simp] theorem callHeads_pipe (rest : List Item) :
    callHeads (.pipe :: rest) = callHeads rest := by
  rw [callHeads]
  rintro _ _ ⟨⟩

@[simp] theorem callHeads_equals (rest : List Item) :
    callHeads (.equals :: rest) = callHeads rest := by
  rw [callHeads]
  rintro _ _ ⟨⟩

@[simp] theorem callHeads_call (name : String) (rest : List Item) :
    callHeads (.openParen :: .word name :: rest) = name :: callHeads rest := by
  rw [callHeads]

theorem callHeads_paramItems (names : List String) :
    callHeads (BlockHead.paramItems names) = [] := by
  have hwords (names : List String) : callHeads (names.map .word ++ [.pipe]) = [] := by
    induction names with
    | nil => rfl
    | cons name rest ih => simpa using ih
  cases names with
  | nil => rfl
  | cons name rest => simp [BlockHead.paramItems, hwords]

end Item

namespace Param

/-- A text that is a reference when it stands as an argument. -/
def isReferenceText (raw : String) : Bool :=
  match ofText raw with
  | .ok (.reference _) => true
  | _ => false

/-- The references in an argument: itself, or those inside it. -/
def mentions : Param → List String
  | reference raw => [raw]
  | literal .. => []
  | call _ _ args hash _ => allReferences args hash

theorem ofText_cases {raw : String} {p : Param} (h : ofText raw = .ok p) :
    (∃ value, p = .literal raw value) ∨ p = .reference raw := by
  obtain ⟨found, -, h⟩ := bind_eq_ok_iff.1 h
  cases found with
  | none => exact .inr (Except.ok.inj h).symm
  | some value => exact .inl ⟨value, (Except.ok.inj h).symm⟩

theorem mentions_ofBare (raw : String) :
    (ofBare raw).mentions = if isReferenceText raw then [raw] else [] := by
  unfold ofBare isReferenceText
  cases hread : ofText raw with
  | error cause => rfl
  | ok p => rcases ofText_cases hread with ⟨value, rfl⟩ | rfl <;> rfl

theorem callNames_ofBare (raw : String) : (ofBare raw).callNames = [] := by
  unfold ofBare
  cases hread : ofText raw with
  | error cause => rw [callNames]; simp
  | ok p => rcases ofText_cases hread with ⟨value, rfl⟩ | rfl <;> rw [callNames] <;> simp

theorem mem_mentions {p : Param} {name : String} :
    name ∈ p.mentions ↔ p = .reference name ∨ name ∈ p.innerReferences := by
  cases p with
  | literal => simp [mentions, innerReferences]
  | reference raw => simp [mentions, innerReferences, eq_comm]
  | call => simp [mentions, innerReferences, allReferences]

theorem mem_argsInnerReferences {args : List Param} {name : String} :
    name ∈ argsInnerReferences args ↔ ∃ p ∈ args, name ∈ p.innerReferences := by
  induction args with
  | nil => simp [argsInnerReferences]
  | cons p rest ih => simp [argsInnerReferences, ih]

theorem mem_hashInnerReferences {hash : HashParams} {name : String} :
    name ∈ hashInnerReferences hash ↔ ∃ entry ∈ hash, name ∈ entry.2.innerReferences := by
  induction hash with
  | nil => simp [hashInnerReferences]
  | cons entry rest ih => simp [hashInnerReferences, ih]

theorem mem_referenceNames {args : List Param} {hash : HashParams} {name : String} :
    name ∈ referenceNames args hash ↔
      (∃ p ∈ args, p = .reference name) ∨ ∃ entry ∈ hash, entry.2 = .reference name := by
  unfold referenceNames
  rw [List.mem_filterMap]
  constructor
  · rintro ⟨p, hp, hname⟩
    cases p with
    | reference raw =>
      cases hname
      simpa using hp
    | literal | call => cases hname
  · intro h
    exact ⟨.reference name, by simpa using h, rfl⟩

/-- All references of a tag are those in its arguments. -/
theorem mem_allReferences {args : List Param} {hash : HashParams} {name : String} :
    name ∈ allReferences args hash ↔
      (∃ p ∈ args, name ∈ p.mentions) ∨ ∃ entry ∈ hash, name ∈ entry.2.mentions := by
  rw [allReferences, List.mem_append, List.mem_append, mem_referenceNames,
    mem_argsInnerReferences, mem_hashInnerReferences]
  simp only [mem_mentions]
  grind

end Param

namespace Item

/-- The references among the texts that stand as arguments in some items. -/
def references (items : List Item) : List String :=
  (argumentTexts items).filter Param.isReferenceText

theorem references_congr {items rest : List Item} (h : argumentTexts items = argumentTexts rest) :
    references items = references rest := by
  rw [references, h, references]

theorem mem_references_cons {items rest : List Item} {raw name : String}
    (h : argumentTexts items = raw :: argumentTexts rest) :
    name ∈ references items ↔ name ∈ (Param.ofBare raw).mentions ∨ name ∈ references rest := by
  rw [references, h, Param.mentions_ofBare, List.filter_cons, ← references]
  split <;> simp

end Item

namespace Phrase

variable {b : Binding} {args : List Phrase} {hash : List (String × Phrase)} {rest : List Item}

/-! ## Heads of calls -/

/-- The heads among the items of a phrase are the names of the calls in what it is read as. -/
def HeadsListed (b : Binding) (p : Phrase) : Prop :=
  ∀ rest, Item.callHeads (p.items ++ rest) = (p.param b).callNames ++ Item.callHeads rest

theorem callHeads_argItems (h : ∀ p ∈ args, p.HeadsListed b) (rest : List Item) :
    Item.callHeads (argItems args ++ rest) =
      Param.argsCallNames (params b args) ++ Item.callHeads rest := by
  induction args with
  | nil => rw [argItems, params, Param.argsCallNames, List.nil_append, List.nil_append]
  | cons p more ih =>
    obtain ⟨hp, hmore⟩ := List.forall_mem_cons.1 h
    rw [argItems, List.append_assoc, hp, ih hmore, params, Param.argsCallNames, List.append_assoc]

theorem callHeads_hashItems (h : ∀ entry ∈ hash, entry.2.HeadsListed b) (rest : List Item) :
    Item.callHeads (hashItems hash ++ rest) =
      Param.hashCallNames (entries b hash) ++ Item.callHeads rest := by
  induction hash with
  | nil => rw [hashItems, entries, Param.hashCallNames, List.nil_append, List.nil_append]
  | cons entry more ih =>
    obtain ⟨hp, hmore⟩ := List.forall_mem_cons.1 h
    rw [hashItems, List.cons_append, List.cons_append, Item.callHeads_word, Item.callHeads_equals,
      List.append_assoc, hp, ih hmore, entries, Param.hashCallNames, List.append_assoc]

theorem headsListed (b : Binding) (p : Phrase) : p.HeadsListed b := by
  induction p using Phrase.induct with
  | quoted raw =>
    intro rest
    rw [items, List.singleton_append, Item.callHeads_quoted, param, Param.callNames_ofBare,
      List.nil_append]
  | word raw =>
    intro rest
    rw [items, List.singleton_append, Item.callHeads_word, param, Param.callNames_ofBare,
      List.nil_append]
  | call name args hash hargs hhash =>
    intro rest
    rw [items, List.cons_append, List.cons_append, Item.callHeads_call, List.append_assoc,
      List.append_assoc, callHeads_argItems hargs, callHeads_hashItems hhash, List.singleton_append,
      Item.callHeads_closeParen, param, Param.callNames, List.cons_append, List.append_assoc]

/-! ## Texts that stand as arguments -/

/-- The references among the items of a phrase are those in what it is read as, if nothing behind it
makes it a key or the word before block parameters. -/
def ReferencesListed (b : Binding) (p : Phrase) : Prop :=
  ∀ rest, Expression.Detached rest → ∀ name,
    (name ∈ Item.references (p.items ++ rest) ↔
      name ∈ (p.param b).mentions ∨ name ∈ Item.references rest)

theorem mem_references_argItems (h : ∀ p ∈ args, p.ReferencesListed b)
    (hrest : Expression.Detached rest) {name : String} :
    name ∈ Item.references (argItems args ++ rest) ↔
      (∃ p ∈ args, name ∈ (p.param b).mentions) ∨ name ∈ Item.references rest := by
  induction args with
  | nil => simp [argItems]
  | cons p more ih =>
    obtain ⟨hp, hmore⟩ := List.forall_mem_cons.1 h
    rw [argItems, List.append_assoc, hp _ (detached_argItems more hrest), ih hmore]
    simp [or_assoc]

theorem mem_references_hashItems (h : ∀ entry ∈ hash, entry.2.ReferencesListed b)
    (hrest : Expression.Detached rest) {name : String} :
    name ∈ Item.references (hashItems hash ++ rest) ↔
      (∃ entry ∈ hash, name ∈ (entry.2.param b).mentions) ∨ name ∈ Item.references rest := by
  induction hash with
  | nil => simp [hashItems]
  | cons entry more ih =>
    obtain ⟨key, p⟩ := entry
    obtain ⟨hp, hmore⟩ := List.forall_mem_cons.1 h
    have hkey : Item.references (hashItems ((key, p) :: more) ++ rest) =
        Item.references (p.items ++ (hashItems more ++ rest)) := by
      refine Item.references_congr ?_
      rw [hashItems, List.cons_append, List.cons_append, Item.argumentTexts, List.append_assoc]
    rw [hkey, hp _ (detached_hashItems more hrest), ih hmore]
    simp [or_assoc]

theorem referencesListed (b : Binding) (p : Phrase) : p.ReferencesListed b := by
  induction p using Phrase.induct with
  | quoted raw =>
    intro rest _ name
    rw [items, List.singleton_append, param]
    exact Item.mem_references_cons (by rw [Item.argumentTexts])
  | word raw =>
    intro rest hrest name
    rw [items, List.singleton_append, param]
    refine Item.mem_references_cons ?_
    rw [Item.argumentTexts]
    · rintro more rfl
      exact hrest.1 rfl
    · rintro more rfl rfl
      exact hrest.2 rfl
  | call name args hash hargs hhash =>
    intro rest hrest other
    have hclosed : Expression.Detached (.closeParen :: rest) := ⟨by simp, by simp⟩
    have hbehind : Item.references (.closeParen :: rest) = Item.references rest := by
      refine Item.references_congr ?_
      rw [Item.argumentTexts]
      all_goals simp
    have hhead : Item.references ((call name args hash).items ++ rest) =
        Item.references (argItems args ++ (hashItems hash ++ .closeParen :: rest)) := by
      refine Item.references_congr ?_
      rw [items, List.cons_append, List.cons_append, Item.argumentTexts, List.append_assoc,
        List.append_assoc, List.singleton_append]
    rw [hhead, mem_references_argItems hargs (detached_hashItems hash hclosed),
      mem_references_hashItems hhash hclosed, hbehind, param, Param.mentions, Param.mem_allReferences,
      params_eq, entries_eq]
    simp [or_assoc]

end Phrase

/-! ## Whole expressions -/

theorem BlockHead.references_paramItems (names : List String) :
    Item.references (paramItems names) = [] := by
  cases names with
  | nil => rfl
  | cons name rest =>
    rw [paramItems, Item.references, Item.argumentTexts, List.filter_nil]

section

variable (b : Binding) (args : List Phrase) (hash : List (String × Phrase)) (names : List String)

/-- The heads of calls behind the name of a tag are the names of the calls in its arguments. -/
theorem Phrase.callHeads_behind :
    Item.callHeads (argItems args ++ (hashItems hash ++ BlockHead.paramItems names)) =
      Param.argsCallNames (params b args) ++ Param.hashCallNames (entries b hash) := by
  rw [callHeads_argItems fun p _ => p.headsListed b,
    callHeads_hashItems fun entry _ => entry.2.headsListed b, Item.callHeads_paramItems,
    List.append_nil]

/-- The references behind the name of a tag are those of its arguments. -/
theorem Phrase.mem_references_behind {name : String} :
    name ∈ Item.references (argItems args ++ (hashItems hash ++ BlockHead.paramItems names)) ↔
      name ∈ Param.allReferences (params b args) (entries b hash) := by
  have hstops : Expression.Detached (BlockHead.paramItems names) := (Stops.paramItems names).detached
  rw [mem_references_argItems (fun p _ => p.referencesListed b) (detached_hashItems hash hstops),
    mem_references_hashItems (fun entry _ => entry.2.referencesListed b) hstops,
    BlockHead.references_paramItems, Param.mem_allReferences, params_eq, entries_eq]
  simp

end

end Stencil
