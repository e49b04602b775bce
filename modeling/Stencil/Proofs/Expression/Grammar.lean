import Stencil.Proofs.Expression.Phrases
import Stencil.Proofs.Node.Compiling

/-!
# Expressions follow their grammar

The items of an expression are read if and only if the grammar derives them, and what is read is the
derivation: every argument, every named argument and every block parameter once, in their order, and
the calls nested as the parentheses are. The one thing that can fail beside the grammar is turning a
number into an integer, which admits only so many digits.
-/

namespace Stencil

/-- The argument that a bare text is, where it can be converted. -/
def Param.ofBare (raw : String) : Param :=
  match ofText raw with
  | .ok p => p
  | .error _ => .literal raw .null

/-- An item whose text can be converted when it is an argument. -/
def Item.Converts (item : Item) : Prop := ∃ p, Param.ofText item.text = .ok p

/-- Only integers with too many digits cannot be converted. -/
theorem Item.Converts.of_length {item : Item}
    (h : item.text.toList.length ≤ Fault.digitLimit) : item.Converts := by
  cases hread : Param.ofText item.text with
  | ok p => exact ⟨p, hread⟩
  | error cause =>
    obtain ⟨digits, hinfix, -, hlong, -⟩ := (Param.ofText_digits item.text).of_error hread
    have hlength := hinfix.length_le
    omega

namespace Phrase

mutual

/-- The argument that a phrase is read as in a tag. -/
def param (b : Binding) : Phrase → Param
  | quoted raw | word raw => .ofBare raw
  | call name args hash =>
    .call (some b.place) name (params b args) (entries b hash) (b.helperOf name)

/-- The positional arguments that phrases are read as. -/
def params (b : Binding) : List Phrase → List Param
  | [] => []
  | p :: rest => param b p :: params b rest

/-- The named arguments that phrases are read as. -/
def entries (b : Binding) : List (String × Phrase) → HashParams
  | [] => []
  | (key, p) :: rest => (key, param b p) :: entries b rest

end

theorem params_eq (b : Binding) (args : List Phrase) : params b args = args.map (param b) := by
  induction args with
  | nil => rw [params, List.map_nil]
  | cons p rest ih => rw [params, ih, List.map_cons]

theorem entries_eq (b : Binding) (hash : List (String × Phrase)) :
    entries b hash = hash.map fun entry => (entry.1, param b entry.2) := by
  induction hash with
  | nil => rw [entries, List.map_nil]
  | cons entry rest ih => rw [entries, ih, List.map_cons]

end Phrase

/-- What an expression says behind its name, each argument as its phrase is read. -/
def Sentence.arguments (b : Binding) (s : Sentence) : Arguments :=
  { args := s.args.map (Phrase.param b),
    hash := s.hash.map fun entry => (entry.1, Phrase.param b entry.2),
    blockParams := s.blockParams }

namespace Expression

open Phrase (argItems hashItems mem_argItems mem_hashItems)

variable {b : Binding} {inCall named : Bool} {items tail left rest : List Item} {p : Param}
  {found : Arguments} {args : List Phrase} {hash : List (String × Phrase)} {names : List String}

/-! ## What is derived is read -/

theorem bareParam_ofBare {raw : String} (h : ∃ p, Param.ofText raw = .ok p) :
    bareParam raw = .ok (.ofBare raw) := by
  obtain ⟨p, h⟩ := h
  rw [bareParam, Param.ofBare, h]
  rfl

/-- A phrase is read where it stands, whatever follows. -/
def PhraseRead (b : Binding) (p : Phrase) : Prop :=
  ∀ rest, ParamRead b (p.items ++ rest) (p.param b) rest

theorem entries_read (hhash : ∀ entry ∈ hash, PhraseRead b entry.2)
    (htail : ∀ named, ArgumentsRead b inCall named tail { blockParams := names } rest)
    (named : Bool) :
    ArgumentsRead b inCall named (hashItems hash ++ tail)
      { hash := Phrase.entries b hash, blockParams := names } rest := by
  induction hash generalizing named with
  | nil => exact htail named
  | cons entry more ih =>
    obtain ⟨key, p⟩ := entry
    obtain ⟨hp, hmore⟩ := List.forall_mem_cons.1 hhash
    rw [hashItems, List.cons_append, List.cons_append, List.append_assoc, Phrase.entries]
    exact .hash (hp _) (ih hmore true)

theorem phrases_read (hargs : ∀ p ∈ args, PhraseRead b p)
    (hhash : ∀ entry ∈ hash, PhraseRead b entry.2)
    (htail : ∀ named, ArgumentsRead b inCall named tail { blockParams := names } rest)
    (hdetached : Detached tail) :
    ArgumentsRead b inCall false (argItems args ++ (hashItems hash ++ tail))
      { args := Phrase.params b args, hash := Phrase.entries b hash, blockParams := names }
      rest := by
  induction args with
  | nil => exact entries_read hhash htail false
  | cons p more ih =>
    obtain ⟨hp, hmore⟩ := List.forall_mem_cons.1 hargs
    have hbegins := p.beginsArgument_items
      (Phrase.detached_argItems more (Phrase.detached_hashItems hash hdetached))
    rw [argItems, List.append_assoc, Phrase.params]
    exact .positional hbegins (hp _) (ih hmore)

/-- Every phrase whose texts can be converted is read. -/
theorem phraseRead (p : Phrase) (h : ∀ item ∈ p.items, item.Converts) : PhraseRead b p := by
  induction p using Phrase.induct with
  | quoted raw =>
    intro rest
    exact .quoted (bareParam_ofBare (h (.quoted raw) (by simp [Phrase.items])))
  | word raw =>
    intro rest
    exact .word (bareParam_ofBare (h (.word raw) (by simp [Phrase.items])))
  | call name args hash hargs hhash =>
    intro rest
    have hclosed (named : Bool) : ArgumentsRead b true named (.closeParen :: rest)
        { blockParams := [] } (.closeParen :: rest) := .closed
    have hread := phrases_read (fun p hp => hargs p hp fun item hitem => h item ?_)
      (fun entry hentry => hhash entry hentry fun item hitem => h item ?_) hclosed
      Phrase.Stops.call.detached
    · rw [Phrase.items, List.cons_append, List.cons_append, List.append_assoc, List.append_assoc,
        List.singleton_append]
      exact .call hread
    · simp [Phrase.items, mem_argItems hp hitem]
    · simp [Phrase.items, mem_hashItems hentry hitem]

/-! ## What is read is derived -/

/-- What one argument can be read from. -/
theorem ParamRead.cases (h : ParamRead b items p rest) :
    (∃ raw, bareParam raw = .ok p ∧ (items = .quoted raw :: rest ∨ items = .word raw :: rest)) ∨
    ∃ name behind found closing, items = .openParen :: .word name :: behind ∧
      ArgumentsRead b true false behind found (closing :: rest) ∧
      p = .call (some b.place) name found.args found.hash (b.helperOf name) := by
  obtain ⟨hle, h⟩ := h
  unfold param at h
  split at h
  · cases h
  · obtain ⟨q, hq, h⟩ := bind_eq_ok_iff.1 h
    cases h
    exact .inl ⟨_, hq, .inl rfl⟩
  · obtain ⟨q, hq, h⟩ := bind_eq_ok_iff.1 h
    cases h
    exact .inl ⟨_, hq, .inr rfl⟩
  · obtain ⟨⟨q, behind⟩, hcall, h⟩ := bind_eq_ok_iff.1 h
    cases h
    unfold callBehind at hcall
    split at hcall
    · obtain ⟨⟨found, left, hleft⟩, hfound, hcall⟩ := bind_eq_ok_iff.1 hcall
      dsimp only at hcall
      split at hcall
      · cases hcall
      · cases hcall
        exact .inr ⟨_, _, found, _, rfl, ⟨_, hfound⟩, rfl⟩
    · cases hcall
  · cases h

theorem blockNames_inv {place : Location} (h : blockNames place items = .ok (names, left)) :
    items = names.map .word ++ .pipe :: left := by
  fun_induction blockNames place items generalizing names left with
  | case1 => cases h
  | case2 => cases h; rfl
  | case3 name rest ih =>
    obtain ⟨⟨others, behind⟩, hothers, h⟩ := bind_eq_ok_iff.1 h
    cases h
    rw [ih hothers, List.map_cons, List.cons_append]
  | case4 => cases h

theorem blockParams_inv {place : Location} (h : blockParams place items = .ok names) :
    .word "as" :: .pipe :: items = BlockHead.paramItems names := by
  obtain ⟨⟨found, behind⟩, hfound, h⟩ := bind_eq_ok_iff.1 h
  dsimp only at h
  split at h
  · cases h
  · rename_i hnames
    split at h
    · cases h
    · rename_i hbehind
      cases h
      have hlast : behind = [] := by simpa using hbehind
      rw [blockNames_inv hfound, hlast]
      cases names with
      | nil => exact absurd rfl hnames
      | cons name rest => rfl

/-- What arguments can be read from, by what stands first. -/
theorem ArgumentsRead.cases (h : ArgumentsRead b inCall named items found rest) :
    (items = [] ∧ found = {} ∧ rest = []) ∨
    (inCall = true ∧ found = {} ∧ rest = items ∧ ∃ after, items = .closeParen :: after) ∨
    (∃ key behind p left others, items = .word key :: .equals :: behind ∧
      ParamRead b behind p left ∧ ArgumentsRead b inCall true left others rest ∧
      found = { others with hash := (key, p) :: others.hash }) ∨
    (inCall = false ∧ rest = [] ∧
      ∃ names, items = BlockHead.paramItems names ∧ found = { blockParams := names }) ∨
    (named = false ∧ ∃ p left others, ParamRead b items p left ∧
      ArgumentsRead b inCall false left others rest ∧
      found = { others with args := p :: others.args }) := by
  have hpositional {items rest : List Item} {hle : rest.length ≤ items.length}
      (h : Expression.positional b inCall named items = .ok (found, ⟨rest, hle⟩)) :
      named = false ∧ ∃ p left others, ParamRead b items p left ∧
        ArgumentsRead b inCall false left others rest ∧
        found = { others with args := p :: others.args } := by
    unfold Expression.positional at h
    split at h
    · cases h
    · rename_i hnamed
      obtain ⟨⟨p, left, hleft⟩, hp, h⟩ := bind_eq_ok_iff.1 h
      obtain ⟨⟨others, last, hlast⟩, hothers, h⟩ := bind_eq_ok_iff.1 h
      cases h
      exact ⟨by simpa using hnamed, p, left, others, ⟨_, hp⟩, ⟨_, hothers⟩, rfl⟩
  obtain ⟨hle, h⟩ := h
  unfold arguments at h
  split at h
  · cases h
    exact .inl ⟨rfl, rfl, rfl⟩
  · rename_i item after
    split at h
    · rename_i hclose
      rw [Bool.and_eq_true, beq_iff_eq] at hclose
      obtain ⟨hcall, rfl⟩ := hclose
      cases h
      exact .inr (.inl ⟨hcall, rfl, rfl, after, rfl⟩)
    · split at h
      · obtain ⟨⟨p, left, hleft⟩, hp, h⟩ := bind_eq_ok_iff.1 h
        obtain ⟨⟨others, last, hlast⟩, hothers, h⟩ := bind_eq_ok_iff.1 h
        cases h
        exact .inr (.inr (.inl ⟨_, _, p, left, others, rfl, ⟨_, hp⟩, ⟨_, hothers⟩, rfl⟩))
      · split at h
        · exact .inr (.inr (.inr (.inr (hpositional h))))
        · rename_i hcall
          obtain ⟨names, hnames, h⟩ := bind_eq_ok_iff.1 h
          cases h
          exact .inr (.inr (.inr (.inl
            ⟨by simpa using hcall, rfl, names, blockParams_inv hnames, rfl⟩)))
      · exact .inr (.inr (.inr (.inr (hpositional h))))

/-- Where the arguments of a tag or a call end: a call ends at its closing parenthesis or with the
items, a tag with its block parameters. -/
inductive EndsArguments : Bool → List String → List Item → List Item → Prop where
  | ending : EndsArguments true [] [] []
  | closing {rest : List Item} : EndsArguments true [] (.closeParen :: rest) (.closeParen :: rest)
  | tag {names : List String} : EndsArguments false names (BlockHead.paramItems names) []

/-- Whatever argument is read off the front of some items is derived. -/
def ParamDerived (b : Binding) (items : List Item) : Prop :=
  ∀ p rest, ParamRead b items p rest → ∃ phrase : Phrase,
    items = phrase.items ++ rest ∧ p = phrase.param b

/-- Whatever arguments are read off the front of some items are derived, none of them positional
behind a named one. -/
def ArgumentsDerived (b : Binding) (items : List Item) : Prop :=
  ∀ inCall named found rest, ArgumentsRead b inCall named items found rest → ∃ args hash tail,
    items = argItems args ++ (hashItems hash ++ tail) ∧
    EndsArguments inCall found.blockParams tail rest ∧ (named = true → args = []) ∧
    found.args = Phrase.params b args ∧ found.hash = Phrase.entries b hash

theorem paramDerived_of_shorter
    (shorter : ∀ left : List Item, left.length < items.length → ArgumentsDerived b left) :
    ParamDerived b items := by
  intro p rest h
  have hbare {raw : String} (h : bareParam raw = .ok p) : p = .ofBare raw := by
    unfold bareParam at h
    split at h
    · rename_i q hq
      cases h
      rw [Param.ofBare, hq]
    · cases h
  rcases h.cases with ⟨raw, hraw, rfl | rfl⟩ |
    ⟨name, behind, found, closing, rfl, hfound, rfl⟩
  · exact ⟨.quoted raw, by simp [Phrase.items], by rw [hbare hraw, Phrase.param]⟩
  · exact ⟨.word raw, by simp [Phrase.items], by rw [hbare hraw, Phrase.param]⟩
  · have hlength : behind.length < (Item.openParen :: .word name :: behind).length := by
      simp only [List.length_cons]
      omega
    obtain ⟨args, hash, tail, rfl, hends, -, hargs, hhash⟩ :=
      shorter behind hlength true false found _ hfound
    generalize hrest : closing :: rest = last at hends
    generalize found.blockParams = names at hends
    cases hends with
    | ending => cases hrest
    | closing =>
      cases hrest
      exact ⟨.call name args hash, by simp [Phrase.items], by rw [Phrase.param, hargs, hhash]⟩

theorem argumentsDerived_of_shorter
    (hparam : ∀ left : List Item, left.length ≤ items.length → ParamDerived b left)
    (shorter : ∀ left : List Item, left.length < items.length → ArgumentsDerived b left) :
    ArgumentsDerived b items := by
  intro inCall named found rest h
  rcases h.cases with ⟨rfl, rfl, rfl⟩ | ⟨rfl, rfl, rfl, after, rfl⟩ |
    ⟨key, behind, p, left, others, rfl, hp, hothers, rfl⟩ | ⟨rfl, rfl, names, rfl, rfl⟩ |
    ⟨rfl, p, left, others, hp, hothers, rfl⟩
  · cases inCall with
    | true => exact ⟨[], [], [], by simp [argItems, hashItems], .ending, fun _ => rfl, rfl, rfl⟩
    | false => exact ⟨[], [], [], by simp [argItems, hashItems], .tag, fun _ => rfl, rfl, rfl⟩
  · exact ⟨[], [], _, by simp [argItems, hashItems], .closing, fun _ => rfl, rfl, rfl⟩
  · obtain ⟨phrase, rfl, rfl⟩ :=
      hparam behind (by simp only [List.length_cons]; omega) p left hp
    have hlength : left.length <
        (Item.word key :: .equals :: (phrase.items ++ left)).length := by
      simp only [List.length_cons, List.length_append]
      omega
    obtain ⟨args, hash, tail, rfl, hends, hnamed, hargs, hhash⟩ :=
      shorter left hlength inCall true others rest hothers
    cases hnamed rfl
    refine ⟨[], (key, phrase) :: hash, tail, by simp [argItems, hashItems], hends, fun _ => rfl,
      hargs, ?_⟩
    dsimp only
    rw [hhash, Phrase.entries]
  · exact ⟨[], [], _, by simp [argItems, hashItems], .tag, fun _ => rfl, rfl, rfl⟩
  · have hlength : left.length < items.length := hp.1
    obtain ⟨phrase, rfl, rfl⟩ := hparam items le_rfl p left hp
    obtain ⟨args, hash, tail, rfl, hends, -, hargs, hhash⟩ :=
      shorter left hlength inCall false others rest hothers
    refine ⟨phrase :: args, hash, tail, by simp [argItems], hends, (fun h => by cases h), ?_, hhash⟩
    dsimp only
    rw [hargs, Phrase.params]

/-- What is read is derived, by induction on the number of items. -/
theorem argumentsDerived (b : Binding) (items : List Item) : ArgumentsDerived b items := by
  induction hn : items.length using Nat.strongRecOn generalizing items with
  | ind n ih =>
    subst hn
    have shorter (left : List Item) (h : left.length < items.length) : ArgumentsDerived b left :=
      ih left.length h left rfl
    refine argumentsDerived_of_shorter (fun left hleft => ?_) shorter
    exact paramDerived_of_shorter fun more hmore => shorter more (by omega)

end Expression

namespace Sentence

variable {b : Binding} {expression : String} {s : Sentence} {items : List Item}

/-- The items of a sentence are read as it says, where its texts can be converted. -/
theorem read (hitems : s.items = items) (h : ∀ item ∈ items, item.Converts) :
    Expression.ofItems b expression items = .ok (s.name, s.arguments b) := by
  subst hitems
  have hargs (p : Phrase) (hp : p ∈ s.args) : Expression.PhraseRead b p :=
    Expression.phraseRead p fun item hitem =>
      h item (by simp [items, Phrase.mem_argItems hp hitem])
  have hhash (entry : String × Phrase) (hentry : entry ∈ s.hash) :
      Expression.PhraseRead b entry.2 :=
    Expression.phraseRead entry.2 fun item hitem =>
      h item (by simp [items, Phrase.mem_hashItems hentry hitem])
  obtain ⟨hle, hread⟩ := Expression.phrases_read hargs hhash (fun _ => .blockParams s.blockParams)
    (Phrase.Stops.paramItems s.blockParams).detached
  rw [items, Expression.ofItems, hread, Phrase.params_eq, Phrase.entries_eq]
  rfl

/-- Items that are read are those of a sentence, which says what is read. -/
theorem of_read {name : String} {found : Arguments}
    (h : Expression.ofItems b expression items = .ok (name, found)) :
    ∃ s : Sentence, s.items = items ∧ s.name = name ∧ s.arguments b = found := by
  unfold Expression.ofItems at h
  split at h
  · rename_i rest
    obtain ⟨⟨read, left, hleft⟩, hread, h⟩ := bind_eq_ok_iff.1 h
    cases h
    obtain ⟨args, hash, tail, rfl, hends, -, hargs, hhash⟩ :=
      Expression.argumentsDerived b rest false false found left ⟨hleft, hread⟩
    generalize hnames : found.blockParams = names at hends
    cases hends
    refine ⟨⟨name, args, hash, names⟩, rfl, rfl, ?_⟩
    rw [arguments, ← Phrase.params_eq, ← Phrase.entries_eq, ← hargs, ← hhash, ← hnames]
  · cases h

end Sentence

/-- Expressions follow exactly their grammar: items are read if and only if they are a name,
positional arguments, named arguments, and perhaps block parameters, arguments being texts, words and
calls in parentheses; they are so in one way only; and what is read lists the arguments, the named
arguments and the block parameters as that derivation has them. -/
theorem Expression.ofItems_iff_sentence (b : Binding) (expression : String) {items : List Item}
    (h : ∀ item ∈ items, item.Converts) :
    ((∃ found, ofItems b expression items = .ok found) ↔ ∃ s : Sentence, s.items = items) ∧
    (∀ s s' : Sentence, s.items = items → s'.items = items → s = s') ∧
    ∀ s : Sentence, s.items = items → ofItems b expression items = .ok (s.name, s.arguments b) := by
  refine ⟨Iff.intro ?_ ?_, fun s s' hs hs' => Sentence.items_injective (hs.trans hs'.symm),
    fun s hs => s.read hs h⟩
  · rintro ⟨⟨name, found⟩, hread⟩
    obtain ⟨s, hs, -⟩ := Sentence.of_read hread
    exact ⟨s, hs⟩
  · rintro ⟨s, hs⟩
    exact ⟨_, s.read hs h⟩

/-- Calls inside calls, a number, a named argument that is a call, and two block parameters. -/
def Sentence.nested : Sentence where
  name := "h"
  args := [.call "g" [.quoted "\"a\"", .call "f" [] []] [("as", .word "b")], .word "12"]
  hash := [("k", .call "g" [] [])]
  blockParams := ["x", "y"]

theorem Expression.ofItems_iff_sentence_nested :
    Item.scan "h (g \"a\" (f) as=b) 12 k=(g) as |x y|".toList = .ok Sentence.nested.items ∧
    (∀ item ∈ Sentence.nested.items, item.Converts) ∧
    ofItems ⟨⟨"page", 1, 1⟩, fun _ => none⟩ "" Sentence.nested.items =
      .ok ("h", Sentence.nested.arguments ⟨⟨"page", 1, 1⟩, fun _ => none⟩) := by
  have hshort : (Sentence.nested.items.all fun item =>
      decide (item.text.toList.length ≤ Fault.digitLimit)) = true := by decide
  have hconverts : ∀ item ∈ Sentence.nested.items, item.Converts := fun item hitem =>
    .of_length (of_decide_eq_true (List.all_eq_true.1 hshort item hitem))
  exact ⟨by cbv, hconverts, (ofItems_iff_sentence _ "" hconverts).2.2 Sentence.nested rfl⟩

end Stencil
