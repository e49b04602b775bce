import Stencil.Node.Names
import Stencil.Proofs.Expression.Mentions
import Stencil.Proofs.Node.Grammar
import Stencil.Proofs.Token.Openings

/-!
# Listings are exact

What a template lists of itself can be read off its tags one after the other. A tag gives its own
name, if tags of its kind are wanted, and then the heads of its calls, if these are; and it gives the
references among its arguments. The tags are those of the source in their order, wherever else chains
and bodies have put them in the tree.
-/

namespace Stencil

/-- The kind that the own name of a tag is listed under. -/
def TokenKind.listed? : TokenKind → Option TagKind
  | plain => some .plain
  | ampersand => some .ampersand
  | triple => some .triple
  | opening | inverted | otherwise _ => some .block
  | text | closing | inclusion | comment | inline | delimiters | ending => none

/-- Tags whose arguments are listed. -/
def TokenKind.listsArguments : TokenKind → Bool
  | plain | ampersand | triple | opening | inverted | otherwise _ | inclusion => true
  | text | closing | comment | inline | delimiters | ending => false

namespace Token

/-- The items of the expression in a tag; none where it does not scan. -/
def items (t : Token) : List Item :=
  match Item.scan t.value.toList with
  | .ok items => items
  | .error _ => []

/-- The name that the expression of a tag begins with, if it does with one. -/
def ownName (t : Token) : List String :=
  match t.items with
  | .word name :: _ => [name]
  | _ => []

/-- What a tag gives to a listing of names: its own, and the heads of its calls from left to right. -/
def names (wanted : TagKind → Bool) (t : Token) : List String :=
  (match t.kind.listed? with
    | some kind => if wanted kind then t.ownName else []
    | none => []) ++
  if t.kind.listsArguments && wanted .call then Item.callHeads t.items else []

/-- What a tag gives to a listing of references: those that stand behind its name. -/
def references (t : Token) : List String :=
  if t.kind.listsArguments then Item.references (t.items.drop 1) else []

theorem items_of_scan {t : Token} {items : List Item} (h : Item.scan t.value.toList = .ok items) :
    t.items = items := by
  rw [Token.items, h]

end Token

namespace Node

/-! ## What a node gives by itself -/

/-- What a node without its children gives to a listing of names. -/
def ownNames (wanted : TagKind → Bool) : Node → List String
  | output _ style call _ =>
    (if wanted style.tag then [call.name] else []) ++
      if wanted .call then callNames call.args call.hash else []
  | block head _ _ =>
    (if wanted .block then [head.call.name] else []) ++
      if wanted .call then callNames head.call.args head.call.hash else []
  | inclusion _ _ args hash _ => if wanted .call then callNames args hash else []
  | text .. | comment .. | inlinePartial .. => []

/-- What a node without its children gives to a listing of references. -/
def ownReferences : Node → List String
  | output _ _ call _ => Param.allReferences call.args call.hash
  | block head _ _ => Param.allReferences head.call.args head.call.hash
  | inclusion _ _ args hash _ => Param.allReferences args hash
  | text .. | comment .. | inlinePartial .. => []

variable {wanted : TagKind → Bool}

theorem namesAll_append (nodes others : List Node) :
    namesAll wanted (nodes ++ others) = namesAll wanted nodes ++ namesAll wanted others := by
  induction nodes with
  | nil => rw [namesAll, List.nil_append, List.nil_append]
  | cons n rest ih => rw [List.cons_append, namesAll, ih, namesAll, List.append_assoc]

theorem referencesAll_append (nodes others : List Node) :
    referencesAll (nodes ++ others) = referencesAll nodes ++ referencesAll others := by
  induction nodes with
  | nil => rw [referencesAll, List.nil_append, List.nil_append]
  | cons n rest ih => rw [List.cons_append, referencesAll, ih, referencesAll, List.append_assoc]

theorem names_eq (n : Node) :
    names wanted n = ownNames wanted n ++ namesAll wanted n.children := by
  cases n with
  | block head body inverse =>
    rw [children, namesAll_append]
    cases body <;> cases inverse <;> simp [names, ownNames, namesAll]
  | inlinePartial => simp [names, ownNames, children]
  | text | comment | output | inclusion => simp [names, ownNames, children, namesAll]

theorem references_eq (n : Node) :
    references n = ownReferences n ++ referencesAll n.children := by
  cases n with
  | block head body inverse =>
    rw [children, referencesAll_append]
    cases body <;> cases inverse <;> simp [references, ownReferences, referencesAll]
  | inlinePartial => simp [references, ownReferences, children]
  | text | comment | output | inclusion => simp [references, ownReferences, children, referencesAll]

/-- A listing that takes from each node what it gives by itself, and then what its children give,
takes from a tree what all its nodes give, one after the other. -/
theorem flatMap_withinAll {listed own : Node → List String} {listedAll : List Node → List String}
    (hnil : listedAll [] = []) (hcons : ∀ n rest, listedAll (n :: rest) = listed n ++ listedAll rest)
    (hlisted : ∀ n, listed n = own n ++ listedAll n.children) (nodes : List Node) :
    listedAll nodes = (withinAll nodes).flatMap own := by
  have hnodes : ∀ nodes : List Node, (∀ n ∈ nodes, listed n = n.within.flatMap own) →
      listedAll nodes = (withinAll nodes).flatMap own := by
    intro nodes h
    induction nodes with
    | nil => rw [hnil, withinAll, List.flatMap_nil]
    | cons n rest ih =>
      obtain ⟨hn, hrest⟩ := List.forall_mem_cons.1 h
      rw [hcons, withinAll, List.flatMap_append, hn, ih hrest]
  have hnode (n : Node) : listed n = n.within.flatMap own := by
    induction n using Node.induct with
    | step n ih => rw [hlisted, within_eq_cons, List.flatMap_cons, hnodes n.children ih]
  exact hnodes nodes fun n _ => hnode n

theorem namesAll_eq (nodes : List Node) :
    namesAll wanted nodes = (withinAll nodes).flatMap (ownNames wanted) :=
  flatMap_withinAll (by rw [namesAll]) (fun n rest => by rw [namesAll]) names_eq nodes

theorem referencesAll_eq (nodes : List Node) :
    referencesAll nodes = (withinAll nodes).flatMap ownReferences :=
  flatMap_withinAll (by rw [referencesAll]) (fun n rest => by rw [referencesAll]) references_eq nodes

/-! ## Tags give what their nodes give -/

namespace Reader

variable {r : Reader} {t : Token} {n : Node} {name : String} {found : Arguments}

/-- An expression that is parsed holds the items of a sentence that says what is read. -/
theorem sentence_of_parse (h : Expression.parse (r.binding t) t.value = .ok (name, found)) :
    ∃ s : Sentence, t.items = s.items ∧ s.name = name ∧ s.arguments (r.binding t) = found := by
  obtain ⟨items, hitems, hread⟩ := bind_eq_ok_iff.1 h
  unfold Expression.itemsOf at hitems
  split at hitems
  · rename_i hscan
    cases hitems
    obtain ⟨s, hs, hname, hfound⟩ := Sentence.of_read hread
    exact ⟨s, (Token.items_of_scan hscan).trans hs.symm, hname, hfound⟩
  · cases hitems

theorem gives_of_parse (h : Expression.parse (r.binding t) t.value = .ok (name, found)) :
    t.ownName = [name] ∧ Item.callHeads t.items = callNames found.args found.hash ∧
      ∀ other, other ∈ Item.references (t.items.drop 1) ↔
        other ∈ Param.allReferences found.args found.hash := by
  obtain ⟨s, hitems, rfl, rfl⟩ := sentence_of_parse h
  rw [Sentence.items] at hitems
  refine ⟨by rw [Token.ownName, hitems], ?_, fun other => ?_⟩
  · rw [hitems, Item.callHeads_word, Phrase.callHeads_behind (r.binding t), Sentence.arguments,
      ← Phrase.params_eq, ← Phrase.entries_eq, callNames]
  · rw [hitems, List.drop_one, List.tail_cons, Phrase.mem_references_behind (r.binding t),
      Sentence.arguments, ← Phrase.params_eq, ← Phrase.entries_eq]

/-- The arguments of a partial stand behind its name, which is a word or a quoted text. -/
theorem gives_of_inclusion {items rest : List Item}
    {left : { left : List Item // left.length ≤ rest.length }}
    (hitems : Expression.itemsOf (t.location r.file) t.value = .ok items)
    (hname : r.partialName t items = .ok (name, rest))
    (hfound : Expression.arguments (r.binding t) false false rest = .ok (found, left)) :
    Item.callHeads t.items = callNames found.args found.hash ∧
      ∀ other, other ∈ Item.references (t.items.drop 1) ↔
        other ∈ Param.allReferences found.args found.hash := by
  have hscan : t.items = items := by
    unfold Expression.itemsOf at hitems
    split at hitems
    · rename_i hscan
      cases hitems
      exact Token.items_of_scan hscan
    · cases hitems
  have hbehind : Item.callHeads items = Item.callHeads rest ∧ items.drop 1 = rest := by
    unfold partialName at hname
    split at hname
    · cases hname
      exact ⟨Item.callHeads_word _ _, rfl⟩
    · split at hname
      · cases hname
        exact ⟨Item.callHeads_quoted _ _, rfl⟩
      · cases hname
    · cases hname
  obtain ⟨args, hash, tail, hrest, hends, -, hargs, hhash⟩ :=
    Expression.argumentsDerived (r.binding t) rest false false found left.1 ⟨left.2, hfound⟩
  generalize left.1 = last at hends
  generalize found.blockParams = names at hends
  cases hends
  refine ⟨?_, fun other => ?_⟩
  · rw [hscan, hbehind.1, hrest, Phrase.callHeads_behind (r.binding t), hargs, hhash, callNames]
  · rw [hscan, hbehind.2, hrest, Phrase.mem_references_behind (r.binding t), hargs, hhash]

/-- A tag gives what the node gives that was read from it. -/
theorem Tells.gives (h : r.Tells t n) (wanted : TagKind → Bool) :
    t.names wanted = n.ownNames wanted ∧ ∀ other, other ∈ t.references ↔ other ∈ n.ownReferences := by
  cases h with
  | text ht | comment ht | inlinePartial ht =>
    simp [Token.names, Token.references, ownNames, ownReferences, ht, TokenKind.listed?,
      TokenKind.listsArguments]
  | @output style name args ht hparse =>
    obtain ⟨hown, hheads, hreferences⟩ := gives_of_parse hparse
    have hkind : t.kind.listed? = some style.tag ∧ t.kind.listsArguments = true := by
      rw [ht]
      cases style <;> exact ⟨rfl, rfl⟩
    refine ⟨?_, fun other => ?_⟩
    · rw [Token.names, hkind.1, hkind.2, hown, hheads, ownNames, Bool.true_and]
      rfl
    · rw [Token.references, if_pos hkind.2, hreferences, ownReferences]
      rfl
  | @inclusion items rest name args left ht hitems hname hargs =>
    obtain ⟨hheads, hreferences⟩ := gives_of_inclusion hitems hname hargs
    refine ⟨?_, fun other => ?_⟩
    · rw [Token.names, ht, hheads, ownNames]
      rfl
    · rw [Token.references, ht]
      exact hreferences other
  | @block name args label elsePlace body inverse ht hparse =>
    obtain ⟨hown, hheads, hreferences⟩ := gives_of_parse hparse
    have hkind : t.kind.listed? = some .block ∧ t.kind.listsArguments = true := by
      cases hkind : t.kind with
      | opening | inverted | otherwise => exact ⟨rfl, rfl⟩
      | _ =>
        rw [hkind] at ht
        cases ht
    refine ⟨?_, fun other => ?_⟩
    · rw [Token.names, hkind.1, hkind.2, hown, hheads, ownNames, Bool.true_and]
      rfl
    · rw [Token.references, if_pos hkind.2, hreferences, ownReferences]
      rfl

/-- A token that is not read as a node gives nothing. -/
theorem gives_nothing (h : MakesNode t = false) (wanted : TagKind → Bool) :
    t.names wanted = [] ∧ t.references = [] := by
  unfold MakesNode at h
  cases hkind : t.kind with
  | delimiters | closing | ending =>
    simp [Token.names, Token.references, hkind, TokenKind.listed?, TokenKind.listsArguments]
  | otherwise label =>
    rw [hkind] at h
    have hempty : t.value = "" := by simpa using h
    have hitems : t.items = [] := Token.items_of_scan (by rw [hempty]; exact Item.scan_nil)
    simp [Token.names, Token.references, Token.ownName, hitems, Item.callHeads, Item.references,
      Item.argumentTexts, hkind, TokenKind.listed?]
  | text | plain | triple | ampersand | opening | inverted | inclusion | comment | inline =>
    rw [hkind] at h
    cases h

/-- The tokens give what the tree gives that they are told by, by induction on the two lists. -/
theorem Told.gives {tokens : List Token} {nodes : List Node} (h : r.Told tokens nodes)
    (wanted : TagKind → Bool) :
    tokens.flatMap (Token.names wanted) = namesAll wanted nodes ∧
      ∀ other, other ∈ tokens.flatMap Token.references ↔ other ∈ referencesAll nodes := by
  rw [namesAll_eq, referencesAll_eq]
  unfold Told at h
  generalize withinAll nodes = listed at h
  induction tokens generalizing listed with
  | nil =>
    cases h
    simp
  | cons t rest ih =>
    by_cases ht : MakesNode t = true
    · rw [List.filter_cons_of_pos ht] at h
      cases h with
      | cons htells hrest =>
        obtain ⟨hnames, hreferences⟩ := htells.gives wanted
        obtain ⟨hothers, hotherReferences⟩ := ih _ hrest
        refine ⟨by rw [List.flatMap_cons, List.flatMap_cons, hnames, hothers], fun other => ?_⟩
        rw [List.flatMap_cons, List.flatMap_cons, List.mem_append, List.mem_append,
          hreferences, hotherReferences]
    · rw [List.filter_cons_of_neg ht] at h
      obtain ⟨hnames, hreferences⟩ := gives_nothing (by simpa using ht) wanted
      rw [List.flatMap_cons, List.flatMap_cons, hnames, hreferences, List.nil_append,
        List.nil_append]
      exact ih _ h

end Reader

end Node

/-! ## Whole sources -/

/-- A whole source that is read is told by all its tokens but the end. -/
theorem Node.Reader.whole_told {r : Node.Reader} {tokens : List Token} {last : Token}
    {found : List Node} (hlast : last.kind = .ending) (htokens : ∀ t ∈ tokens, t.kind ≠ .ending)
    (h : r.whole (tokens ++ [last]) = .ok found) : r.Told tokens found := by
  obtain ⟨rest, hnodes, hrest⟩ := whole_inv h
  obtain ⟨⟨front, hsplit, hfront, htold⟩, hends⟩ := (accounted r _).1 found rest hnodes
  have hending (t : Token) (ht : t ∈ rest.head?) : t.kind = .ending :=
    ending_of_stops (hends t ht) (hrest t ht).1 (hrest t ht).2
  have hall : front = tokens := eq_of_append_ending hsplit hlast htokens
    (fun t ht => hfront.ne_ending t (List.mem_of_getLast? ht)) hending
  rw [← hall]
  exact htold

/-- First occurrences stand once. -/
theorem nodup_eraseDups (names : List String) : names.eraseDups.Nodup := by
  induction hn : names.length using Nat.strongRecOn generalizing names with
  | ind n ih =>
    subst hn
    cases names with
    | nil => exact .nil
    | cons name rest =>
      have hlength := List.length_filter_le (fun other => !other == name) rest
      rw [List.eraseDups_cons, List.nodup_cons, List.mem_eraseDups, List.mem_filter]
      refine ⟨by simp, ih _ ?_ _ rfl⟩
      rw [List.length_cons]
      omega

/-- Listings are exact. For every source that compiles, the names of some kinds of tags are those that
its tags give in their order, first occurrences only; and the references are those that stand as
arguments of a tag, or of a call inside one, each once. -/
theorem Template.listings_of_tokens {helperOf : String → Option Helper} {marks : Delimiters}
    {name source : String} {t : Template} (h : ofSource helperOf marks name source = .ok t) :
    ∃ tokens, Token.ofSource name marks source = .ok tokens ∧
      (∀ kinds, t.names kinds = (tokens.flatMap (Token.names kinds.contains)).eraseDups) ∧
      (∀ reference, reference ∈ t.references ↔
        ∃ token ∈ tokens, reference ∈ token.references) ∧
      t.references.Nodup := by
  obtain ⟨tokens, htokens, h⟩ := bind_eq_ok_iff.1 h
  obtain ⟨root, hroot, h⟩ := bind_eq_ok_iff.1 h
  cases h
  obtain ⟨kept, rfl, hkept⟩ := (Token.ofSource_isPlaced name marks source).of_ok htokens
  have htold := Node.Reader.whole_told (show (Token.ending source).kind = .ending from rfl)
    (fun t ht => (hkept t ht).kind_ne_ending) hroot
  have hall : Node.Reader.Told ⟨name, helperOf⟩ (kept ++ [Token.ending source]) (root ++ []) :=
    htold.append (.silent rfl .nil)
  rw [List.append_nil] at hall
  refine ⟨_, htokens, fun kinds => ?_, fun reference => ?_, nodup_eraseDups _⟩
  · rw [names, (hall.gives kinds.contains).1]
  · rw [references, List.mem_eraseDups, ← (hall.gives fun _ => false).2, List.mem_flatMap]

/-- A section with calls in its tag, an else chain, and a partial inside an inline partial. -/
def listed : String :=
  "\x7b\x7b#if (eq a b) x=(g c (eq d))\x7d\x7d\x7b\x7by\x7d\x7d\x7b\x7belse if b\x7d\x7d" ++
    "\x7b\x7b#*inline \"p\"\x7d\x7d\x7b\x7b\x7bz 'q'\x7d\x7d\x7d\x7b\x7b> q (h r)\x7d\x7d" ++
    "\x7b\x7b/inline\x7d\x7d\x7b\x7b/if\x7d\x7d"

theorem Template.listings_of_tokens_nested :
    ∃ t, ofSource (fun _ => none) .standard "page" listed = .ok t ∧
      t.names [.plain, .triple, .block, .call] = ["if", "eq", "g", "y", "z", "h"] ∧
      ∀ reference, reference ∈ t.references ↔ reference ∈ ["a", "b", "c", "d", "r"] := by
  -- One evaluation for both, so that the source is scanned once.
  obtain ⟨hcompiles, htokens⟩ :
      (ofSource (fun _ => none) .standard "page" listed).isOk = true ∧
      (Token.ofSource "page" .standard listed).toOption.map (fun tokens =>
        ((tokens.flatMap (Token.names [.plain, .triple, .block, .call].contains)).eraseDups,
          tokens.flatMap Token.references)) =
        some (["if", "eq", "g", "y", "z", "h"], ["a", "b", "c", "d", "b", "r"]) := by
    decide +kernel
  cases ht : ofSource (fun _ => none) .standard "page" listed with
  | error f =>
    rw [ht] at hcompiles
    cases hcompiles
  | ok t =>
    obtain ⟨tokens, hscanned, hnames, hreferences, -⟩ := listings_of_tokens ht
    rw [hscanned] at htokens
    obtain ⟨hlisted, hwritten⟩ := Prod.mk.inj (Option.some.inj htokens)
    refine ⟨t, rfl, by rw [hnames, hlisted], fun reference => ?_⟩
    rw [hreferences, ← List.mem_flatMap, hwritten]
    simp only [List.mem_cons, List.not_mem_nil, or_false]
    tauto

end Stencil
