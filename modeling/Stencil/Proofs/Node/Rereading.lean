import Stencil.Node.OfTokens
import Stencil.Proofs.Agreement
import Stencil.Proofs.Node.Alike

/-!
# Reading twice

Tokens that say the same are read as trees that are alike, or fail to parse in ways that are alike,
when what one reader binds a name to resembles what the other one does. Neither the places nor the
delimiters of tokens, nor the helpers, have a say in how a source is read.
-/

namespace Stencil

variable {R : Resemblance}

/-- What two tags say behind their names is alike. -/
structure Arguments.Alike (R : Resemblance) (found found' : Arguments) : Prop where
  args : Param.AllAlike R found.args found'.args
  hash : Param.HashAlike R found.hash found'.hash
  blockParams : found.blockParams = found'.blockParams

/-- Two ways of binding names that resemble each other. -/
structure Binding.Alike (R : Resemblance) (b b' : Binding) : Prop where
  place : R.Same b.place b'.place
  helpers : ∀ name, R.bound name (b.helperOf name) (b'.helperOf name)

namespace Expression

theorem failAt_agree {α β : Type} {V : α → β → Prop} {place place' : Location}
    (h : R.Same place place') (cause : ParseError) :
    Agree (Failure.Alike R) V (failAt place cause) (failAt place' cause) :=
  .throw (.parse h)

theorem bareParam_agree (raw : String) :
    Agree (Failure.Alike R) (Param.Alike R) (bareParam raw) (bareParam raw) := by
  have hself : ∀ p, Param.ofText raw = .ok p → Param.Alike R p p := by
    intro p hp
    obtain ⟨value?, -, hp⟩ := bind_eq_ok_iff.1 hp
    cases value? with
    | none =>
      cases hp
      exact .reference raw
    | some value =>
      cases hp
      exact .literal raw value
  unfold bareParam
  cases hp : Param.ofText raw with
  | ok p => exact .ok (hself p hp)
  | error cause => exact .error (.same _)

section

variable {b b' : Binding} (hb : b.Alike R b')

include hb

theorem blockNames_agree (items : List Item) :
    Agree (Failure.Alike R) Eq (blockNames b.place items) (blockNames b'.place items) := by
  induction items with
  | nil => exact failAt_agree hb.place _
  | cons item rest ih =>
    cases item with
    | pipe => exact .ok rfl
    | word name =>
      refine ih.bind ?_
      rintro ⟨names, left⟩ _ rfl
      exact .ok rfl
    | quoted | openParen | closeParen | equals => exact failAt_agree hb.place _

theorem blockParams_agree (items : List Item) :
    Agree (Failure.Alike R) Eq (blockParams b.place items) (blockParams b'.place items) := by
  refine (blockNames_agree hb items).bind ?_
  rintro ⟨names, left⟩ _ rfl
  dsimp only
  split
  · exact failAt_agree hb.place _
  · split
    · exact failAt_agree hb.place _
    · exact .ok rfl

theorem itemsOf_agree (expression : String) :
    Agree (Failure.Alike R) Eq (itemsOf b.place expression) (itemsOf b'.place expression) := by
  unfold itemsOf
  split
  · exact .ok rfl
  · exact failAt_agree hb.place _

end

section

variable (R) (b b' : Binding)

/-- What is to be shown of the arguments at the front of some items: they are alike, and the same
items are left. -/
abbrev ArgumentsAgree (items : List Item) : Prop :=
  ∀ inCall named, Agree (Failure.Alike R) (fun x y => x.1.Alike R y.1 ∧ x.2 = y.2)
    (arguments b inCall named items) (arguments b' inCall named items)

end

section

variable {b b' : Binding} (hb : b.Alike R b') {items : List Item}

include hb

theorem callBehind_agree
    (shorter : ∀ left : List Item, left.length < items.length → ArgumentsAgree R b b' left) :
    Agree (Failure.Alike R) (fun x y => x.1.Alike R y.1 ∧ x.2 = y.2) (callBehind b items)
      (callBehind b' items) := by
  unfold callBehind
  split
  · rename_i name rest
    refine (shorter rest (by simp) true false).bind ?_
    rintro ⟨found, left, hleft⟩ ⟨found', _⟩ ⟨hfound, rfl⟩
    dsimp only at hfound ⊢
    split
    · exact failAt_agree hb.place _
    · exact .ok ⟨.ofCall (fun h => congrArg some (hb.place h)) (hb.helpers name) hfound.args
        hfound.hash, rfl⟩
  · exact failAt_agree hb.place _

theorem param_agree
    (shorter : ∀ left : List Item, left.length < items.length → ArgumentsAgree R b b' left) :
    Agree (Failure.Alike R) (fun x y => x.1.Alike R y.1 ∧ x.2 = y.2) (param b items)
      (param b' items) := by
  unfold param
  split
  · exact failAt_agree hb.place _
  · exact (bareParam_agree _).bind fun p q hpq => .ok ⟨hpq, rfl⟩
  · exact (bareParam_agree _).bind fun p q hpq => .ok ⟨hpq, rfl⟩
  · rename_i rest
    have hshorter (left : List Item) (h : left.length < rest.length) : ArgumentsAgree R b b' left :=
      shorter left (by simp only [List.length_cons]; omega)
    refine (callBehind_agree hb hshorter).bind ?_
    rintro ⟨p, left, hleft⟩ ⟨q, _⟩ ⟨hpq, rfl⟩
    exact .ok ⟨hpq, rfl⟩
  · exact failAt_agree hb.place _

theorem positional_agree (inCall named : Bool)
    (shorter : ∀ left : List Item, left.length < items.length → ArgumentsAgree R b b' left) :
    Agree (Failure.Alike R) (fun x y => x.1.Alike R y.1 ∧ x.2 = y.2)
      (positional b inCall named items) (positional b' inCall named items) := by
  unfold positional
  split
  · exact failAt_agree hb.place _
  · refine (param_agree hb shorter).bind ?_
    rintro ⟨p, left, hleft⟩ ⟨q, _⟩ ⟨hpq, rfl⟩
    refine (shorter left hleft inCall false).bind ?_
    rintro ⟨others, last, hlast⟩ ⟨others', _⟩ ⟨hothers, rfl⟩
    exact .ok ⟨⟨.cons hpq hothers.args, hothers.hash, hothers.blockParams⟩, rfl⟩

theorem arguments_agree_of_shorter
    (shorter : ∀ left : List Item, left.length < items.length → ArgumentsAgree R b b' left) :
    ArgumentsAgree R b b' items := by
  have hnone : Arguments.Alike R {} {} := ⟨.nil, .nil, rfl⟩
  intro inCall named
  unfold arguments
  split
  · exact .ok ⟨hnone, rfl⟩
  · rename_i item after
    split
    · exact .ok ⟨hnone, rfl⟩
    · -- A named argument, block parameters, or a positional argument.
      split
      · rename_i key rest hnot
        have hrest : rest.length < (Item.word key :: .equals :: rest).length := by
          simp only [List.length_cons]
          omega
        refine (param_agree hb fun left hleft => shorter left (by omega)).bind ?_
        rintro ⟨p, left, hleft⟩ ⟨q, _⟩ ⟨hpq, rfl⟩
        refine (shorter left (by omega) inCall true).bind ?_
        rintro ⟨others, last, hlast⟩ ⟨others', _⟩ ⟨hothers, rfl⟩
        exact .ok ⟨⟨hothers.args, .cons ⟨rfl, hpq⟩ hothers.hash, hothers.blockParams⟩, rfl⟩
      · split
        · exact positional_agree hb inCall named shorter
        · refine (blockParams_agree hb _).bind ?_
          rintro names _ rfl
          exact .ok ⟨⟨.nil, .nil, rfl⟩, rfl⟩
      · exact positional_agree hb inCall named shorter

/-- Arguments are read alike, by induction on the number of items. -/
theorem arguments_agree (items : List Item) : ArgumentsAgree R b b' items := by
  induction hn : items.length using Nat.strongRecOn generalizing items with
  | ind n ih =>
    subst hn
    exact arguments_agree_of_shorter hb fun left hleft => ih left.length hleft left rfl

theorem parse_agree (expression : String) :
    Agree (Failure.Alike R) (fun x y => x.1 = y.1 ∧ x.2.Alike R y.2) (parse b expression)
      (parse b' expression) := by
  refine (itemsOf_agree hb expression).bind ?_
  rintro items _ rfl
  unfold ofItems
  split
  · refine (arguments_agree hb _ false false).bind ?_
    rintro ⟨found, left⟩ ⟨found', _⟩ ⟨hfound, rfl⟩
    exact .ok ⟨rfl, hfound⟩
  · exact failAt_agree hb.place _

end

end Expression

/-- Tokens that say the same. -/
structure Token.Alike (R : Resemblance) (t t' : Token) : Prop where
  kind : t.kind = t'.kind
  value : t.value = t'.value
  trimsBefore : t.trimsBefore = t'.trimsBefore
  trimsAfter : t.trimsAfter = t'.trimsAfter
  position : R.Same t.position t'.position
  delimiters : R.Same t.delimiters t'.delimiters

/-- Lists of tokens that say the same, one by one. -/
abbrev Token.AllAlike (R : Resemblance) : List Token → List Token → Prop :=
  List.Forall₂ (Token.Alike R)

theorem Token.Alike.refl (R : Resemblance) (t : Token) : t.Alike R t :=
  ⟨rfl, rfl, rfl, rfl, .refl R _, .refl R _⟩

namespace Node.Reader

/-- Two readers of the same source that bind names to what resembles each other. -/
structure Alike (R : Resemblance) (r r' : Reader) : Prop where
  file : r.file = r'.file
  helpers : ∀ name, R.bound name (r.helperOf name) (r'.helperOf name)

section

variable {r r' : Reader} (hr : r.Alike R r') {t t' : Token} (ht : t.Alike R t')

include hr ht

theorem location_same : R.Same (t.location r.file) (t'.location r'.file) := by
  intro hexact
  rw [Token.location, Token.location, ht.position hexact, hr.file]

theorem place_same : R.Same (some (t.location r.file)) (some (t'.location r'.file)) :=
  fun hexact => congrArg some (location_same hr ht hexact)

theorem failAt_agree {α β : Type} {V : α → β → Prop} (cause : ParseError) :
    Agree (Failure.Alike R) V (r.failAt t cause) (r'.failAt t' cause) :=
  .throw (.parse (location_same hr ht))

theorem binding_alike : (r.binding t).Alike R (r'.binding t') :=
  ⟨location_same hr ht, hr.helpers⟩

omit ht in
theorem invocation_alike {name : String} {found found' : Arguments} (h : found.Alike R found') :
    (r.invocation name found).Alike R (r'.invocation name found') :=
  ⟨rfl, h.args, h.hash, hr.helpers name⟩

theorem parse_agree :
    Agree (Failure.Alike R) (fun x y => x.1 = y.1 ∧ x.2.Alike R y.2)
      (Expression.parse (r.binding t) t.value) (Expression.parse (r'.binding t') t'.value) := by
  rw [← ht.value]
  exact Expression.parse_agree (binding_alike hr ht) t.value

theorem outputNode_agree (style : OutputStyle) :
    Agree (Failure.Alike R) (Node.Alike R) (r.outputNode t style) (r'.outputNode t' style) := by
  refine (parse_agree hr ht).bind ?_
  rintro ⟨name, found⟩ ⟨_, found'⟩ ⟨rfl, hfound⟩
  dsimp only at hfound ⊢
  rw [hfound.blockParams]
  split
  · exact failAt_agree hr ht _
  · exact .ok (.output (place_same hr ht) (invocation_alike hr hfound) ht.delimiters)

theorem partialName_agree (items : List Item) :
    Agree (Failure.Alike R) Eq (r.partialName t items) (r'.partialName t' items) := by
  unfold partialName
  split
  · exact .ok rfl
  · split
    · exact .ok rfl
    · exact failAt_agree hr ht _
  · exact failAt_agree hr ht _

theorem inclusionNode_agree :
    Agree (Failure.Alike R) (Node.Alike R) (r.inclusionNode t) (r'.inclusionNode t') := by
  have hb := binding_alike hr ht
  have hitems := Expression.itemsOf_agree hb t.value
  unfold inclusionNode
  rw [← ht.value]
  refine hitems.bind ?_
  rintro items _ rfl
  refine (partialName_agree hr ht items).bind ?_
  rintro ⟨name, rest⟩ _ rfl
  refine (Expression.arguments_agree hb rest false false).bind ?_
  rintro ⟨found, left⟩ ⟨found', _⟩ ⟨hfound, rfl⟩
  dsimp only at hfound ⊢
  rw [hfound.blockParams, hfound.args.length_eq]
  split
  · exact failAt_agree hr ht _
  · exact .ok (.inclusion (place_same hr ht) hfound.args hfound.hash ht.delimiters)

theorem inlineName_agree :
    Agree (Failure.Alike R) Eq (r.inlineName t) (r'.inlineName t') := by
  refine (parse_agree hr ht).bind ?_
  rintro ⟨decorator, found⟩ ⟨_, found'⟩ ⟨rfl, hfound⟩
  dsimp only at hfound ⊢
  split
  · exact failAt_agree hr ht _
  · -- Only a literal is alike to a literal, and only to itself.
    obtain ⟨args, hash, blockParams⟩ := found
    obtain ⟨args', hash', blockParams'⟩ := found'
    have hargs : Param.AllAlike R args args' := hfound.args
    dsimp only
    cases hargs with
    | nil => exact failAt_agree hr ht _
    | cons hp hrest =>
      cases hp with
      | reference | call => exact failAt_agree hr ht _
      | literal raw value =>
        cases hrest with
        | cons => cases value <;> exact failAt_agree hr ht _
        | nil =>
          cases value with
          | text name => exact .ok rfl
          | _ => exact failAt_agree hr ht _

theorem leaf_agree :
    Agree (Failure.Alike R) (Node.AllAlike R) (r.leaf t) (r'.leaf t') := by
  have hone {x y : Except Failure Node} (h : Agree (Failure.Alike R) (Node.Alike R) x y) :
      Agree (Failure.Alike R) (Node.AllAlike R) (do pure [← x]) (do pure [← y]) :=
    h.bind fun n m hnm => .ok (.cons hnm .nil)
  unfold leaf
  rw [← ht.kind]
  split
  · rw [ht.value]
    exact .ok (.cons (.text (place_same hr ht)) .nil)
  · rw [ht.value]
    exact .ok (.cons (.comment (place_same hr ht) ht.delimiters) .nil)
  · exact hone (outputNode_agree hr ht .plain)
  · exact hone (outputNode_agree hr ht .ampersand)
  · exact hone (outputNode_agree hr ht .triple)
  · exact hone (inclusionNode_agree hr ht)
  · exact .ok .nil

theorem closed_agree {name : String} {tokens tokens' : List Token}
    (h : Token.AllAlike R tokens tokens') :
    Agree (Failure.Alike R) (fun x y => Token.AllAlike R x.1 y.1) (r.closed t name tokens)
      (r'.closed t' name tokens') := by
  cases h with
  | nil => exact failAt_agree hr ht _
  | cons hu hrest =>
    unfold closed
    dsimp only
    rw [hu.kind, hu.value]
    split
    · exact failAt_agree hr ht _
    · split
      · exact failAt_agree hr hu _
      · exact .ok hrest

end

section

variable (R) (r r' : Reader)

/-- What is to be shown of the nodes at the front of some tokens. -/
def NodesAgree (tokens : List Token) : Prop :=
  ∀ tokens', Token.AllAlike R tokens tokens' →
    Agree (Failure.Alike R)
      (fun x y => Node.AllAlike R x.1 y.1 ∧ Token.AllAlike R x.2.1 y.2.1) (r.nodes tokens)
      (r'.nodes tokens')

/-- What is to be shown of a section whose opening tag stands before some tokens. -/
def BlockAgree (tokens : List Token) : Prop :=
  ∀ tokens' opener opener' expression inverted, Token.AllAlike R tokens tokens' →
    opener.Alike R opener' → Agree (Failure.Alike R)
      (fun x y => x.1.Alike R y.1 ∧ Node.Alike R x.2.1 y.2.1 ∧ Token.AllAlike R x.2.2.1 y.2.2.1)
      (r.block opener expression inverted tokens) (r'.block opener' expression inverted tokens')

end

section

variable {r r' : Reader} (hr : r.Alike R r') {tokens : List Token}

include hr

theorem block_agree_of_shorter (hnodes : NodesAgree R r r' tokens)
    (shorterNodes : ∀ left : List Token, left.length < tokens.length → NodesAgree R r r' left)
    (shorterBlock : ∀ left : List Token, left.length < tokens.length → BlockAgree R r r' left) :
    BlockAgree R r r' tokens := by
  intro tokens' opener opener' expression inverted htokens hopener
  unfold block
  refine (Expression.parse_agree (binding_alike hr hopener) expression).bind ?_
  rintro ⟨name, found⟩ ⟨_, found'⟩ ⟨rfl, hfound⟩
  refine (hnodes tokens' htokens).bind ?_
  rintro ⟨body, left, hleft⟩ ⟨body', left', hleft'⟩ ⟨hbody, hlefts⟩
  dsimp only at hfound hbody hlefts ⊢
  have hclause := Node.ClauseAlike.some hbody
  have hhead (label : ElseLabel) {elsePlace elsePlace' : Option Location}
      (helse : R.Same elsePlace elsePlace') : BlockHead.Alike R
        { place := opener.location r.file, inverted, call := r.invocation name found,
          blockParams := found.blockParams, label, elsePlace, delimiters := opener.delimiters }
        { place := opener'.location r'.file, inverted, call := r'.invocation name found',
          blockParams := found'.blockParams, label, elsePlace := elsePlace',
          delimiters := opener'.delimiters } :=
    ⟨place_same hr hopener, rfl, invocation_alike hr hfound, hfound.blockParams, rfl, helse,
      hopener.delimiters⟩
  cases hlefts with
  | nil => exact .ok ⟨hhead _ (.refl R _), .ofBlock (hhead _ (.refl R _)) hclause .none, .nil⟩
  | @cons t t' rest rest' ht hrest =>
    have hshort : rest.length < tokens.length := by
      simp only [List.length_cons] at hleft
      omega
    dsimp only
    rw [← ht.kind, ← ht.value]
    split
    · rename_i label hkind
      have helse := place_same hr ht
      split
      · refine (shorterBlock rest hshort rest' t t' _ _ hrest ht).bind ?_
        rintro ⟨inner, nested, last, hlast⟩ ⟨inner', nested', last', hlast'⟩ ⟨-, hnested, hlasts⟩
        exact .ok ⟨hhead _ helse, .ofBlock (hhead _ helse) hclause (.some (.cons hnested .nil)),
          hlasts⟩
      · refine (shorterNodes rest hshort rest' hrest).bind ?_
        rintro ⟨inverse, last, hlast⟩ ⟨inverse', last', hlast'⟩ ⟨hinverse, hlasts⟩
        dsimp only at hinverse hlasts ⊢
        have hnode := Node.Alike.ofBlock (hhead label helse) hclause (.some hinverse)
        cases hlasts with
        | nil => exact .ok ⟨hhead _ helse, hnode, .nil⟩
        | cons hstop hbehind =>
          simp only [List.head?_cons]
          rw [← hstop.kind]
          split
          · exact failAt_agree hr hstop _
          · exact .ok ⟨hhead _ helse, hnode, .cons hstop hbehind⟩
    · exact .ok ⟨hhead _ (.refl R _), .ofBlock (hhead _ (.refl R _)) hclause .none,
        .cons ht hrest⟩

theorem nodes_agree_of_shorter
    (shorterNodes : ∀ left : List Token, left.length < tokens.length → NodesAgree R r r' left)
    (shorterBlock : ∀ left : List Token, left.length < tokens.length → BlockAgree R r r' left) :
    NodesAgree R r r' tokens := by
  intro tokens' htokens
  unfold nodes
  cases htokens with
  | nil => exact .ok ⟨.nil, .nil⟩
  | @cons t t' rest rest' ht hrest =>
    -- A node that has been read, its closing tag, and the nodes behind it.
    have hclosed (name : String) {left left' : List Token} {node node' : Node}
        (hnode : Node.Alike R node node') (hlefts : Token.AllAlike R left left')
        (hlen : left.length ≤ rest.length) (hlen' : left'.length ≤ rest'.length) :
        Agree (Failure.Alike R)
          (fun x y => Node.AllAlike R x.1 y.1 ∧ Token.AllAlike R x.2.1 y.2.1)
          (do
            let after ← r.closed t name left
            let found ← nodes r after.1
            pure (node :: found.1, (⟨found.2.1, by
              have hafter := after.2
              have hlast := found.2.2
              simp only [List.length_cons]
              omega⟩ : { last : List Token // last.length ≤ (t :: rest).length })))
          (do
            let after ← r'.closed t' name left'
            let found ← nodes r' after.1
            pure (node' :: found.1, (⟨found.2.1, by
              have hafter := after.2
              have hlast := found.2.2
              simp only [List.length_cons]
              omega⟩ : { last : List Token // last.length ≤ (t' :: rest').length }))) := by
      refine (closed_agree hr ht hlefts).bind ?_
      rintro ⟨after, hafter⟩ ⟨after', hafter'⟩ hafters
      have hshort : after.length < (t :: rest).length := by
        simp only [List.length_cons]
        omega
      refine (shorterNodes after hshort after' hafters).bind ?_
      rintro ⟨others, last, hlast⟩ ⟨others', last', hlast'⟩ ⟨hothers, hlasts⟩
      exact .ok ⟨.cons hnode hothers, hlasts⟩
    dsimp only
    rw [← ht.kind]
    split
    · exact .ok ⟨.nil, .cons ht hrest⟩
    · exact .ok ⟨.nil, .cons ht hrest⟩
    · exact .ok ⟨.nil, .cons ht hrest⟩
    · rw [ht.value]
      refine (shorterBlock rest (by simp) rest' t t' _ _ hrest ht).bind ?_
      rintro ⟨head, node, left, hleft⟩ ⟨head', node', left', hleft'⟩ ⟨hhead, hnode, hlefts⟩
      dsimp only at hhead ⊢
      rw [← hhead.call.name]
      exact hclosed _ hnode hlefts hleft hleft'
    · rw [ht.value]
      refine (shorterBlock rest (by simp) rest' t t' _ _ hrest ht).bind ?_
      rintro ⟨head, node, left, hleft⟩ ⟨head', node', left', hleft'⟩ ⟨hhead, hnode, hlefts⟩
      dsimp only at hhead ⊢
      rw [← hhead.call.name]
      exact hclosed _ hnode hlefts hleft hleft'
    · refine (inlineName_agree hr ht).bind ?_
      rintro name _ rfl
      refine (shorterNodes rest (by simp) rest' hrest).bind ?_
      rintro ⟨body, left, hleft⟩ ⟨body', left', hleft'⟩ ⟨hbody, hlefts⟩
      have hnode := Node.Alike.ofInlinePartial name (place_same hr ht) hbody ht.delimiters
      dsimp only at hlefts ⊢
      have hbehind := hclosed "inline" hnode hlefts hleft hleft'
      cases hlefts with
      | nil => exact hbehind
      | cons hstop hmore =>
        simp only [List.head?_cons]
        rw [← hstop.kind]
        split
        · exact failAt_agree hr hstop _
        · exact hbehind
    · refine (leaf_agree hr ht).bind fun first first' hfirst => ?_
      refine (shorterNodes rest (by simp) rest' hrest).bind ?_
      rintro ⟨others, last, hlast⟩ ⟨others', last', hlast'⟩ ⟨hothers, hlasts⟩
      exact .ok ⟨List.rel_append hfirst hothers, hlasts⟩

/-- Lists of nodes and sections are read alike, by induction on the number of tokens. -/
theorem nodes_and_block_agree (tokens : List Token) :
    NodesAgree R r r' tokens ∧ BlockAgree R r r' tokens := by
  induction hn : tokens.length using Nat.strongRecOn generalizing tokens with
  | ind n ih =>
    subst hn
    have shorterNodes (left : List Token) (h : left.length < tokens.length) :=
      (ih left.length h left rfl).1
    have shorterBlock (left : List Token) (h : left.length < tokens.length) :=
      (ih left.length h left rfl).2
    have hnodes := nodes_agree_of_shorter hr shorterNodes shorterBlock
    exact ⟨hnodes, block_agree_of_shorter hr hnodes shorterNodes shorterBlock⟩

theorem whole_agree {tokens' : List Token} (h : Token.AllAlike R tokens tokens') :
    Agree (Failure.Alike R) (Node.AllAlike R) (r.whole tokens) (r'.whole tokens') := by
  refine ((nodes_and_block_agree hr tokens).1 tokens' h).bind ?_
  rintro ⟨found, left, hleft⟩ ⟨found', left', hleft'⟩ ⟨hfound, hlefts⟩
  dsimp only at hfound hlefts ⊢
  cases hlefts with
  | nil => exact .ok hfound
  | cons ht hrest =>
    dsimp only
    rw [← ht.kind, ← ht.value]
    split
    · exact failAt_agree hr ht _
    · exact failAt_agree hr ht _
    · exact .ok hfound

end

end Node.Reader

namespace Template

/-- Sources whose tokens say the same compile to templates that are alike, or fail alike. -/
theorem ofSource_agree_of_tokens {helperOf helperOf' : String → Option Helper}
    (hbound : ∀ name, R.bound name (helperOf name) (helperOf' name)) {marks marks' : Delimiters}
    {name source source' : String}
    (h : Agree (Failure.Alike R) (Token.AllAlike R) (Token.ofSource name marks source)
      (Token.ofSource name marks' source')) :
    Agree (Failure.Alike R) (Alike R) (ofSource helperOf marks name source)
      (ofSource helperOf' marks' name source') := by
  have hreaders : Node.Reader.Alike R ⟨name, helperOf⟩ ⟨name, helperOf'⟩ := ⟨rfl, hbound⟩
  refine h.bind fun tokens tokens' htokens => ?_
  refine (Node.Reader.whole_agree hreaders htokens).bind fun root root' hroot => ?_
  exact .ok ⟨rfl, hroot, .refl R _⟩

/-- One source compiles to templates that are alike, or fails alike, when what names are bound to
resembles each other. -/
theorem ofSource_agree {helperOf helperOf' : String → Option Helper}
    (hbound : ∀ name, R.bound name (helperOf name) (helperOf' name)) (marks : Delimiters)
    (name source : String) :
    Agree (Failure.Alike R) (Alike R) (ofSource helperOf marks name source)
      (ofSource helperOf' marks name source) :=
  ofSource_agree_of_tokens hbound
    (.refl .same (fun _ => List.forall₂_same.2 fun t _ => .refl R t) _)

end Template

end Stencil
