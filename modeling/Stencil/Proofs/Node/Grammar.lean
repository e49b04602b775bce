import Mathlib.Data.List.Forall2
import Stencil.Proofs.Node.Reading
import Stencil.Proofs.Node.Within

/-!
# The grammar of tokens

Which tokens are read as a tree: those in which every section and every inline partial is closed
under its own name, and every else clause stands in a section. The grammar is a relation on lists of
tokens. Reading accepts what the grammar derives and nothing else, and the nodes of the tree say in
order what the tokens say.
-/

namespace Stencil

namespace Node.Reader

/-! ## The grammar -/

/-- What the grammar derives. -/
inductive Part where
  /-- A list of nodes. -/
  | nodes
  /-- What stands between the tags of a section. -/
  | clauses

/-- The name that the expression of a tag begins with. -/
def Names (r : Reader) (t : Token) (name : String) : Prop :=
  ∃ args, Expression.parse (r.binding t) t.value = .ok (name, args)

/-- Balanced tokens. A section is closed under the name of its opening tag, whatever its else tags
are called, and it has at most one else tag without an expression, its last one. -/
inductive Derives (r : Reader) : Part → List Token → Prop where
  | nil : Derives r .nodes []
  | leaf {t : Token} {ts : List Token} : IsLeaf t.kind = true → Derives r .nodes ts →
      Derives r .nodes (t :: ts)
  | block {t u : Token} {name : String} {inner ts : List Token} :
      t.kind = .opening ∨ t.kind = .inverted → r.Names t name → Derives r .clauses inner →
      u.kind = .closing → u.value = name → Derives r .nodes ts →
      Derives r .nodes (t :: (inner ++ u :: ts))
  | inline {t u : Token} {inner ts : List Token} : t.kind = .inline → Derives r .nodes inner →
      u.kind = .closing → u.value = "inline" → Derives r .nodes ts →
      Derives r .nodes (t :: (inner ++ u :: ts))
  | body {ts : List Token} : Derives r .nodes ts → Derives r .clauses ts
  | otherwise {t : Token} {label : ElseLabel} {ts us : List Token} : Derives r .nodes ts →
      t.kind = .otherwise label → t.value = "" → Derives r .nodes us →
      Derives r .clauses (ts ++ t :: us)
  | chain {t : Token} {label : ElseLabel} {ts us : List Token} : Derives r .nodes ts →
      t.kind = .otherwise label → t.value ≠ "" → Derives r .clauses us →
      Derives r .clauses (ts ++ t :: us)

/-- The end of the source is no part of what the grammar derives. -/
theorem Derives.ne_ending {r : Reader} {part : Part} {ts : List Token} (h : Derives r part ts) :
    ∀ t ∈ ts, t.kind ≠ .ending := by
  induction h with
  | nil => exact List.forall_mem_nil _
  | @leaf t ts ht _ ih =>
    refine List.forall_mem_cons.2 ⟨fun hending => ?_, ih⟩
    rw [hending] at ht
    cases ht
  | block ht _ _ hu _ _ ihInner ih =>
    refine List.forall_mem_cons.2 ⟨?_, List.forall_mem_append.2 ⟨ihInner, ?_⟩⟩
    · rcases ht with ht | ht <;> simp [ht]
    · exact List.forall_mem_cons.2 ⟨by simp [hu], ih⟩
  | inline ht _ hu _ _ ihInner ih =>
    refine List.forall_mem_cons.2 ⟨by simp [ht], List.forall_mem_append.2 ⟨ihInner, ?_⟩⟩
    exact List.forall_mem_cons.2 ⟨by simp [hu], ih⟩
  | body _ ih => exact ih
  | otherwise _ ht _ _ ih ihInverse =>
    exact List.forall_mem_append.2 ⟨ih, List.forall_mem_cons.2 ⟨by simp [ht], ihInverse⟩⟩
  | chain _ ht _ _ ih ihNested =>
    exact List.forall_mem_append.2 ⟨ih, List.forall_mem_cons.2 ⟨by simp [ht], ihNested⟩⟩

/-! ## What nodes say of tokens -/

/-- The tags that a section can begin with: its own, or an else tag with an expression. -/
def BeginsSection : TokenKind → Bool
  | .opening | .inverted | .otherwise _ => true
  | _ => false

/-- A node says what the text or the tag says that it was read from. -/
inductive Tells (r : Reader) (t : Token) : Node → Prop where
  | text : t.kind = .text → Tells r t (.text (t.location r.file) t.value)
  | comment : t.kind = .comment → Tells r t (.comment (t.location r.file) t.value t.delimiters)
  | output {style : OutputStyle} {name : String} {args : Arguments} : t.kind = outputKind style →
      Expression.parse (r.binding t) t.value = .ok (name, args) →
      Tells r t (.output (t.location r.file) style (r.invocation name args) t.delimiters)
  | inclusion {items rest : List Item} {name : String} {args : Arguments}
      {left : { left : List Item // left.length ≤ rest.length }} : t.kind = .inclusion →
      Expression.itemsOf (t.location r.file) t.value = .ok items →
      r.partialName t items = .ok (name, rest) →
      Expression.arguments (r.binding t) false false rest = .ok (args, left) →
      Tells r t (.inclusion (t.location r.file) name args.args args.hash t.delimiters)
  | block {name : String} {args : Arguments} {label : ElseLabel} {elsePlace : Option Location}
      {body inverse : Option (List Node)} : BeginsSection t.kind = true →
      Expression.parse (r.binding t) t.value = .ok (name, args) →
      Tells r t (.block { headOf r t (t.kind == .inverted) name args with label, elsePlace } body
        inverse)
  | inlinePartial {name : String} {body : List Node} : t.kind = .inline →
      r.inlineName t = .ok name →
      Tells r t (.inlinePartial (t.location r.file) name body t.delimiters)

/-- The tokens that are read as nodes: all but those that set delimiters, close a section or an
inline partial, or begin an else clause without an expression. -/
def MakesNode (t : Token) : Bool :=
  match t.kind with
  | .delimiters | .closing | .ending => false
  | .otherwise _ => t.value != ""
  | _ => true

/-- A tree says in order what the tokens say, one node for each token that is read as a node. -/
def Told (r : Reader) (tokens : List Token) (found : List Node) : Prop :=
  List.Forall₂ r.Tells (tokens.filter MakesNode) (withinAll found)

namespace Told

variable {r : Reader} {t : Token} {ts us : List Token} {n : Node} {found others : List Node}

theorem nil : r.Told [] [] := List.Forall₂.nil

theorem append (h : r.Told ts found) (hothers : r.Told us others) :
    r.Told (ts ++ us) (found ++ others) := by
  rw [Told, List.filter_append, withinAll_append]
  exact List.rel_append h hothers

/-- A token that is not read as a node says nothing. -/
theorem silent (ht : MakesNode t = false) (h : r.Told ts found) : r.Told (t :: ts) found := by
  rw [Told, List.filter_cons_of_neg (by simp [ht])]
  exact h

/-- A node is told before its children are. -/
theorem cons (ht : MakesNode t = true) (hn : r.Tells t n) (h : r.Told ts n.children) :
    r.Told (t :: ts) [n] := by
  rw [Told, List.filter_cons_of_pos ht, withinAll, withinAll, List.append_nil, within_eq_cons]
  exact .cons hn h

/-- A token that is read by itself is read as at most one node. -/
theorem of_leaf (hkind : IsLeaf t.kind = true) (h : r.leaf t = .ok found) : r.Told [t] found := by
  unfold leaf at h
  cases ht : t.kind with
  | text | comment =>
    rw [ht] at h
    cases h
    exact cons (by simp [MakesNode, ht]) (by first | exact .text ht | exact .comment ht) nil
  | plain | ampersand | triple =>
    rw [ht] at h
    obtain ⟨n, hn, h⟩ := bind_eq_ok_iff.1 h
    cases h
    obtain ⟨⟨name, args⟩, hparse, hn⟩ := bind_eq_ok_iff.1 hn
    dsimp only at hn
    split at hn
    · cases hn
    · cases hn
      exact cons (by simp [MakesNode, ht]) (.output (by rw [ht]; rfl) hparse) nil
  | inclusion =>
    rw [ht] at h
    obtain ⟨n, hn, h⟩ := bind_eq_ok_iff.1 h
    cases h
    obtain ⟨items, hitems, hn⟩ := bind_eq_ok_iff.1 hn
    obtain ⟨⟨name, rest⟩, hname, hn⟩ := bind_eq_ok_iff.1 hn
    obtain ⟨⟨args, left⟩, hargs, hn⟩ := bind_eq_ok_iff.1 hn
    dsimp only at hn
    split at hn
    · cases hn
    · cases hn
      exact cons (by simp [MakesNode, ht]) (.inclusion ht hitems hname hargs) nil
  | delimiters =>
    rw [ht] at h
    cases h
    exact silent (by simp [MakesNode, ht]) nil
  | opening | inverted | closing | otherwise | inline | ending =>
    rw [ht] at hkind
    cases hkind

end Told

/-! ## What is read is derived -/

/-- What has been read up to the rest of some tokens is balanced, and the tree tells of it. -/
def Accounts (r : Reader) (part : Part) (tokens : List Token) (found : List Node)
    (rest : List Token) : Prop :=
  ∃ front, tokens = front ++ rest ∧ Derives r part front ∧ r.Told front found

/-- A list of nodes ends at a token that ends lists, or with the tokens. -/
def Ends (rest : List Token) : Prop := ∀ t ∈ rest.head?, Stops t.kind = true

/-- What ends lists is the end, unless it is a closing tag or an else tag. -/
theorem ending_of_stops {kind : TokenKind} (h : Stops kind = true) (hclosing : kind ≠ .closing)
    (helse : ∀ label, kind ≠ .otherwise label) : kind = .ending := by
  cases kind with
  | ending => rfl
  | closing => exact absurd rfl hclosing
  | otherwise label => exact absurd rfl (helse label)
  | _ => cases h

/-- Tokens that stand before an end, and have none at their own end, are all those before the last token
when that is the only end. -/
theorem eq_of_append_ending {tokens front rest : List Token} {last : Token}
    (hsplit : tokens ++ [last] = front ++ rest) (hlast : last.kind = .ending)
    (htokens : ∀ t ∈ tokens, t.kind ≠ .ending) (hfront : ∀ t ∈ front.getLast?, t.kind ≠ .ending)
    (hrest : ∀ t ∈ rest.head?, t.kind = .ending) : front = tokens := by
  rcases List.eq_nil_or_concat rest with rfl | ⟨more, u, rfl⟩
  · rw [List.append_nil] at hsplit
    subst hsplit
    exact absurd hlast (hfront last (by simp))
  · rw [List.concat_eq_append, ← List.append_assoc] at hsplit
    obtain ⟨rfl, -⟩ := List.append_inj' hsplit rfl
    cases more with
    | nil => rw [List.append_nil]
    | cons v more => exact absurd (hrest v rfl) (htokens v (by simp))

/-- Whatever list of nodes is read at the front of some tokens is accounted for. -/
def NodesAccounted (r : Reader) (tokens : List Token) : Prop :=
  ∀ found rest, NodesRead r tokens found rest → r.Accounts .nodes tokens found rest ∧ Ends rest

/-- Whatever section is read behind its opening tag is accounted for. -/
def BlockAccounted (r : Reader) (tokens : List Token) : Prop :=
  ∀ opener head node rest, BeginsSection opener.kind = true →
    BlockRead r opener opener.value (opener.kind == .inverted) tokens head node rest →
    r.Names opener head.call.name ∧ r.Tells opener node ∧
      r.Accounts .clauses tokens node.children rest

variable {r : Reader}

theorem block_accounted_of_shorter {tokens : List Token} (hnodes : NodesAccounted r tokens)
    (shorterNodes : ∀ left : List Token, left.length < tokens.length → NodesAccounted r left)
    (shorterBlock : ∀ left : List Token, left.length < tokens.length → BlockAccounted r left) :
    BlockAccounted r tokens := by
  intro opener head node rest hopener h
  obtain ⟨name, args, body, left, hparse, hbody, hclauses⟩ := h.cases
  obtain ⟨⟨front, rfl, hfront, htold⟩, -⟩ := hnodes body left hbody
  rcases hclauses with ⟨-, rfl, rfl, rfl⟩ | ⟨t, behind, label, rfl, ht, rfl, hinverse⟩
  · refine ⟨⟨args, hparse⟩, .block hopener hparse, front, rfl, .body hfront, ?_⟩
    simpa [children] using htold
  · have hshort : behind.length < (front ++ t :: behind).length := by
      rw [List.length_append, List.length_cons]
      omega
    rcases hinverse with ⟨hvalue, inverse, hread, -, rfl⟩ | ⟨hvalue, inner, nested, hread, rfl⟩
    · obtain ⟨⟨others, rfl, hothers, htoldOthers⟩, -⟩ :=
        shorterNodes behind hshort inverse rest hread
      refine ⟨⟨args, hparse⟩, .block hopener hparse, front ++ t :: others, by simp,
        .otherwise hfront ht hvalue hothers, ?_⟩
      exact htold.append (.silent (by simp [MakesNode, ht, hvalue]) htoldOthers)
    · -- The else tag opens a section of its own, which takes the rest of the clauses.
      have hinverted : (t.kind == .inverted) = false := by simp [ht]
      rw [← hinverted] at hread
      obtain ⟨-, htells, others, rfl, hothers, htoldOthers⟩ :=
        shorterBlock behind hshort t inner nested rest (by simp [BeginsSection, ht]) hread
      refine ⟨⟨args, hparse⟩, .block hopener hparse, front ++ t :: others, by simp,
        .chain hfront ht hvalue hothers, ?_⟩
      exact htold.append (.cons (by simp [MakesNode, ht, hvalue]) htells htoldOthers)

theorem nodes_accounted_of_shorter {tokens : List Token}
    (shorterNodes : ∀ left : List Token, left.length < tokens.length → NodesAccounted r left)
    (shorterBlock : ∀ left : List Token, left.length < tokens.length → BlockAccounted r left) :
    NodesAccounted r tokens := by
  intro found last h
  cases tokens with
  | nil =>
    obtain ⟨_, h⟩ := h
    rw [nodes] at h
    cases h
    exact ⟨⟨[], rfl, .nil, .nil⟩, fun _ ht => by cases ht⟩
  | cons t rest =>
    rcases h.cases with ⟨ht, rfl, rfl⟩ | ⟨ht, first, others, hleaf, hrest, rfl⟩ |
      ⟨ht, head, node, u, after, others, hblock, hu, hvalue, hafter, rfl⟩ |
      ⟨ht, name, body, u, after, others, hname, hbody, hu, hvalue, hafter, rfl⟩
    · refine ⟨⟨[], rfl, .nil, .nil⟩, fun s hs => ?_⟩
      cases hs
      exact ht
    · obtain ⟨⟨front, rfl, hfront, htold⟩, hends⟩ := shorterNodes rest (by simp) others last hrest
      exact ⟨⟨t :: front, rfl, .leaf ht hfront, (Told.of_leaf ht hleaf).append htold⟩, hends⟩
    · have hopener : BeginsSection t.kind = true := by rcases ht with ht | ht <;> rw [ht] <;> rfl
      have hmakes : MakesNode t = true := by rcases ht with ht | ht <;> simp [MakesNode, ht]
      obtain ⟨hnames, htells, inner, rfl, hinner, htoldInner⟩ :=
        shorterBlock rest (by simp) t head node _ hopener hblock
      obtain ⟨⟨front, rfl, hfront, htold⟩, hends⟩ :=
        shorterNodes after (by simp; omega) others last hafter
      refine ⟨⟨t :: (inner ++ u :: front), by simp, .block ht hnames hinner hu hvalue hfront, ?_⟩,
        hends⟩
      exact (Told.cons hmakes htells htoldInner).append (.silent (by simp [MakesNode, hu]) htold)
    · obtain ⟨⟨inner, rfl, hinner, htoldInner⟩, -⟩ := shorterNodes rest (by simp) body _ hbody
      obtain ⟨⟨front, rfl, hfront, htold⟩, hends⟩ :=
        shorterNodes after (by simp; omega) others last hafter
      refine ⟨⟨t :: (inner ++ u :: front), by simp, .inline ht hinner hu hvalue hfront, ?_⟩, hends⟩
      exact (Told.cons (by simp [MakesNode, ht]) (.inlinePartial ht hname) htoldInner).append
        (.silent (by simp [MakesNode, hu]) htold)

/-- What is read is accounted for, by induction on the number of tokens. -/
theorem accounted (r : Reader) (tokens : List Token) :
    NodesAccounted r tokens ∧ BlockAccounted r tokens := by
  induction hn : tokens.length using Nat.strongRecOn generalizing tokens with
  | ind n ih =>
    subst hn
    have shorterNodes (left : List Token) (h : left.length < tokens.length) :=
      (ih left.length h left rfl).1
    have shorterBlock (left : List Token) (h : left.length < tokens.length) :=
      (ih left.length h left rfl).2
    have hnodes := nodes_accounted_of_shorter shorterNodes shorterBlock
    exact ⟨hnodes, block_accounted_of_shorter hnodes shorterNodes shorterBlock⟩

/-! ## What is derived is read -/

/-- The expression of a tag is one that its kind can have. -/
def Valid (r : Reader) (t : Token) : Prop :=
  match t.kind with
  | .opening | .inverted => ∃ name, r.Names t name
  | .otherwise _ => t.value ≠ "" → ∃ name, r.Names t name
  | .inline => ∃ name, r.inlineName t = .ok name
  | .closing | .ending => True
  | _ => ∃ found, r.leaf t = .ok found

theorem Valid.leaf {t : Token} (h : r.Valid t) (ht : IsLeaf t.kind = true) :
    ∃ found, r.leaf t = .ok found := by
  unfold Valid at h
  cases hkind : t.kind with
  | text | plain | triple | ampersand | inclusion | comment | delimiters =>
    rw [hkind] at h
    exact h
  | opening | inverted | closing | otherwise | inline | ending =>
    rw [hkind] at ht
    cases ht

/-- Tokens are read in front of whatever can end them. -/
def Readable (r : Reader) : Part → List Token → Prop
  | .nodes, ts => ∀ stopper after, Stops stopper.kind = true →
    ∃ found, NodesRead r (ts ++ stopper :: after) found (stopper :: after)
  | .clauses, ts => ∀ opener inverted name stopper after, r.Names opener name →
    stopper.kind = .closing → ∃ head node,
      BlockRead r opener opener.value inverted (ts ++ stopper :: after) head node
        (stopper :: after) ∧ head.call.name = name

/-- Balanced tokens with valid expressions are read, by induction on their derivation. -/
theorem Derives.readable {part : Part} {ts : List Token} (h : Derives r part ts)
    (hvalid : ∀ t ∈ ts, r.Valid t) : r.Readable part ts := by
  induction h with
  | nil => exact fun stopper after hstop => ⟨[], .stop hstop⟩
  | leaf ht _ ih =>
    intro stopper after hstop
    obtain ⟨ht', hts⟩ := List.forall_mem_cons.1 hvalid
    obtain ⟨first, hfirst⟩ := ht'.leaf ht
    obtain ⟨others, hothers⟩ := ih hts stopper after hstop
    exact ⟨first ++ others, .leaf ht hfirst hothers⟩
  | @block t u name inner ts ht hname _ hu hvalue _ ihInner ih =>
    intro stopper after hstop
    obtain ⟨-, hrest⟩ := List.forall_mem_cons.1 hvalid
    obtain ⟨hinner, hrest⟩ := List.forall_mem_append.1 hrest
    obtain ⟨others, hothers⟩ := ih (List.forall_mem_cons.1 hrest).2 stopper after hstop
    obtain ⟨head, node, hblock, hhead⟩ :=
      ihInner hinner t (t.kind == .inverted) name u (ts ++ stopper :: after) hname hu
    refine ⟨node :: others, ?_⟩
    rw [List.cons_append, List.append_assoc]
    exact .section ht hblock hu (hvalue.trans hhead.symm) hothers
  | @inline t u inner ts ht _ hu hvalue _ ihInner ih =>
    intro stopper after hstop
    obtain ⟨ht', hrest⟩ := List.forall_mem_cons.1 hvalid
    obtain ⟨hinner, hrest⟩ := List.forall_mem_append.1 hrest
    obtain ⟨others, hothers⟩ := ih (List.forall_mem_cons.1 hrest).2 stopper after hstop
    obtain ⟨body, hbody⟩ := ihInner hinner u (ts ++ stopper :: after) (by rw [hu]; rfl)
    rw [Valid, ht] at ht'
    obtain ⟨name, hname⟩ := ht'
    refine ⟨.inlinePartial (t.location r.file) name body t.delimiters :: others, ?_⟩
    rw [List.cons_append, List.append_assoc]
    exact .inline ht hname hbody hu hvalue hothers
  | body _ ih =>
    rintro opener inverted name stopper after ⟨args, hparse⟩ hstop
    obtain ⟨found, hfound⟩ := ih hvalid stopper after (by rw [hstop]; rfl)
    exact ⟨_, _, .plain hparse hfound hstop, rfl⟩
  | @otherwise t label ts us _ ht hvalue _ ih ihInverse =>
    rintro opener inverted name stopper after ⟨args, hparse⟩ hstop
    obtain ⟨hts, hrest⟩ := List.forall_mem_append.1 hvalid
    obtain ⟨body, hbody⟩ := ih hts t (us ++ stopper :: after) (by rw [ht]; rfl)
    obtain ⟨inverse, hinverse⟩ :=
      ihInverse (List.forall_mem_cons.1 hrest).2 stopper after (by rw [hstop]; rfl)
    rw [List.append_assoc]
    exact ⟨_, _, .otherwise hparse hbody ht hvalue hinverse hstop, rfl⟩
  | @chain t label ts us _ ht hvalue _ ih ihNested =>
    rintro opener inverted name stopper after ⟨args, hparse⟩ hstop
    obtain ⟨hts, hrest⟩ := List.forall_mem_append.1 hvalid
    obtain ⟨ht', hus⟩ := List.forall_mem_cons.1 hrest
    obtain ⟨body, hbody⟩ := ih hts t (us ++ stopper :: after) (by rw [ht]; rfl)
    rw [Valid, ht] at ht'
    obtain ⟨nestedName, hnested⟩ := ht' hvalue
    obtain ⟨inner, nested, hblock, -⟩ :=
      ihNested hus t false nestedName stopper after hnested hstop
    rw [List.append_assoc]
    exact ⟨_, _, .chain hparse hbody ht hvalue hblock, rfl⟩

/-! ## Whole sources -/

/-- A whole source that is read is read up to its end. -/
theorem whole_inv {tokens : List Token} {found : List Node} (h : r.whole tokens = .ok found) :
    ∃ rest, NodesRead r tokens found rest ∧
      ∀ t ∈ rest.head?, t.kind ≠ .closing ∧ ∀ label, t.kind ≠ .otherwise label := by
  obtain ⟨⟨read, left, hleft⟩, hread, h⟩ := bind_eq_ok_iff.1 h
  dsimp only at h
  split at h
  · cases h
    exact ⟨[], ⟨_, hread⟩, fun _ ht => by cases ht⟩
  · rename_i t rest
    split at h
    · cases h
    · cases h
    · rename_i hclosing hotherwise
      cases h
      refine ⟨t :: rest, ⟨_, hread⟩, fun s hs => ?_⟩
      cases hs
      exact ⟨hclosing, hotherwise⟩

/-- Tokens with valid expressions are read to their end if and only if they are balanced, and then
the tree has one node for each token that is read as a node, in their order, which says what the
token says. -/
theorem whole_iff_derives {tokens : List Token} {last : Token} (hlast : last.kind = .ending)
    (htokens : ∀ t ∈ tokens, t.kind ≠ .ending) (hvalid : ∀ t ∈ tokens, r.Valid t) :
    ((∃ found, r.whole (tokens ++ [last]) = .ok found) ↔ Derives r .nodes tokens) ∧
      ∀ found, r.whole (tokens ++ [last]) = .ok found → r.Told tokens found := by
  have hread (found : List Node) (h : r.whole (tokens ++ [last]) = .ok found) :
      Derives r .nodes tokens ∧ r.Told tokens found := by
    obtain ⟨rest, hnodes, hrest⟩ := whole_inv h
    obtain ⟨⟨front, hsplit, hfront, htold⟩, hends⟩ := (accounted r _).1 found rest hnodes
    have hfrontTokens : front = tokens := by
      cases rest with
      | nil =>
        -- The end would be part of what the grammar derives.
        rw [List.append_nil] at hsplit
        have hmem : last ∈ front := by simp [← hsplit]
        exact absurd hlast (hfront.ne_ending last hmem)
      | cons t behind =>
        have hending : t.kind = .ending := by
          have hstops := hends t rfl
          obtain ⟨hclosing, hotherwise⟩ := hrest t rfl
          cases hkind : t.kind with
          | ending => rfl
          | closing => exact absurd hkind hclosing
          | otherwise label => exact absurd hkind (hotherwise label)
          | _ =>
            rw [hkind] at hstops
            cases hstops
        rcases List.append_eq_append_iff.1 hsplit with ⟨more, rfl, hmore⟩ | ⟨more, rfl, hmore⟩
        · cases more with
          | nil => rw [List.append_nil]
          | cons s more =>
            obtain ⟨-, hnil⟩ := List.cons.inj hmore
            exact absurd (congrArg List.length hnil) (by simp)
        · cases more with
          | nil => rw [List.append_nil]
          | cons s more =>
            obtain ⟨rfl, -⟩ := List.cons.inj hmore
            exact absurd hending (htokens t (by simp))
    subst hfrontTokens
    exact ⟨hfront, htold⟩
  refine ⟨Iff.intro ?_ fun h => ?_, fun found h => (hread found h).2⟩
  · rintro ⟨found, h⟩
    exact (hread found h).1
  · obtain ⟨found, hle, hfound⟩ := h.readable hvalid last [] (by rw [hlast]; rfl)
    refine ⟨found, ?_⟩
    cases last
    cases hlast
    rw [whole, hfound]
    rfl

/-- The tokens of a section with an else chain: a text in the body, a text under an else tag with an
expression, and a comment under the last else tag. -/
def chained : List Token := [
  ⟨.opening, "x", ⟨0, 1, 1⟩, .standard, false, false⟩,
  ⟨.text, "a", ⟨6, 1, 7⟩, .standard, false, false⟩,
  ⟨.otherwise .word, "y", ⟨7, 1, 8⟩, .standard, false, false⟩,
  ⟨.text, "b", ⟨17, 1, 18⟩, .standard, false, false⟩,
  ⟨.otherwise .caret, "", ⟨18, 1, 19⟩, .standard, false, false⟩,
  ⟨.comment, " c ", ⟨23, 1, 24⟩, .standard, false, false⟩,
  ⟨.closing, "x", ⟨31, 1, 32⟩, .standard, false, false⟩]

theorem whole_iff_derives_chained :
    ∃ found, whole ⟨"page", fun _ => none⟩ (chained ++ [Token.ending ""]) = .ok found ∧
      Told ⟨"page", fun _ => none⟩ chained found := by
  have hx : Names ⟨"page", fun _ => none⟩ chained[0] "x" := ⟨{}, by cbv⟩
  have hy : Names ⟨"page", fun _ => none⟩ chained[2] "y" := ⟨{}, by cbv⟩
  have hvalid : ∀ t ∈ chained, Valid ⟨"page", fun _ => none⟩ t := by
    simp only [chained, List.forall_mem_cons, List.not_mem_nil, false_imp_iff, implies_true,
      and_true]
    exact ⟨⟨"x", hx⟩, ⟨_, rfl⟩, fun _ => ⟨"y", hy⟩, ⟨_, rfl⟩, fun h => absurd rfl h, ⟨_, rfl⟩,
      trivial⟩
  have hinner : Derives ⟨"page", fun _ => none⟩ .clauses
      ([chained[1]] ++ chained[2] :: ([chained[3]] ++ chained[4] :: [chained[5]])) :=
    .chain (.leaf rfl .nil) rfl (by decide)
      (.otherwise (.leaf rfl .nil) rfl rfl (.leaf rfl .nil))
  have hderives : Derives ⟨"page", fun _ => none⟩ .nodes chained :=
    .block (.inl rfl) hx hinner rfl rfl .nil
  have hlast : (Token.ending "").kind = .ending := rfl
  obtain ⟨hiff, htold⟩ := whole_iff_derives hlast (by decide) hvalid
  obtain ⟨found, hfound⟩ := hiff.2 hderives
  exact ⟨found, hfound, htold found hfound⟩

end Node.Reader

end Stencil
