import Stencil.Node.OfTokens
import Stencil.Proofs.Outcome

/-!
# Reading tokens

How the nodes of a list and the clauses of a section are read, one step at a time: what each kind of
token makes of what is read behind it, and, the other way round, what a list or a section that has
been read began with.
-/

namespace Stencil

namespace Node

/-- The kind of an output tag. -/
def outputKind : OutputStyle → TokenKind
  | .plain => .plain
  | .ampersand => .ampersand
  | .triple => .triple

end Node

namespace Node.Reader

variable {r : Reader} {t stopper : Token} {rest after last tokens : List Token}
  {body inverse others found : List Node} {node : Node} {head : BlockHead} {name : String}

/-- The nodes up to a token that ends them are read. -/
def NodesRead (r : Reader) (tokens : List Token) (found : List Node) (rest : List Token) : Prop :=
  ∃ h, r.nodes tokens = .ok (found, ⟨rest, h⟩)

/-- The section behind its opening tag is read, up to its closing tag. -/
def BlockRead (r : Reader) (opener : Token) (expression : String) (inverted : Bool)
    (tokens : List Token) (head : BlockHead) (node : Node) (rest : List Token) : Prop :=
  ∃ h, r.block opener expression inverted tokens = .ok (head, node, ⟨rest, h⟩)

/-- Tokens that end a list of nodes. -/
def Stops : TokenKind → Bool
  | .closing | .otherwise _ | .ending => true
  | _ => false

theorem NodesRead.stop (h : Stops t.kind = true) : NodesRead r (t :: rest) [] (t :: rest) := by
  refine ⟨Nat.le_refl _, ?_⟩
  rw [nodes]
  cases hkind : t.kind with
  | closing | otherwise | ending => rfl
  | _ =>
    rw [hkind] at h
    cases h

/-- Tokens that neither open nor close anything. -/
def IsLeaf : TokenKind → Bool
  | .text | .comment | .plain | .ampersand | .triple | .inclusion | .delimiters => true
  | _ => false

theorem NodesRead.leaf {first : List Node} (h : IsLeaf t.kind = true) (hleaf : r.leaf t = .ok first)
    (hrest : NodesRead r rest others last) : NodesRead r (t :: rest) (first ++ others) last := by
  obtain ⟨hlast, hrest⟩ := hrest
  refine ⟨by simp only [List.length_cons]; omega, ?_⟩
  rw [nodes]
  cases hkind : t.kind with
  | text | comment | plain | ampersand | triple | inclusion | delimiters =>
    dsimp only
    rw [hleaf]
    change (r.nodes rest >>= _) = _
    rw [hrest]
    rfl
  | _ =>
    rw [hkind] at h
    cases h

/-- The closing tag of a name is the next token. -/
theorem closed_eq (r : Reader) (opener : Token) (after : List Token) (hkind : t.kind = .closing)
    (hvalue : t.value = name) : ∃ h, r.closed opener name (t :: after) = .ok ⟨after, h⟩ := by
  refine ⟨by simp, ?_⟩
  have hclosing : ¬ (t.kind != .closing) = true := by simp [hkind]
  have hname : ¬ (t.value != name) = true := by simp [hvalue]
  rw [closed]
  simp only [if_neg hclosing, if_neg hname]
  rfl

theorem NodesRead.section (h : t.kind = .opening ∨ t.kind = .inverted)
    (hblock : BlockRead r t t.value (t.kind == .inverted) rest head node (stopper :: after))
    (hstop : stopper.kind = .closing) (hname : stopper.value = head.call.name)
    (hrest : NodesRead r after others last) : NodesRead r (t :: rest) (node :: others) last := by
  obtain ⟨hleft, hblock⟩ := hblock
  obtain ⟨hlast, hrest⟩ := hrest
  obtain ⟨_, hclosed⟩ := closed_eq r t after hstop hname
  refine ⟨by simp only [List.length_cons] at hleft ⊢; omega, ?_⟩
  rw [nodes]
  have hkinds : ∀ kind, t.kind = kind → kind = .opening ∨ kind = .inverted := fun _ hk => hk ▸ h
  cases hkind : t.kind with
  | opening | inverted =>
    rw [hkind] at hblock
    dsimp only
    rw [hblock]
    change (r.closed t head.call.name (stopper :: after) >>= _) = _
    rw [hclosed]
    change (r.nodes after >>= _) = _
    rw [hrest]
    rfl
  | _ => rcases hkinds _ hkind with h | h <;> cases h

theorem NodesRead.inline (h : t.kind = .inline) (hname : r.inlineName t = .ok name)
    (hbody : NodesRead r rest body (stopper :: after)) (hstop : stopper.kind = .closing)
    (hvalue : stopper.value = "inline") (hrest : NodesRead r after others last) :
    NodesRead r (t :: rest)
      (.inlinePartial (t.location r.file) name body t.delimiters :: others) last := by
  obtain ⟨hleft, hbody⟩ := hbody
  obtain ⟨hlast, hrest⟩ := hrest
  obtain ⟨_, hclosed⟩ := closed_eq r t after hstop hvalue
  refine ⟨by simp only [List.length_cons] at hleft ⊢; omega, ?_⟩
  rw [nodes, h]
  dsimp only
  rw [hname]
  change (r.nodes rest >>= _) = _
  rw [hbody]
  simp only [bind, Except.bind, List.head?_cons, hstop]
  rw [hclosed]
  dsimp only
  rw [hrest]
  rfl

/-- The head of a section as its opening tag gives it. -/
def headOf (r : Reader) (opener : Token) (inverted : Bool) (name : String) (found : Arguments) :
    BlockHead :=
  { place := opener.location r.file, inverted, call := r.invocation name found,
    blockParams := found.blockParams, label := .word, elsePlace := none,
    delimiters := opener.delimiters }

theorem BlockRead.plain {opener : Token} {expression : String} {inverted : Bool} {args : Arguments}
    (hparse : Expression.parse (r.binding opener) expression = .ok (name, args))
    (hbody : NodesRead r tokens body (stopper :: after)) (hstop : stopper.kind = .closing) :
    BlockRead r opener expression inverted tokens (headOf r opener inverted name args)
      (.block (headOf r opener inverted name args) body none) (stopper :: after) := by
  obtain ⟨hleft, hbody⟩ := hbody
  refine ⟨hleft, ?_⟩
  rw [block, hparse]
  change (r.nodes tokens >>= _) = _
  rw [hbody]
  simp only [bind, Except.bind, hstop]
  rfl

theorem BlockRead.otherwise {opener : Token} {expression : String} {inverted : Bool}
    {args : Arguments} {label : ElseLabel}
    (hparse : Expression.parse (r.binding opener) expression = .ok (name, args))
    (hbody : NodesRead r tokens body (t :: rest)) (hkind : t.kind = .otherwise label)
    (hvalue : t.value = "") (hinverse : NodesRead r rest inverse (stopper :: after))
    (hstop : stopper.kind = .closing) :
    BlockRead r opener expression inverted tokens
      { headOf r opener inverted name args with label, elsePlace := t.location r.file }
      (.block { headOf r opener inverted name args with label, elsePlace := t.location r.file } body
        (some inverse)) (stopper :: after) := by
  obtain ⟨hleft, hbody⟩ := hbody
  obtain ⟨hlast, hinverse⟩ := hinverse
  refine ⟨by simp only [List.length_cons] at hleft hlast ⊢; omega, ?_⟩
  have hempty : ¬ (t.value != "") = true := by simp [hvalue]
  rw [block, hparse]
  change (r.nodes tokens >>= _) = _
  rw [hbody]
  simp only [bind, Except.bind, hkind, if_neg hempty]
  rw [hinverse]
  simp only [List.head?_cons, hstop]
  rfl

/-- An else tag with an expression of its own opens a section that shares the closing tag. -/
theorem BlockRead.chain {opener : Token} {expression : String} {inverted : Bool} {args : Arguments}
    {label : ElseLabel} {inner : BlockHead} {nested : Node}
    (hparse : Expression.parse (r.binding opener) expression = .ok (name, args))
    (hbody : NodesRead r tokens body (t :: rest)) (hkind : t.kind = .otherwise label)
    (hvalue : t.value ≠ "") (hnested : BlockRead r t t.value false rest inner nested last) :
    BlockRead r opener expression inverted tokens
      { headOf r opener inverted name args with label, elsePlace := t.location r.file }
      (.block { headOf r opener inverted name args with label, elsePlace := t.location r.file } body
        (some [nested])) last := by
  obtain ⟨hleft, hbody⟩ := hbody
  obtain ⟨hlast, hnested⟩ := hnested
  refine ⟨by simp only [List.length_cons] at hleft hlast ⊢; omega, ?_⟩
  have hexpression : (t.value != "") = true := by simp [hvalue]
  rw [block, hparse]
  change (r.nodes tokens >>= _) = _
  rw [hbody]
  simp only [bind, Except.bind, hkind, if_pos hexpression]
  rw [hnested]
  rfl

/-! ## What has been read -/

theorem closed_inv {opener : Token} (h : ∃ hle, r.closed opener name tokens = .ok ⟨after, hle⟩) :
    ∃ u, tokens = u :: after ∧ u.kind = .closing ∧ u.value = name := by
  obtain ⟨hle, h⟩ := h
  unfold closed at h
  split at h
  · rename_i u rest
    split at h
    · cases h
    · rename_i hkind
      split at h
      · cases h
      · rename_i hvalue
        cases h
        exact ⟨u, rfl, by simpa using hkind, by simpa using hvalue⟩
  · cases h

/-- Behind what stands between two tags come the closing tag and further nodes. -/
theorem closing_inv {left : List Token} (hleft : left.length ≤ rest.length)
    {last : { last : List Token // last.length ≤ (t :: rest).length }}
    (h : (do
      let after ← r.closed t name left
      let others ← r.nodes after.1
      pure (node :: others.1,
        (⟨others.2.1,
          Nat.le_succ_of_le (Nat.le_trans others.2.2 (Nat.le_trans after.2 hleft))⟩ :
          { last : List Token // last.length ≤ (t :: rest).length }))) = .ok (found, last)) :
    ∃ u after others, left = u :: after ∧ u.kind = .closing ∧ u.value = name ∧
      NodesRead r after others last.1 ∧ found = node :: others := by
  obtain ⟨⟨after, hafter⟩, hclosed, h⟩ := bind_eq_ok_iff.1 h
  obtain ⟨⟨others, behind, hbehind⟩, hothers, h⟩ := bind_eq_ok_iff.1 h
  obtain ⟨hfound, hlast⟩ := Prod.mk.inj (Except.ok.inj h)
  have hbehindLast : behind = last.1 := congrArg Subtype.val hlast
  obtain ⟨u, hu, hkind, hvalue⟩ := closed_inv ⟨hafter, hclosed⟩
  exact ⟨u, after, others, hu, hkind, hvalue, hbehindLast ▸ ⟨hbehind, hothers⟩, hfound.symm⟩

/-- What a list of nodes that has been read began with. -/
theorem NodesRead.cases (h : NodesRead r (t :: rest) found last) :
    (Stops t.kind = true ∧ found = [] ∧ last = t :: rest) ∨
    (IsLeaf t.kind = true ∧ ∃ first others, r.leaf t = .ok first ∧ NodesRead r rest others last ∧
      found = first ++ others) ∨
    ((t.kind = .opening ∨ t.kind = .inverted) ∧ ∃ head node u after others,
      BlockRead r t t.value (t.kind == .inverted) rest head node (u :: after) ∧
      u.kind = .closing ∧ u.value = head.call.name ∧ NodesRead r after others last ∧
      found = node :: others) ∨
    (t.kind = .inline ∧ ∃ name body u after others, r.inlineName t = .ok name ∧
      NodesRead r rest body (u :: after) ∧ u.kind = .closing ∧ u.value = "inline" ∧
      NodesRead r after others last ∧
      found = .inlinePartial (t.location r.file) name body t.delimiters :: others) := by
  obtain ⟨hlast, h⟩ := h
  rw [nodes] at h
  cases hkind : t.kind with
  | closing | otherwise | ending =>
    rw [hkind] at h
    cases h
    exact .inl ⟨rfl, rfl, rfl⟩
  | text | comment | plain | ampersand | triple | inclusion | delimiters =>
    rw [hkind] at h
    obtain ⟨first, hfirst, h⟩ := bind_eq_ok_iff.1 h
    obtain ⟨⟨others, left, hleft⟩, hothers, h⟩ := bind_eq_ok_iff.1 h
    cases h
    exact .inr (.inl ⟨rfl, first, others, hfirst, ⟨_, hothers⟩, rfl⟩)
  | opening | inverted =>
    rw [hkind] at h
    obtain ⟨⟨head, node, left, hleft⟩, hblock, h⟩ := bind_eq_ok_iff.1 h
    obtain ⟨u, after, others, rfl, hu, hname, hothers, rfl⟩ := closing_inv hleft h
    exact .inr (.inr (.inl ⟨by simp, head, node, u, after, others, ⟨_, hblock⟩, hu, hname, hothers,
      rfl⟩))
  | inline =>
    rw [hkind] at h
    obtain ⟨name, hname, h⟩ := bind_eq_ok_iff.1 h
    obtain ⟨⟨body, left, hleft⟩, hbody, h⟩ := bind_eq_ok_iff.1 h
    have hclosing : ∃ u after others, left = u :: after ∧ u.kind = .closing ∧ u.value = "inline" ∧
        NodesRead r after others last ∧
        found = .inlinePartial (t.location r.file) name body t.delimiters :: others := by
      dsimp only at h
      split at h
      · split at h
        · cases h
        · exact closing_inv hleft h
      · exact closing_inv hleft h
    obtain ⟨u, after, others, rfl, hu, hvalue, hothers, rfl⟩ := hclosing
    exact .inr (.inr (.inr ⟨rfl, name, body, u, after, others, hname, ⟨_, hbody⟩, hu, hvalue,
      hothers, rfl⟩))

/-- No else tag stands at the front of some tokens. -/
def NoElse (tokens : List Token) : Prop :=
  ∀ t ∈ tokens.head?, ∀ label, t.kind ≠ .otherwise label

/-- What a section that has been read is made of: its body, and what its else tag says, if it has
one. -/
theorem BlockRead.cases {opener : Token} {expression : String} {inverted : Bool}
    (h : BlockRead r opener expression inverted tokens head node last) :
    ∃ name args body left, Expression.parse (r.binding opener) expression = .ok (name, args) ∧
      NodesRead r tokens body left ∧
      ((NoElse left ∧ last = left ∧ head = headOf r opener inverted name args ∧
        node = .block head body none) ∨
      ∃ t rest label, left = t :: rest ∧ t.kind = .otherwise label ∧
        head = { headOf r opener inverted name args with label, elsePlace := t.location r.file } ∧
        ((t.value = "" ∧ ∃ inverse, NodesRead r rest inverse last ∧ NoElse last ∧
          node = .block head body (some inverse)) ∨
        (t.value ≠ "" ∧ ∃ inner nested, BlockRead r t t.value false rest inner nested last ∧
          node = .block head body (some [nested])))) := by
  obtain ⟨hlast, h⟩ := h
  rw [block] at h
  obtain ⟨⟨name, args⟩, hparse, h⟩ := bind_eq_ok_iff.1 h
  obtain ⟨⟨body, left, hleft⟩, hbody, h⟩ := bind_eq_ok_iff.1 h
  refine ⟨name, args, body, left, hparse, ⟨_, hbody⟩, ?_⟩
  dsimp only at h
  split at h
  · cases h
    exact .inl ⟨by simp [NoElse], rfl, rfl, rfl⟩
  · rename_i t rest
    split at h
    · rename_i label hkind
      refine .inr ⟨t, rest, label, rfl, hkind, ?_⟩
      split at h
      · rename_i hvalue
        obtain ⟨⟨inner, nested, behind, hbehind⟩, hnested, h⟩ := bind_eq_ok_iff.1 h
        cases h
        exact ⟨rfl, .inr ⟨by simpa using hvalue, inner, nested, ⟨_, hnested⟩, rfl⟩⟩
      · rename_i hvalue
        obtain ⟨⟨inverse, behind, hbehind⟩, hinverse, h⟩ := bind_eq_ok_iff.1 h
        have hvalue : t.value = "" := by simpa using hvalue
        dsimp only at h
        split at h
        · rename_i stop hhead
          split at h
          · cases h
          · rename_i hstop
            cases h
            refine ⟨rfl, .inl ⟨hvalue, inverse, ⟨_, hinverse⟩, ?_, rfl⟩⟩
            intro u hu label hlabel
            rw [Option.mem_def, hhead] at hu
            cases hu
            exact hstop label hlabel
        · rename_i hhead
          cases h
          refine ⟨rfl, .inl ⟨hvalue, inverse, ⟨_, hinverse⟩, ?_, rfl⟩⟩
          intro u hu
          rw [hhead] at hu
          cases hu
    · rename_i hkind
      cases h
      refine .inl ⟨?_, rfl, rfl, rfl⟩
      intro stop hstop label hlabel
      cases hstop
      exact hkind label hlabel

end Node.Reader

end Stencil
