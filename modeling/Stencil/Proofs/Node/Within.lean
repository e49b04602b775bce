import Stencil.Node.Basic

/-!
# What a tree holds

The nodes inside a node at any depth, and the helpers that its names were bound to. Both are lists,
so that a property of everything in a tree is a property of the members of one list.
-/

namespace Stencil

/-- A helper under the name that was bound to it. -/
abbrev Bound := String × Helper

namespace Param

/-- What holds of an argument when it holds of the arguments inside it holds of every argument. -/
theorem induct {P : Param → Prop} (literal : ∀ raw value, P (.literal raw value))
    (reference : ∀ raw, P (.reference raw))
    (call : ∀ place name args hash helper, (∀ p ∈ args, P p) → (∀ entry ∈ hash, P entry.2) →
      P (.call place name args hash helper)) : ∀ p, P p :=
  @Param.rec P (fun args => ∀ p ∈ args, P p) (fun hash => ∀ entry ∈ hash, P entry.2)
    (fun entry => P entry.2) literal reference
    (fun place name args hash helper hargs hhash => call place name args hash helper hargs hhash)
    (fun _ hp => nomatch hp) (fun _ _ hp hrest => List.forall_mem_cons.2 ⟨hp, hrest⟩)
    (fun _ hentry => nomatch hentry)
    (fun _ _ hentry hrest => List.forall_mem_cons.2 ⟨hentry, hrest⟩) (fun _ _ hp => hp)

mutual

/-- The helpers bound in an argument, by their names. -/
def bound : Param → List Bound
  | literal .. | reference _ => []
  | call _ name args hash helper =>
    (helper.map (name, ·)).toList ++ (argsBound args ++ hashBound hash)

/-- The helpers bound in positional arguments. -/
def argsBound : List Param → List Bound
  | [] => []
  | p :: rest => bound p ++ argsBound rest

/-- The helpers bound in named arguments. -/
def hashBound : List (String × Param) → List Bound
  | [] => []
  | (_, p) :: rest => bound p ++ hashBound rest

end

theorem mem_argsBound {args : List Param} {b : Bound} :
    b ∈ argsBound args ↔ ∃ p ∈ args, b ∈ p.bound := by
  induction args with
  | nil => simp [argsBound]
  | cons p rest ih => simp [argsBound, ih]

theorem mem_hashBound {hash : HashParams} {b : Bound} :
    b ∈ hashBound hash ↔ ∃ entry ∈ hash, b ∈ entry.2.bound := by
  induction hash with
  | nil => simp [hashBound]
  | cons entry rest ih =>
    obtain ⟨key, p⟩ := entry
    simp [hashBound, ih]

section Placed

variable {place : Option Location} {slots : List Slot}

theorem argsBound_placedArgs_of {args : List Param}
    (h : ∀ p ∈ args, ∀ slots, (p.placed place slots).bound = p.bound) :
    argsBound (placedArgs place slots args) = argsBound args := by
  induction args with
  | nil => rfl
  | cons p rest ih =>
    obtain ⟨hp, hrest⟩ := List.forall_mem_cons.1 h
    rw [placedArgs, argsBound, argsBound, hp, ih hrest]

theorem hashBound_placedHash_of {hash : HashParams}
    (h : ∀ entry ∈ hash, ∀ slots, (entry.2.placed place slots).bound = entry.2.bound) :
    hashBound (placedHash place slots hash) = hashBound hash := by
  induction hash with
  | nil => rfl
  | cons entry rest ih =>
    obtain ⟨hentry, hrest⟩ := List.forall_mem_cons.1 h
    rw [placedHash, hashBound, hashBound, hentry, ih hrest]

/-- Where an argument stands has no part in which helpers are bound in it. -/
theorem bound_placed (p : Param) (slots : List Slot) : (p.placed place slots).bound = p.bound := by
  induction p using Param.induct generalizing slots with
  | literal raw value => rfl
  | reference raw => rfl
  | call at_ name args hash helper hargs hhash =>
    rw [placed, bound, bound, argsBound_placedArgs_of hargs, hashBound_placedHash_of hhash]

@[simp] theorem argsBound_placedArgs (args : List Param) :
    argsBound (placedArgs place slots args) = argsBound args :=
  argsBound_placedArgs_of fun p _ => bound_placed p

@[simp] theorem hashBound_placedHash (hash : HashParams) :
    hashBound (placedHash place slots hash) = hashBound hash :=
  hashBound_placedHash_of fun entry _ => bound_placed entry.2

end Placed

end Param

namespace Invocation

/-- The helpers bound in the arguments of a name. -/
def argBound (call : Invocation) : List Bound :=
  Param.argsBound call.args ++ Param.hashBound call.hash

/-- The helper bound to a name. -/
def ownBound (call : Invocation) : List Bound := (call.helper.map (call.name, ·)).toList

@[simp] theorem argBound_placed (call : Invocation) (place : Option Location) :
    (call.placed place).argBound = call.argBound := by
  simp [argBound, placed]

theorem mem_ownBound {call : Invocation} {name : String} {helper : Helper} :
    (name, helper) ∈ call.ownBound ↔ call.name = name ∧ call.helper = some helper := by
  cases hc : call.helper with
  | none => simp [ownBound, hc]
  | some own => simp [ownBound, hc, eq_comm]

end Invocation

namespace Node

/-- The helpers bound in the tag of a node. -/
def tagBound : Node → List Bound
  | text .. | comment .. | inlinePartial .. => []
  | output _ _ call _ => call.ownBound ++ call.argBound
  | block head _ _ => head.call.ownBound ++ head.call.argBound
  | inclusion _ _ args hash _ => Param.argsBound args ++ Param.hashBound hash

section Placed

variable (place : Option Location) (marks : Delimiters)

theorem tagBound_output (style : OutputStyle) (call : Invocation) :
    (output place style call marks).tagBound =
      (call.placed place).ownBound ++ (call.placed place).argBound := by
  rw [Invocation.argBound_placed]
  rfl

theorem tagBound_block (head : BlockHead) (body inverse : Option (List Node)) :
    (block head body inverse).tagBound =
      head.placed.call.ownBound ++ head.placed.call.argBound := by
  rw [BlockHead.placed, Invocation.argBound_placed]
  rfl

theorem tagBound_inclusion (name : String) (args : List Param) (hash : HashParams) :
    (inclusion place name args hash marks).tagBound =
      Param.argsBound (Param.placedArgs place [] args) ++
        Param.hashBound (Param.placedHash place [] hash) := by
  rw [Param.argsBound_placedArgs, Param.hashBound_placedHash]
  rfl

end Placed

/-- The clauses of a section one after the other, or the body of an inline partial. -/
def children : Node → List Node
  | block _ body inverse => body.getD [] ++ inverse.getD []
  | inlinePartial _ _ body _ => body
  | _ => []

/-- What holds of a node when it holds of its children holds of every node. -/
theorem induct {P : Node → Prop} (step : ∀ n : Node, (∀ m ∈ n.children, P m) → P n) : ∀ n, P n := by
  have leaf (n : Node) (hn : n.children = []) : P n := step n (by simp [hn])
  refine @Node.rec P (fun clause => ∀ m ∈ clause.getD [], P m) (fun nodes => ∀ m ∈ nodes, P m)
    (fun _ _ => leaf _ rfl) (fun _ _ _ => leaf _ rfl) (fun _ _ _ _ => leaf _ rfl) ?block
    (fun _ _ _ _ hbody => step _ hbody) (fun _ _ _ _ _ => leaf _ rfl)
    (fun _ hm => nomatch hm) (fun _ hnodes => hnodes)
    (fun _ hm => nomatch hm) (fun _ _ hn hrest => List.forall_mem_cons.2 ⟨hn, hrest⟩)
  intro head body inverse hbody hinverse
  refine step _ fun m hm => ?_
  rcases List.mem_append.1 hm with hm | hm
  · exact hbody m hm
  · exact hinverse m hm

mutual

/-- A node and all nodes inside it. -/
def within : Node → List Node
  | block head body inverse =>
    .block head body inverse ::
      ((match body with
        | some nodes => withinAll nodes
        | none => []) ++
      (match inverse with
        | some nodes => withinAll nodes
        | none => []))
  | inlinePartial place name body delimiters =>
    .inlinePartial place name body delimiters :: withinAll body
  | n => [n]

/-- Some nodes and all nodes inside them. -/
def withinAll : List Node → List Node
  | [] => []
  | n :: rest => within n ++ withinAll rest

end

theorem withinAll_append (nodes others : List Node) :
    withinAll (nodes ++ others) = withinAll nodes ++ withinAll others := by
  induction nodes with
  | nil => rw [withinAll, List.nil_append, List.nil_append]
  | cons n rest ih => rw [List.cons_append, withinAll, ih, withinAll, List.append_assoc]

/-- A node comes first among the nodes inside it, and those inside its children follow. -/
theorem within_eq_cons (n : Node) : n.within = n :: withinAll n.children := by
  cases n with
  | block head body inverse =>
    rw [children, withinAll_append]
    cases body <;> cases inverse <;> simp only [within, Option.getD, withinAll]
  | inlinePartial => rw [within, children]
  | text | comment | output | inclusion => simp only [within, children, withinAll]

theorem mem_withinAll {nodes : List Node} {m : Node} :
    m ∈ withinAll nodes ↔ ∃ n ∈ nodes, m ∈ n.within := by
  induction nodes with
  | nil => simp [withinAll]
  | cons n rest ih => simp [withinAll, ih]

/-- The nodes inside a node are the node itself and those inside its children. -/
theorem mem_within {n m : Node} : m ∈ n.within ↔ m = n ∨ m ∈ withinAll n.children := by
  cases n with
  | block head body inverse =>
    cases body <;> cases inverse <;> simp [within, children, mem_withinAll, or_and_right, exists_or]
  | text | comment | output | inlinePartial | inclusion => simp [within, children, withinAll]

end Node

/-- Every node in a tree satisfies `P`. -/
def Node.Every (P : Node → Prop) (nodes : List Node) : Prop := ∀ n ∈ Node.withinAll nodes, P n

namespace Node.Every

variable {P : Node → Prop} {nodes : List Node}

@[simp] theorem nil : Every P [] := fun _ hn => nomatch hn

theorem cons_iff {n : Node} :
    Every P (n :: nodes) ↔ P n ∧ Every P n.children ∧ Every P nodes := by
  simp only [Every, withinAll, List.mem_append, mem_within]
  constructor
  · intro h
    exact ⟨h n (.inl (.inl rfl)), fun m hm => h m (.inl (.inr hm)), fun m hm => h m (.inr hm)⟩
  · rintro ⟨hn, hchildren, hrest⟩ m ((rfl | hm) | hm)
    · exact hn
    · exact hchildren m hm
    · exact hrest m hm

theorem append_iff {others : List Node} :
    Every P (nodes ++ others) ↔ Every P nodes ∧ Every P others := by
  induction nodes with
  | nil => simp
  | cons n rest ih => rw [List.cons_append, cons_iff, cons_iff, ih, and_assoc, and_assoc]

/-- The body of a section is a tree of its own. -/
theorem body {head : BlockHead} {body inverse : Option (List Node)} {rest : List Node}
    (h : Every P (.block head body inverse :: rest)) : Every P (body.getD []) :=
  (append_iff.1 (cons_iff.1 h).2.1).1

/-- The inverse of a section is a tree of its own. -/
theorem inverse {head : BlockHead} {body inverse : Option (List Node)} {rest : List Node}
    (h : Every P (.block head body inverse :: rest)) : Every P (inverse.getD []) :=
  (append_iff.1 (cons_iff.1 h).2.1).2

end Node.Every

end Stencil
