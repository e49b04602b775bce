import Stencil.Proofs.Node.Grammar

/-!
# The places of compiled nodes

Every node that is read from a source is read from one of its tokens, and has its place.
-/

namespace Stencil

/-- Nodes with a place, or that cannot fail for want of one: a text is only written. -/
def Node.IsPlaced : Node → Prop
  | .text .. => True
  | n => n.place.isSome = true

namespace Node

theorem isPlaced_of_place {n : Node} {place : Location} (h : n.place = some place) :
    n.IsPlaced := by
  cases n with
  | text => trivial
  | _ =>
    show (Node.place _).isSome = true
    rw [h]
    rfl

/-- A node has the place of the token that it was read from. -/
theorem Reader.Tells.place_eq {r : Reader} {t : Token} {n : Node} (h : r.Tells t n) :
    n.place = some (t.location r.file) := by
  cases h <;> rfl

theorem Reader.isPlaced_of_tells {r : Reader} {tokens : List Token} {nodes : List Node}
    (h : List.Forall₂ r.Tells tokens nodes) : ∀ n ∈ nodes, n.IsPlaced := by
  induction h with
  | nil => exact List.forall_mem_nil _
  | cons htells _ ih => exact List.forall_mem_cons.2 ⟨isPlaced_of_place htells.place_eq, ih⟩

/-- All nodes that are read from some tokens have places. -/
theorem Reader.whole_isPlaced {r : Reader} {tokens : List Token} {found : List Node}
    (h : r.whole tokens = .ok found) : Node.Every Node.IsPlaced found := by
  obtain ⟨rest, hnodes, -⟩ := Reader.whole_inv h
  obtain ⟨⟨front, -, -, htold⟩, -⟩ := (Reader.accounted r tokens).1 found rest hnodes
  exact isPlaced_of_tells htold

end Node

/-- So have all nodes of a compiled template. -/
theorem Template.ofSource_isPlaced {helperOf : String → Option Helper} {marks : Delimiters}
    {name source : String} {t : Template}
    (h : Template.ofSource helperOf marks name source = .ok t) :
    Node.Every Node.IsPlaced t.root := by
  obtain ⟨tokens, -, h⟩ := bind_eq_ok_iff.1 h
  obtain ⟨root, hroot, h⟩ := bind_eq_ok_iff.1 h
  cases h
  exact Node.Reader.whole_isPlaced hroot

end Stencil
