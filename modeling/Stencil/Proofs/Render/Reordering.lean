import Stencil.Proofs.Agreement
import Stencil.Proofs.Render.Iterations

/-!
# Where inline partials are defined

A list of nodes says which nodes are rendered one after the other, and what the names of inline
partials stand for, the last definition of a name counting. Lists that say the same are reordered:
they differ in where their definitions stand. A relation of lists that relates reordered lists only
may have one for the other wherever lists are: in templates, in frames, and in what is rendered of
them.
-/

namespace Stencil

/-- What a name may stand for on the two sides: bodies that `S` relates, or one value of the
host's. -/
inductive InlinePartial.Reordered (S : List Node → List Node → Prop) :
    InlinePartial → InlinePartial → Prop where
  | nodes {body body' : List Node} : S body body' → Reordered S (.nodes body) (.nodes body')
  | foreign (v : Value) : Reordered S (.foreign v) (.foreign v)

namespace Node

/-- The definition of an inline partial. -/
def isDefinition : Node → Bool
  | .inlinePartial .. => true
  | _ => false

/-- The nodes that define no inline partials, in their order. -/
def others (nodes : List Node) : List Node := nodes.filter fun n => !n.isDefinition

/-- Lists with the same nodes besides the definitions, whose last definitions of every name have
bodies that `S` relates. -/
structure Reordered (S : List Node → List Node → Prop) (nodes nodes' : List Node) : Prop where
  others : Node.others nodes = Node.others nodes'
  inlines : ∀ name,
    Option.Rel (InlinePartial.Reordered S) (inline? name nodes) (inline? name nodes')

/-- A relation that relates every list to itself, and besides reordered lists only. -/
structure Reordering (S : List Node → List Node → Prop) : Prop where
  refl : ∀ nodes, S nodes nodes
  reordered : ∀ {nodes nodes'}, S nodes nodes' → Reordered S nodes nodes'

/-- One list in the place of the other, or the same list. -/
def Exchanged (L L' nodes nodes' : List Node) : Prop := nodes = nodes' ∨ nodes = L ∧ nodes' = L'

end Node

section

variable {S : List Node → List Node → Prop} (h : ∀ nodes, S nodes nodes)

include h

theorem InlinePartial.Reordered.refl (found : InlinePartial) : found.Reordered S found := by
  cases found with
  | nodes body => exact .nodes (h body)
  | foreign v => exact .foreign v

/-- What lists say counts, and not where their definitions stand. -/
theorem Node.Reordered.of_same {L L' : List Node} (hothers : Node.others L = Node.others L')
    (hinlines : ∀ name, inline? name L = inline? name L') : Node.Reordered S L L' := by
  refine ⟨hothers, fun name => ?_⟩
  rw [hinlines name]
  cases inline? name L' with
  | none => exact .none
  | some found => exact .some (.refl h found)

theorem Node.Reordered.refl (nodes : List Node) : Node.Reordered S nodes nodes :=
  .of_same h rfl fun _ => rfl

end

namespace Node.Reordering

theorem eq : Reordering Eq where
  refl _ := rfl
  reordered h := by
    subst h
    exact .refl (fun _ => rfl) _

/-- Two lists that say the same may be exchanged for each other. -/
theorem exchanged {L L' : List Node} (hothers : Node.others L = Node.others L')
    (hinlines : ∀ name, inline? name L = inline? name L') : Reordering (Exchanged L L') where
  refl _ := .inl rfl
  reordered h := by
    rcases h with rfl | ⟨rfl, rfl⟩
    · exact .refl (fun _ => .inl rfl) _
    · exact .of_same (fun _ => .inl rfl) hothers hinlines

end Node.Reordering

/-! ### Parts of lists -/

/-- What is found first, and what is found where that is nothing. -/
theorem InlinePartial.Reordered.or {S : List Node → List Node → Prop}
    {found found' other other' : Option InlinePartial}
    (h : Option.Rel (InlinePartial.Reordered S) found found')
    (hother : Option.Rel (InlinePartial.Reordered S) other other') :
    Option.Rel (InlinePartial.Reordered S) (found.or other) (found'.or other') := by
  cases h with
  | none => exact hother
  | some h => exact .some h

namespace Node

theorem inline?_append (name : String) (nodes more : List Node) :
    inline? name (nodes ++ more) = (inline? name more).or (inline? name nodes) := by
  induction nodes with
  | nil => simp [inline?]
  | cons n rest ih =>
    cases n with
    | inlinePartial => simp [inline?, ih, Option.or_assoc]
    | _ => exact ih

namespace Reordered

variable {S : List Node → List Node → Prop}

theorem append {nodes nodes' more more' : List Node} (h : Reordered S nodes nodes')
    (hmore : Reordered S more more') : Reordered S (nodes ++ more) (nodes' ++ more') := by
  refine ⟨?_, fun name => ?_⟩
  · simp only [Node.others, List.filter_append]
    exact congrArg₂ _ h.others hmore.others
  · rw [inline?_append, inline?_append]
    exact InlinePartial.Reordered.or (hmore.inlines name) (h.inlines name)

theorem definition {body body' : List Node} (h : S body body') (place : Option Location)
    (name : String) (marks : Delimiters) :
    Reordered S [.inlinePartial place name body marks] [.inlinePartial place name body' marks] := by
  refine ⟨rfl, fun other => ?_⟩
  by_cases hother : other = name
  · simpa [inline?, hother] using InlinePartial.Reordered.nodes h
  · simp [inline?, hother]

end Reordered

end Node

/-! ### Frames -/

/-- Frames in which every name stands for the same, in whatever order the names are. -/
def Frame.Reordered (S : List Node → List Node → Prop) (frame frame' : Frame) : Prop :=
  ∀ name, Option.Rel (InlinePartial.Reordered S) (frame.lookup name) (frame'.lookup name)

/-- Frames that are so one by one, or one value of the host's. -/
inductive Frames.Reordered (S : List Node → List Node → Prop) : Frames → Frames → Prop where
  | stack {frames frames' : List Frame} : List.Forall₂ (Frame.Reordered S) frames frames' →
      Reordered S (.stack frames) (.stack frames')
  | foreign (v : Value) : Reordered S (.foreign v) (.foreign v)

theorem Frame.Reordered.define {S : List Node → List Node → Prop} {frame frame' : Frame}
    (h : frame.Reordered S frame') (name : String) {found found' : InlinePartial}
    (hfound : found.Reordered S found') :
    (Frame.define name found frame).Reordered S (Frame.define name found' frame') := by
  intro other
  rw [Frame.define_eq, Frame.define_eq, Table.lookup_put, Table.lookup_put]
  by_cases hother : other = name
  · rw [if_pos hother, if_pos hother]
    exact .some hfound
  · rw [if_neg hother, if_neg hother]
    exact h other

namespace Frames.Reordered

variable {S : List Node → List Node → Prop} {f f' : Frames}

theorem visible (h : f.Reordered S f') : Agree Eq (Frame.Reordered S) f.visible f'.visible := by
  cases h with
  | foreign => exact .error rfl
  | stack h =>
    cases h with
    | nil => exact .error rfl
    | cons htop _ => exact .ok htop

theorem define (h : f.Reordered S f') (name : String) {found found' : InlinePartial}
    (hfound : found.Reordered S found') :
    Agree Eq (Frames.Reordered S) (f.define name found) (f'.define name found') := by
  cases h with
  | foreign => exact .error rfl
  | stack h =>
    cases h with
    | nil => exact .error rfl
    | cons htop hbelow => exact .ok (.stack (.cons (htop.define name hfound) hbelow))

theorem push (h : f.Reordered S f') : Agree Eq (Frames.Reordered S) f.push f'.push := by
  cases h with
  | foreign => exact .error rfl
  | stack h =>
    cases h with
    | nil => exact .error rfl
    | cons htop hbelow => exact .ok (.stack (.cons htop (.cons htop hbelow)))

theorem pop (h : f.Reordered S f') : Agree Eq (Frames.Reordered S) f.pop f'.pop := by
  cases h with
  | foreign => exact .error rfl
  | stack h =>
    cases h with
    | nil => exact .error rfl
    | cons _ hbelow =>
      cases hbelow with
      | nil => exact .error rfl
      | cons hnext hbelow => exact .ok (.stack (.cons hnext hbelow))

/-- On both sides there is an innermost frame, or nothing can be defined for the same reason. -/
theorem top_or_refused (h : f.Reordered S f') :
    (∃ top below top' below', f = .stack (top :: below) ∧ f' = .stack (top' :: below') ∧
      top.Reordered S top' ∧ List.Forall₂ (Frame.Reordered S) below below') ∨
    ∃ cause, (∀ name found, f.define name found = .error cause) ∧
      ∀ name found, f'.define name found = .error cause := by
  cases h with
  | foreign v => exact .inr ⟨noFrames, fun _ _ => rfl, fun _ _ => rfl⟩
  | stack h =>
    cases h with
    | nil => exact .inr ⟨noFrame, fun _ _ => rfl, fun _ _ => rfl⟩
    | cons htop hbelow => exact .inl ⟨_, _, _, _, rfl, rfl, htop, hbelow⟩

end Frames.Reordered

/-! ### Templates and fragments -/

/-- Templates at one place with reordered lists of nodes. -/
structure Template.Reordered (S : List Node → List Node → Prop) (t t' : Template) : Prop where
  place : t.place = t'.place
  root : Node.Reordered S t.root t'.root

/-- Fragments at one place with reordered lists of nodes. -/
structure Fragment.Reordered (S : List Node → List Node → Prop) (fragment fragment' : Fragment) :
    Prop where
  place : fragment.place = fragment'.place
  nodes : Node.Reordered S fragment.nodes fragment'.nodes

namespace Node

/-- Something is defined if some name stands for something. -/
theorem any_isDefinition_iff (nodes : List Node) :
    nodes.any isDefinition = true ↔ ∃ name, (inline? name nodes).isSome = true := by
  induction nodes with
  | nil => simp [inline?]
  | cons n rest ih =>
    cases n with
    | inlinePartial place name body marks =>
      refine ⟨fun _ => ⟨name, ?_⟩, fun _ => rfl⟩
      simp [inline?]
    | text | comment | output | block | inclusion => simpa [inline?, isDefinition] using ih

theorem Reordered.any_isDefinition {S : List Node → List Node → Prop} {nodes nodes' : List Node}
    (h : Reordered S nodes nodes') : nodes.any isDefinition = nodes'.any isDefinition := by
  have hsome (name : String) : (inline? name nodes).isSome = (inline? name nodes').isSome := by
    have hfound := h.inlines name
    generalize inline? name nodes = found at hfound ⊢
    generalize inline? name nodes' = found' at hfound ⊢
    cases hfound <;> rfl
  rw [Bool.eq_iff_iff, any_isDefinition_iff, any_isDefinition_iff]
  simp only [hsome]

theorem Every.others {P : Node → Prop} {nodes : List Node} (h : Every P nodes) :
    Every P (Node.others nodes) := by
  intro m hm
  obtain ⟨n, hn, hm⟩ := mem_withinAll.1 hm
  exact h m (mem_withinAll.2 ⟨n, List.mem_of_mem_filter hn, hm⟩)

end Node

end Stencil
