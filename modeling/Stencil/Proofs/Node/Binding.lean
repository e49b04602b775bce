import Stencil.Node.OfTokens
import Stencil.Proofs.Node.Within
import Stencil.Proofs.Value.Conversion

/-!
# What compiling binds and how it fails

The helpers in a tree that a source compiles to are those that the reader's table gives for their
names, and nothing else; a source that does not parse fails at one of its tokens, or at a literal
that is no value.
-/

namespace Stencil

/-- Every name that is bound to a helper satisfies `P` together with it. -/
def BindsOnly (helperOf : String → Option Helper) (P : Bound → Prop) : Prop :=
  ∀ name helper, helperOf name = some helper → P (name, helper)

/-- All helpers bound in the tag of a node satisfy `P`. -/
def Node.TagBinds (P : Bound → Prop) (n : Node) : Prop := ∀ b ∈ n.tagBound, P b

namespace Arguments

/-- All helpers bound among some arguments satisfy `P`. -/
def Binds (P : Bound → Prop) (found : Arguments) : Prop :=
  ∀ b ∈ Param.argsBound found.args ++ Param.hashBound found.hash, P b

theorem Binds.consArg {P : Bound → Prop} {p : Param} {others : Arguments}
    (hp : ∀ b ∈ p.bound, P b) (h : others.Binds P) :
    Arguments.Binds P { others with args := p :: others.args } := by
  intro b hb
  rw [Param.argsBound, List.append_assoc, List.mem_append] at hb
  exact hb.elim (hp b) (h b)

theorem Binds.consHash {P : Bound → Prop} {key : String} {p : Param} {others : Arguments}
    (hp : ∀ b ∈ p.bound, P b) (h : others.Binds P) :
    Arguments.Binds P { others with hash := (key, p) :: others.hash } := by
  intro b hb
  rw [Param.hashBound, List.mem_append, List.mem_append] at hb
  rcases hb with hb | hb | hb
  · exact h b (List.mem_append_left _ hb)
  · exact hp b hb
  · exact h b (List.mem_append_right _ hb)

end Arguments

/-- The faults of a bare text, when it is read as an argument, are among the failures `F`. -/
def Item.Faults (F : Failure → Prop) (item : Item) : Prop :=
  ∀ cause, Param.ofText item.text = .error cause → F (.fault cause)

theorem Item.faults_of_isNumeric {F : Failure → Prop}
    (h : ∀ cause : Fault, cause.IsNumeric → F (.fault cause)) (item : Item) : item.Faults F :=
  fun cause hcause => h cause ((Param.ofText_meets item.text).of_error hcause)

/-- The errors of a tag by itself: all but that of a section or an inline partial without its closing
tag. -/
def ParseError.IsOfTag : ParseError → Prop
  | unterminated _ => False
  | _ => True

/-- Scanning the items of an expression fails at a character that begins none. -/
theorem Item.scan_isOfTag (cs : List Char) :
    Meets ParseError.IsOfTag (fun _ => True) (Item.scan cs) := by
  fun_induction Item.scan cs with
  | case1 => exact Meets.pure trivial
  | case2 => exact Meets.throw trivial
  | case3 _ _ _ _ _ _ _ ih => exact ih.bind fun _ _ => Meets.pure trivial

namespace Expression

section

variable {b : Binding} {F : Failure → Prop} {P : Bound → Prop}

theorem bareParam_meets {raw : String}
    (hraw : ∀ cause, Param.ofText raw = .error cause → F (.fault cause)) :
    Meets F (fun p => ∀ x ∈ p.bound, P x) (bareParam raw) := by
  have htext := Param.ofText_meets raw
  unfold bareParam
  split
  · rename_i p hp
    -- A bare text is a literal or a reference, so it binds nothing.
    rcases htext.of_ok hp with ⟨value, rfl⟩ | rfl
    · exact Meets.pure fun x hx => nomatch hx
    · exact Meets.pure fun x hx => nomatch hx
  · rename_i cause hcause
    exact Meets.throw (hraw cause hcause)

variable (hplace : ∀ cause : ParseError, cause.IsOfTag → F (.parse b.place cause))

include hplace

theorem blockNames_meets (items : List Item) :
    Meets F (fun _ => True) (blockNames b.place items) := by
  induction items with
  | nil => exact Meets.throw (hplace _ trivial)
  | cons item rest ih =>
    cases item with
    | pipe => exact Meets.pure trivial
    | word name => exact ih.bind fun _ _ => Meets.pure trivial
    | quoted | openParen | closeParen | equals => exact Meets.throw (hplace _ trivial)

theorem blockParams_meets (items : List Item) :
    Meets F (fun _ => True) (blockParams b.place items) := by
  refine (blockNames_meets hplace items).bind ?_
  rintro ⟨names, left⟩ -
  dsimp only
  split
  · exact Meets.throw (hplace _ trivial)
  · split
    · exact Meets.throw (hplace _ trivial)
    · exact Meets.pure trivial

theorem itemsOf_meets (expression : String) :
    Meets F (fun items => Item.scan expression.toList = .ok items)
      (itemsOf b.place expression) := by
  unfold itemsOf
  split
  · rename_i hscan
    exact Meets.pure hscan
  · rename_i cause hscan
    exact Meets.throw (hplace cause ((Item.scan_isOfTag expression.toList).of_error hscan))

end

section

variable (b : Binding) (F : Failure → Prop) (P : Bound → Prop)

/-- What is to be shown of the arguments at the front of some items. -/
abbrev ArgumentsMeet (items : List Item) : Prop :=
  ∀ inCall named, (∀ item ∈ items, item.Faults F) →
    Meets F (fun r => r.1.Binds P ∧ r.2.1 ⊆ items) (arguments b inCall named items)

end

section

variable {b : Binding} {F : Failure → Prop} {P : Bound → Prop}
variable (hplace : ∀ cause : ParseError, cause.IsOfTag → F (.parse b.place cause)) (hP : BindsOnly b.helperOf P)
variable {items : List Item}

include hplace hP in
theorem callBehind_meets (hitems : ∀ item ∈ items, item.Faults F)
    (shorter : ∀ left : List Item, left.length < items.length → ArgumentsMeet b F P left) :
    Meets F (fun r => (∀ x ∈ r.1.bound, P x) ∧ r.2.1 ⊆ items) (callBehind b items) := by
  unfold callBehind
  split
  · rename_i name rest
    have hrest : rest ⊆ Item.word name :: rest := List.subset_cons_self _ rest
    refine (shorter rest (by simp) true false fun item h => hitems item (hrest h)).bind ?_
    rintro ⟨found, left, hleft⟩ ⟨hfound, hsub⟩
    dsimp only at hfound hsub ⊢
    split
    · exact Meets.throw (hplace _ trivial)
    · rename_i close after
      have hafter : after ⊆ rest := List.Subset.trans (List.subset_cons_self close after) hsub
      refine Meets.pure ⟨fun x hx => ?_, List.Subset.trans hafter hrest⟩
      rw [Param.bound, List.mem_append] at hx
      rcases hx with hx | hx
      · simp only [Option.mem_toList, Option.map_eq_some_iff] at hx
        obtain ⟨helper, hhelper, rfl⟩ := hx
        exact hP name helper hhelper
      · exact hfound x hx
  · exact Meets.throw (hplace _ trivial)

include hplace hP in
theorem param_meets (hitems : ∀ item ∈ items, item.Faults F)
    (shorter : ∀ left : List Item, left.length < items.length → ArgumentsMeet b F P left) :
    Meets F (fun r => (∀ x ∈ r.1.bound, P x) ∧ r.2.1 ⊆ items) (param b items) := by
  unfold param
  split
  · exact Meets.throw (hplace _ trivial)
  · rename_i raw rest
    have hbare := bareParam_meets (P := P) (hitems (.quoted raw) List.mem_cons_self)
    exact hbare.bind fun p hp => Meets.pure ⟨hp, List.subset_cons_self _ rest⟩
  · rename_i raw rest
    have hbare := bareParam_meets (P := P) (hitems (.word raw) List.mem_cons_self)
    exact hbare.bind fun p hp => Meets.pure ⟨hp, List.subset_cons_self _ rest⟩
  · rename_i rest
    have hshorter (left : List Item) (h : left.length < rest.length) : ArgumentsMeet b F P left :=
      shorter left (by simp only [List.length_cons]; omega)
    have hrest : ∀ item ∈ rest, item.Faults F := (List.forall_mem_cons.1 hitems).2
    refine (callBehind_meets hplace hP hrest hshorter).bind ?_
    rintro ⟨p, left, hleft⟩ ⟨hp, hsub⟩
    exact Meets.pure ⟨hp, List.Subset.trans hsub (List.subset_cons_self _ rest)⟩
  · exact Meets.throw (hplace _ trivial)

include hplace hP in
theorem positional_meets (inCall named : Bool) (hitems : ∀ item ∈ items, item.Faults F)
    (shorter : ∀ left : List Item, left.length < items.length → ArgumentsMeet b F P left) :
    Meets F (fun r => r.1.Binds P ∧ r.2.1 ⊆ items) (positional b inCall named items) := by
  unfold positional
  split
  · exact Meets.throw (hplace _ trivial)
  · refine (param_meets hplace hP hitems shorter).bind ?_
    rintro ⟨p, left, hleft⟩ ⟨hp, hsub⟩
    refine (shorter left hleft inCall false fun item h => hitems item (hsub h)).bind ?_
    rintro ⟨others, last, hlast⟩ ⟨hothers, hlastSub⟩
    exact Meets.pure ⟨hothers.consArg hp, List.Subset.trans hlastSub hsub⟩

include hplace hP in
theorem arguments_meets_of_shorter
    (shorter : ∀ left : List Item, left.length < items.length → ArgumentsMeet b F P left) :
    ArgumentsMeet b F P items := by
  have hnone : Arguments.Binds P {} := fun x hx => nomatch hx
  intro inCall named hitems
  unfold arguments
  split
  · exact Meets.pure ⟨hnone, List.Subset.refl []⟩
  · rename_i item after
    split
    · exact Meets.pure ⟨hnone, List.Subset.refl _⟩
    · -- A named argument, block parameters, or a positional argument.
      split
      · rename_i key rest hnot
        have hmore : rest ⊆ Item.word key :: .equals :: rest := fun item h => by simp [h]
        have hrest : ∀ item ∈ rest, item.Faults F := fun item h => hitems item (hmore h)
        have hlength : rest.length < (Item.word key :: .equals :: rest).length := by
          simp only [List.length_cons]
          omega
        refine (param_meets hplace hP hrest fun left hleft => shorter left (by omega)).bind ?_
        rintro ⟨p, left, hleft⟩ ⟨hp, hsub⟩
        refine (shorter left (by omega) inCall true fun item h => hrest item (hsub h)).bind ?_
        rintro ⟨others, last, hlast⟩ ⟨hothers, hlastSub⟩
        exact Meets.pure ⟨hothers.consHash hp,
          List.Subset.trans hlastSub (List.Subset.trans hsub hmore)⟩
      · split
        · exact positional_meets hplace hP inCall named hitems shorter
        · exact (blockParams_meets hplace _).bind fun _ _ =>
            Meets.pure ⟨hnone, List.nil_subset _⟩
      · exact positional_meets hplace hP inCall named hitems shorter

include hplace hP in
/-- Arguments bind only helpers of the table, by induction on the number of items. -/
theorem arguments_meets (items : List Item) : ArgumentsMeet b F P items := by
  induction hn : items.length using Nat.strongRecOn generalizing items with
  | ind n ih =>
    subst hn
    exact arguments_meets_of_shorter hplace hP fun left hleft => ih left.length hleft left rfl

include hplace hP in
theorem parse_meets {expression : String}
    (hitems : ∀ items, Item.scan expression.toList = .ok items → ∀ item ∈ items, item.Faults F) :
    Meets F (fun r => r.2.Binds P) (parse b expression) := by
  refine (itemsOf_meets hplace expression).bind fun items hscan => ?_
  have hfaults := hitems items hscan
  unfold ofItems
  split
  · refine (arguments_meets hplace hP _ false false (List.forall_mem_cons.1 hfaults).2).bind ?_
    rintro ⟨found, left⟩ hfound
    exact Meets.pure hfound.1
  · exact Meets.throw (hplace _ trivial)

end

end Expression

namespace Node

namespace Reader

/-- All nodes of a tree bind only helpers that satisfy `P`, and the tokens left over are among those
that were there. -/
def Reads (P : Bound → Prop) (tokens : List Token) (found : List Node) (left : List Token) : Prop :=
  Every (TagBinds P) found ∧ left ⊆ tokens

variable {r : Reader} {F : Failure → Prop} {P : Bound → Prop}

/-- The failures at a token are among the failures `F`: the errors of parsing it, and the faults of
the bare texts in it. -/
structure FailsAt (r : Reader) (F : Failure → Prop) (t : Token) : Prop where
  place : ∀ cause, F (.parse (t.location r.file) cause)
  faults : ∀ items, Item.scan t.value.toList = .ok items → ∀ item ∈ items, item.Faults F

/-- The failures of a token by itself are among the failures `F`. -/
structure FailsAlone (r : Reader) (F : Failure → Prop) (t : Token) : Prop where
  place : ∀ cause : ParseError, cause.IsOfTag → F (.parse (t.location r.file) cause)
  faults : ∀ items, Item.scan t.value.toList = .ok items → ∀ item ∈ items, item.Faults F

theorem FailsAt.alone {t : Token} (h : r.FailsAt F t) : r.FailsAlone F t :=
  ⟨fun cause _ => h.place cause, h.faults⟩

variable (hP : BindsOnly r.helperOf P)

include hP in
theorem invocation_binds {name : String} {found : Arguments} (h : found.Binds P) :
    ∀ b ∈ (r.invocation name found).ownBound ++ (r.invocation name found).argBound, P b := by
  intro b hb
  rcases List.mem_append.1 hb with hb | hb
  · obtain ⟨bname, helper⟩ := b
    obtain ⟨rfl, hhelper⟩ := Invocation.mem_ownBound.1 hb
    exact hP _ _ hhelper
  · exact h b hb

include hP in
theorem outputNode_meets {t : Token} (ht : r.FailsAlone F t) (style : OutputStyle) :
    Meets F (fun n => Every (TagBinds P) [n]) (r.outputNode t style) := by
  refine (Expression.parse_meets (b := r.binding t) ht.place hP ht.faults).bind ?_
  rintro ⟨name, found⟩ hfound
  dsimp only
  split
  · exact Meets.throw (ht.place _ trivial)
  · exact Meets.pure (Every.cons_iff.2 ⟨invocation_binds hP hfound, Every.nil, Every.nil⟩)

theorem partialName_meets {t : Token} (ht : r.FailsAlone F t) (items : List Item) :
    Meets F (fun found => found.2 ⊆ items) (r.partialName t items) := by
  unfold partialName
  split
  · exact Meets.pure (List.subset_cons_self _ _)
  · split
    · exact Meets.pure (List.subset_cons_self _ _)
    · exact Meets.throw (ht.place _ trivial)
  · exact Meets.throw (ht.place _ trivial)

include hP in
theorem inclusionNode_meets {t : Token} (ht : r.FailsAlone F t) :
    Meets F (fun n => Every (TagBinds P) [n]) (r.inclusionNode t) := by
  refine (Expression.itemsOf_meets (b := r.binding t) ht.place t.value).bind fun items hscan => ?_
  refine (partialName_meets ht items).bind ?_
  rintro ⟨name, rest⟩ hsub
  have hrest : ∀ item ∈ rest, item.Faults F := fun item h => ht.faults items hscan item (hsub h)
  refine (Expression.arguments_meets (b := r.binding t) ht.place hP rest false false hrest).bind ?_
  rintro ⟨found, left⟩ ⟨hfound, -⟩
  dsimp only
  split
  · exact Meets.throw (ht.place _ trivial)
  · exact Meets.pure (Every.cons_iff.2 ⟨hfound, Every.nil, Every.nil⟩)

theorem inlineName_meets {t : Token} (ht : r.FailsAlone F t) :
    Meets F (fun _ => True) (r.inlineName t) := by
  have hparse := Expression.parse_meets (b := r.binding t) (P := fun _ => True) ht.place
    (fun _ _ _ => trivial) ht.faults
  refine hparse.bind ?_
  rintro ⟨decorator, found⟩ -
  dsimp only
  split
  · exact Meets.throw (ht.place _ trivial)
  · split
    · exact Meets.pure trivial
    · exact Meets.throw (ht.place _ trivial)

include hP in
theorem leaf_meets {t : Token} (ht : r.FailsAlone F t) :
    Meets F (fun found => Every (TagBinds P) found) (r.leaf t) := by
  have hempty (n : Node) (hn : n.tagBound = []) (hc : n.children = []) :
      Every (TagBinds P) [n] := by
    refine Every.cons_iff.2 ⟨fun b hb => ?_, ?_, Every.nil⟩
    · rw [hn] at hb
      exact nomatch hb
    · rw [hc]
      exact Every.nil
  unfold leaf
  split
  · exact Meets.pure (hempty _ rfl rfl)
  · exact Meets.pure (hempty _ rfl rfl)
  · exact (outputNode_meets hP ht .plain).bind fun n hn => Meets.pure hn
  · exact (outputNode_meets hP ht .ampersand).bind fun n hn => Meets.pure hn
  · exact (outputNode_meets hP ht .triple).bind fun n hn => Meets.pure hn
  · exact (inclusionNode_meets hP ht).bind fun n hn => Meets.pure hn
  · exact Meets.pure Every.nil

theorem closed_meets {opener : Token} {name : String} {tokens : List Token}
    (hopener : r.FailsAt F opener) (htokens : ∀ t ∈ tokens, r.FailsAt F t) :
    Meets F (fun left => left.1 ⊆ tokens) (r.closed opener name tokens) := by
  unfold closed
  split
  · rename_i t rest
    split
    · exact Meets.throw (hopener.place _)
    · split
      · exact Meets.throw ((htokens t List.mem_cons_self).place _)
      · exact Meets.pure (List.subset_cons_self t rest)
  · exact Meets.throw (hopener.place _)

theorem Reads.nil (tokens : List Token) : Reads P tokens [] tokens :=
  ⟨Every.nil, List.Subset.refl tokens⟩

/-- The nodes read so far are put in front of those read from what was left. -/
theorem Reads.append {tokens left last : List Token} {found others : List Node}
    (hfound : Reads P tokens found left) (hothers : Reads P left others last) :
    Reads P tokens (found ++ others) last :=
  ⟨Every.append_iff.2 ⟨hfound.1, hothers.1⟩, List.Subset.trans hothers.2 hfound.2⟩

theorem Reads.of_subset {tokens more left : List Token} {found : List Node}
    (h : Reads P tokens found left) (hsub : tokens ⊆ more) : Reads P more found left :=
  ⟨h.1, List.Subset.trans h.2 hsub⟩

section

variable (r F P)

/-- What is to be shown of the nodes at the front of some tokens. -/
def NodesMeet (tokens : List Token) : Prop :=
  (∀ t ∈ tokens, r.FailsAt F t) →
    Meets F (fun found => Reads P tokens found.1 found.2.1) (r.nodes tokens)

/-- What is to be shown of a section whose opening tag stands before some tokens. -/
def BlockMeets (tokens : List Token) : Prop :=
  ∀ opener inverted, (∀ t ∈ opener :: tokens, r.FailsAt F t) →
    Meets F (fun found => Reads P tokens [found.2.1] found.2.2.1)
      (r.block opener opener.value inverted tokens)

end

include hP in
theorem block_meets_of_shorter {tokens : List Token} (hnodes : NodesMeet r F P tokens)
    (shorterNodes : ∀ left : List Token, left.length < tokens.length → NodesMeet r F P left)
    (shorterBlock : ∀ left : List Token, left.length < tokens.length → BlockMeets r F P left) :
    BlockMeets r F P tokens := by
  intro opener inverted hfails
  have hopener := hfails opener List.mem_cons_self
  have htokens : ∀ t ∈ tokens, r.FailsAt F t := fun t ht => hfails t (List.mem_cons_of_mem _ ht)
  unfold block
  refine (Expression.parse_meets (b := r.binding opener) hopener.alone.place hP hopener.faults).bind ?_
  rintro ⟨name, found⟩ hfound
  refine (hnodes htokens).bind ?_
  rintro ⟨body, left, hleft⟩ hbody
  have htag : ∀ x ∈ (r.invocation name found).ownBound ++ (r.invocation name found).argBound, P x :=
    invocation_binds hP hfound
  dsimp only at hbody ⊢
  split
  · exact Meets.pure ⟨Every.cons_iff.2 ⟨htag, by simpa [children] using hbody.1, Every.nil⟩,
      List.nil_subset _⟩
  · rename_i t rest
    have hrest : rest ⊆ tokens := List.Subset.trans (List.subset_cons_self t rest) hbody.2
    have hshort : rest.length < tokens.length := by
      simp only [List.length_cons] at hleft
      omega
    have hstop : ∀ u ∈ t :: rest, r.FailsAt F u := fun u hu => htokens u (hbody.2 hu)
    -- A section with an inverse, whatever its head says of the else tag.
    have hwith {head : BlockHead} {inverse : List Node} {last : List Token}
        (hhead : head.call = r.invocation name found) (hinverse : Reads P rest inverse last) :
        Reads P tokens [.block head (some body) (some inverse)] last := by
      refine ⟨Every.cons_iff.2 ⟨?_, ?_, Every.nil⟩, List.Subset.trans hinverse.2 hrest⟩
      · simpa only [TagBinds, tagBound, hhead] using htag
      · exact Every.append_iff.2 ⟨hbody.1, hinverse.1⟩
    split
    · split
      · refine (shorterBlock rest hshort t false hstop).bind ?_
        rintro ⟨head, nested, last, hlast⟩ hnested
        exact Meets.pure (hwith rfl hnested)
      · have hstops : ∀ u ∈ rest, r.FailsAt F u := fun u hu => hstop u (List.mem_cons_of_mem _ hu)
        refine (shorterNodes rest hshort hstops).bind ?_
        rintro ⟨inverse, last, hlast⟩ hinverse
        dsimp only at hinverse ⊢
        split
        · rename_i stop hhead
          have hmem : stop ∈ last := List.mem_of_mem_head? hhead
          split
          · exact Meets.throw ((hstops stop (hinverse.2 hmem)).place _)
          · exact Meets.pure (hwith rfl hinverse)
        · exact Meets.pure (hwith rfl hinverse)
    · exact Meets.pure ⟨Every.cons_iff.2 ⟨htag, by simpa [children] using hbody.1, Every.nil⟩,
        hbody.2⟩

include hP in
theorem nodes_meets_of_shorter {tokens : List Token}
    (shorterNodes : ∀ left : List Token, left.length < tokens.length → NodesMeet r F P left)
    (shorterBlock : ∀ left : List Token, left.length < tokens.length → BlockMeets r F P left) :
    NodesMeet r F P tokens := by
  intro hfails
  unfold nodes
  split
  · exact Meets.pure (Reads.nil [])
  · rename_i t rest
    have ht := hfails t List.mem_cons_self
    have hrest : ∀ u ∈ rest, r.FailsAt F u := fun u hu => hfails u (List.mem_cons_of_mem _ hu)
    have hmore : rest ⊆ t :: rest := List.subset_cons_self t rest
    -- A node that has been read, its closing tag, and the nodes behind it.
    have hclosed {left : List Token} {node : Node} {name : String}
        (hnode : Reads P rest [node] left) (hlen : left.length ≤ rest.length) :
        Meets F (fun found => Reads P (t :: rest) found.1 found.2.1) (do
          let after ← r.closed t name left
          let found ← nodes r after.1
          pure (node :: found.1, (⟨found.2.1, by
            have hafter := after.2
            have hlast := found.2.2
            simp only [List.length_cons]
            omega⟩ : { last : List Token // last.length ≤ (t :: rest).length }))) := by
      refine (closed_meets ht fun u hu => hrest u (hnode.2 hu)).bind ?_
      rintro ⟨after, hafter⟩ hsub
      have hshort : after.length < (t :: rest).length := by
        simp only [List.length_cons]
        omega
      refine (shorterNodes after hshort fun u hu => hrest u (hnode.2 (hsub hu))).bind ?_
      rintro ⟨others, last, hlast⟩ hothers
      exact Meets.pure ((hnode.append (hothers.of_subset hsub)).of_subset hmore)
    split
    · exact Meets.pure (Reads.nil _)
    · exact Meets.pure (Reads.nil _)
    · exact Meets.pure (Reads.nil _)
    · refine (shorterBlock rest (by simp) t _ hfails).bind ?_
      rintro ⟨head, node, left, hleft⟩ hnode
      exact hclosed hnode hleft
    · refine (shorterBlock rest (by simp) t _ hfails).bind ?_
      rintro ⟨head, node, left, hleft⟩ hnode
      exact hclosed hnode hleft
    · refine (inlineName_meets ht.alone).bind fun name _ => ?_
      refine (shorterNodes rest (by simp) hrest).bind ?_
      rintro ⟨body, left, hleft⟩ hbody
      have hnode : Reads P rest
          [.inlinePartial (t.location r.file) name body t.delimiters] left :=
        ⟨Every.cons_iff.2 ⟨List.forall_mem_nil _, hbody.1, Every.nil⟩, hbody.2⟩
      dsimp only
      split
      · rename_i stop hhead
        split
        · exact Meets.throw ((hrest stop (hbody.2 (List.mem_of_mem_head? hhead))).place _)
        · exact hclosed hnode hleft
      · exact hclosed hnode hleft
    · refine (leaf_meets hP ht.alone).bind fun first hfirst => ?_
      refine (shorterNodes rest (by simp) hrest).bind ?_
      rintro ⟨others, last, hlast⟩ hothers
      have hfound : Reads P rest first rest := ⟨hfirst, List.Subset.refl rest⟩
      exact Meets.pure ((hfound.append hothers).of_subset (List.subset_cons_self t rest))

include hP in
/-- Lists of nodes and sections bind only helpers of the table, by induction on the number of
tokens. -/
theorem nodes_and_block_meet (tokens : List Token) :
    NodesMeet r F P tokens ∧ BlockMeets r F P tokens := by
  induction hn : tokens.length using Nat.strongRecOn generalizing tokens with
  | ind n ih =>
    subst hn
    have shorterNodes (left : List Token) (h : left.length < tokens.length) :=
      (ih left.length h left rfl).1
    have shorterBlock (left : List Token) (h : left.length < tokens.length) :=
      (ih left.length h left rfl).2
    have hnodes := nodes_meets_of_shorter hP shorterNodes shorterBlock
    exact ⟨hnodes, block_meets_of_shorter hP hnodes shorterNodes shorterBlock⟩

include hP in
theorem whole_meets {tokens : List Token} (hfails : ∀ t ∈ tokens, r.FailsAt F t) :
    Meets F (Every (TagBinds P)) (r.whole tokens) := by
  refine ((nodes_and_block_meet hP tokens).1 hfails).bind ?_
  rintro ⟨found, left, hleft⟩ hfound
  dsimp only at hfound ⊢
  split
  · exact Meets.pure hfound.1
  · rename_i t rest
    have ht := hfails t (hfound.2 List.mem_cons_self)
    split
    · exact Meets.throw (ht.place _)
    · exact Meets.throw (ht.place _)
    · exact Meets.pure hfound.1

end Reader

end Node

namespace Failure

/-- Failures to compile a source: of the scan, of the parse, or of a literal in it. -/
def IsOfSource : Failure → Prop
  | scan .. | parse .. => True
  | fault cause => cause.IsNumeric
  | _ => False

end Failure

namespace Token

/-- A scan fails only as scans do, by induction on the text that is left. -/
theorem scanFrom_meets (file : String) (marks : Delimiters) (position : Position)
    (text : List Char) :
    Meets Failure.IsOfSource (fun _ => True) (scanFrom file marks position text) := by
  fun_induction scanFrom file marks position text with
  | case1 => exact Meets.pure trivial
  | case2 => exact Meets.pure trivial
  | case3 => exact Meets.throw trivial
  | case4 _ _ _ _ _ _ _ _ _ _ _ _ _ _ next _ ih =>
    exact (ih next).bind fun _ _ => Meets.pure trivial
  | case5 => exact Meets.throw trivial
  | case6 marks _ _ _ _ _ _ _ _ _ _ _ _ _ ih =>
    exact (ih marks).bind fun _ _ => Meets.pure trivial

end Token

namespace Template

/-- All helpers bound in a template satisfy `P`. -/
def Binds (P : Bound → Prop) (t : Template) : Prop := Node.Every (Node.TagBinds P) t.root

/-- A source compiles to a tree that binds only helpers of the table, or fails as sources do. -/
theorem ofSource_meets {helperOf : String → Option Helper} {P : Bound → Prop}
    (hP : BindsOnly helperOf P) (marks : Delimiters) (name source : String) :
    Meets Failure.IsOfSource (Binds P)
      (ofSource helperOf marks name source) := by
  have htokens : Meets Failure.IsOfSource (fun _ => True) (Token.ofSource name marks source) :=
    (Token.scanFrom_meets name marks .start source.toList).bind fun _ _ => Meets.pure trivial
  refine htokens.bind fun tokens _ => ?_
  have hwhole : Meets Failure.IsOfSource (Node.Every (Node.TagBinds P))
      (Node.Reader.whole ⟨name, helperOf⟩ tokens) :=
    Node.Reader.whole_meets hP fun _ _ => ⟨fun _ => trivial, fun _ _ item _ =>
      item.faults_of_isNumeric fun _ h => h⟩
  exact hwhole.bind fun root hroot => Meets.pure hroot

end Template

end Stencil
