import Mathlib.Data.List.Forall2
import Stencil.Node.Basic
import Stencil.Node.Source

/-!
# Trees that are alike

Two trees are alike when they say the same in the same order. They may differ in the helpers that
their names are bound to, as far as a resemblance allows, and in places and delimiters, unless the
resemblance is exact.
-/

namespace Stencil

/-- What trees that are alike may differ in. -/
structure Resemblance where
  /-- Places and delimiters are the same. -/
  exact : Prop
  /-- What a name may be bound to in the one tree and in the other. -/
  bound : String → Option Helper → Option Helper → Prop

namespace Resemblance

/-- The same, if the resemblance is exact. -/
def Same (R : Resemblance) {α : Type} (a b : α) : Prop := R.exact → a = b

@[simp] theorem Same.refl (R : Resemblance) {α : Type} (a : α) : R.Same a a := fun _ => rfl

/-- Trees that differ in places and delimiters only. -/
def spelling : Resemblance := ⟨False, fun _ a b => a = b⟩

end Resemblance

namespace Param

/-- Arguments that are alike. -/
inductive Alike (R : Resemblance) : Param → Param → Prop where
  | literal (raw : String) (value : Literal) : Alike R (.literal raw value) (.literal raw value)
  | reference (raw : String) : Alike R (.reference raw) (.reference raw)
  | call {place place' : Option Location} {name : String} {args args' : List Param}
      {hash hash' : HashParams} {helper helper' : Option Helper} : R.Same place place' →
      R.bound name helper helper' → args.length = args'.length →
      (∀ p q, (p, q) ∈ args.zip args' → Alike R p q) → hash.length = hash'.length →
      (∀ x y, (x, y) ∈ hash.zip hash' → x.1 = y.1) →
      (∀ x y, (x, y) ∈ hash.zip hash' → Alike R x.2 y.2) →
      Alike R (.call place name args hash helper) (.call place' name args' hash' helper')

/-- Positional arguments that are alike, one by one. -/
abbrev AllAlike (R : Resemblance) : List Param → List Param → Prop := List.Forall₂ (Alike R)

/-- Named arguments that are alike, under the same keys. -/
abbrev HashAlike (R : Resemblance) : HashParams → HashParams → Prop :=
  List.Forall₂ fun x y => x.1 = y.1 ∧ Alike R x.2 y.2

variable {R : Resemblance} {place place' : Option Location} {name name' : String}
  {args args' : List Param} {hash hash' : HashParams} {helper helper' : Option Helper}

theorem Alike.ofCall (hplace : R.Same place place') (hbound : R.bound name helper helper')
    (hargs : AllAlike R args args') (hhash : HashAlike R hash hash') :
    Alike R (.call place name args hash helper) (.call place' name args' hash' helper') := by
  obtain ⟨hlength, hzip⟩ := List.forall₂_iff_zip.1 hargs
  obtain ⟨hlength', hzip'⟩ := List.forall₂_iff_zip.1 hhash
  exact .call hplace hbound hlength (fun _ _ h => hzip h) hlength' (fun _ _ h => (hzip' h).1)
    fun _ _ h => (hzip' h).2

theorem Alike.call_inv
    (h : Alike R (.call place name args hash helper) (.call place' name' args' hash' helper')) :
    name = name' ∧ R.Same place place' ∧ R.bound name helper helper' ∧ AllAlike R args args' ∧
      HashAlike R hash hash' := by
  cases h with
  | call hplace hbound hlength hargs hlength' hkeys hhash =>
    exact ⟨rfl, hplace, hbound, List.forall₂_iff_zip.2 ⟨hlength, fun h => hargs _ _ h⟩,
      List.forall₂_iff_zip.2 ⟨hlength', fun h => ⟨hkeys _ _ h, hhash _ _ h⟩⟩⟩

theorem AllAlike.placedArgs_of {at_ : Option Location} {slots : List Slot}
    (h : List.Forall₂ (fun p p' => ∀ slots, Alike R (p.placed at_ slots) (p'.placed at_ slots))
      args args') : AllAlike R (placedArgs at_ slots args) (placedArgs at_ slots args') := by
  induction h with
  | nil => exact .nil
  | cons hp hrest ih =>
    rw [placedArgs, placedArgs, hrest.length_eq]
    exact .cons (hp _) ih

theorem HashAlike.placedHash_of {at_ : Option Location} {slots : List Slot}
    (h : List.Forall₂ (fun x y => x.1 = y.1 ∧
      ∀ slots, Alike R (x.2.placed at_ slots) (y.2.placed at_ slots)) hash hash') :
    HashAlike R (placedHash at_ slots hash) (placedHash at_ slots hash') := by
  induction h with
  | nil => exact .nil
  | cons hx hrest ih =>
    rw [placedHash, placedHash, hrest.length_eq]
    exact .cons ⟨hx.1, hx.2 _⟩ ih

/-- Arguments that are alike stay so where a tag places them. -/
theorem Alike.placed {p p' : Param} (h : p.Alike R p') (at_ : Option Location) (slots : List Slot) :
    (p.placed at_ slots).Alike R (p'.placed at_ slots) := by
  induction h generalizing slots with
  | literal raw value => exact .literal raw _
  | reference raw => exact .reference raw
  | call hplace hbound hlength _ hlength' hkeys _ ihargs ihhash =>
    rw [Param.placed, Param.placed]
    refine .ofCall hplace hbound (.placedArgs_of ?_) (.placedHash_of ?_)
    · exact List.forall₂_iff_zip.2 ⟨hlength, fun h => ihargs _ _ h⟩
    · exact List.forall₂_iff_zip.2 ⟨hlength', fun h => ⟨hkeys _ _ h, ihhash _ _ h⟩⟩

theorem AllAlike.placedArgs (h : AllAlike R args args') (at_ : Option Location)
    (slots : List Slot) :
    AllAlike R (Param.placedArgs at_ slots args) (Param.placedArgs at_ slots args') :=
  .placedArgs_of (h.imp fun _ _ hp => hp.placed at_)

theorem HashAlike.placedHash (h : HashAlike R hash hash') (at_ : Option Location)
    (slots : List Slot) :
    HashAlike R (Param.placedHash at_ slots hash) (Param.placedHash at_ slots hash') :=
  .placedHash_of (h.imp fun _ _ hx => ⟨hx.1, hx.2.placed at_⟩)

end Param

/-- Calls that are alike. -/
structure Invocation.Alike (R : Resemblance) (call call' : Invocation) : Prop where
  name : call.name = call'.name
  args : Param.AllAlike R call.args call'.args
  hash : Param.HashAlike R call.hash call'.hash
  helper : R.bound call.name call.helper call'.helper

theorem Invocation.Alike.placed {R : Resemblance} {call call' : Invocation} (h : call.Alike R call')
    (place : Option Location) : (call.placed place).Alike R (call'.placed place) :=
  ⟨h.name, h.args.placedArgs place [], h.hash.placedHash place [], h.helper⟩

/-- Heads of sections that are alike. -/
structure BlockHead.Alike (R : Resemblance) (head head' : BlockHead) : Prop where
  place : R.Same head.place head'.place
  inverted : head.inverted = head'.inverted
  call : head.call.Alike R head'.call
  blockParams : head.blockParams = head'.blockParams
  label : head.label = head'.label
  elsePlace : R.Same head.elsePlace head'.elsePlace
  delimiters : R.Same head.delimiters head'.delimiters

theorem BlockHead.Alike.placed {R : Resemblance} {head head' : BlockHead} (h : head.Alike R head')
    (hexact : R.exact) : head.placed.Alike R head'.placed := by
  have hcall : head.placed.call.Alike R head'.placed.call := by
    rw [BlockHead.placed, BlockHead.placed, h.place hexact]
    exact h.call.placed head'.place
  exact { h with call := hcall }

namespace Node

/-- Nodes that are alike. -/
inductive Alike (R : Resemblance) : Node → Node → Prop where
  | text {place place' : Option Location} {content : String} : R.Same place place' →
      Alike R (.text place content) (.text place' content)
  | comment {place place' : Option Location} {content : String} {marks marks' : Delimiters} :
      R.Same place place' → R.Same marks marks' →
      Alike R (.comment place content marks) (.comment place' content marks')
  | output {place place' : Option Location} {style : OutputStyle} {call call' : Invocation}
      {marks marks' : Delimiters} : R.Same place place' → call.Alike R call' →
      R.Same marks marks' →
      Alike R (.output place style call marks) (.output place' style call' marks')
  | block {head head' : BlockHead} {body body' inverse inverse' : Option (List Node)} :
      head.Alike R head' → body.isSome = body'.isSome → inverse.isSome = inverse'.isSome →
      (body.getD []).length = (body'.getD []).length →
      (∀ n m, (n, m) ∈ (body.getD []).zip (body'.getD []) → Alike R n m) →
      (inverse.getD []).length = (inverse'.getD []).length →
      (∀ n m, (n, m) ∈ (inverse.getD []).zip (inverse'.getD []) → Alike R n m) →
      Alike R (.block head body inverse) (.block head' body' inverse')
  | inlinePartial {place place' : Option Location} {name : String} {body body' : List Node}
      {marks marks' : Delimiters} : R.Same place place' → body.length = body'.length →
      (∀ n m, (n, m) ∈ body.zip body' → Alike R n m) → R.Same marks marks' →
      Alike R (.inlinePartial place name body marks) (.inlinePartial place' name body' marks')
  | inclusion {place place' : Option Location} {name : String} {args args' : List Param}
      {hash hash' : HashParams} {marks marks' : Delimiters} : R.Same place place' →
      Param.AllAlike R args args' → Param.HashAlike R hash hash' → R.Same marks marks' →
      Alike R (.inclusion place name args hash marks) (.inclusion place' name args' hash' marks')

/-- Lists of nodes that are alike, one by one. -/
abbrev AllAlike (R : Resemblance) : List Node → List Node → Prop := List.Forall₂ (Alike R)

variable {R : Resemblance} {place place' : Option Location}
  {head head' : BlockHead} {body body' : List Node} {marks marks' : Delimiters}
  {clause clause' inverse inverse' : Option (List Node)}

/-- Clauses that are alike: both are missing, or neither is and their nodes are alike. -/
def ClauseAlike (R : Resemblance) (clause clause' : Option (List Node)) : Prop :=
  clause.isSome = clause'.isSome ∧ AllAlike R (clause.getD []) (clause'.getD [])

theorem ClauseAlike.some (h : AllAlike R body body') :
    ClauseAlike R (Option.some body) (Option.some body') := ⟨rfl, h⟩

theorem ClauseAlike.none : ClauseAlike R Option.none Option.none := ⟨rfl, .nil⟩

theorem Alike.ofBlock (hhead : head.Alike R head') (hbody : ClauseAlike R clause clause')
    (hinverse : ClauseAlike R inverse inverse') :
    Alike R (.block head clause inverse) (.block head' clause' inverse') := by
  obtain ⟨hlength, hzip⟩ := List.forall₂_iff_zip.1 hbody.2
  obtain ⟨hlength', hzip'⟩ := List.forall₂_iff_zip.1 hinverse.2
  exact .block hhead hbody.1 hinverse.1 hlength (fun _ _ h => hzip h) hlength' fun _ _ h => hzip' h

theorem Alike.block_inv (h : Alike R (.block head clause inverse) (.block head' clause' inverse')) :
    head.Alike R head' ∧ ClauseAlike R clause clause' ∧ ClauseAlike R inverse inverse' := by
  cases h with
  | block hhead hsome hsome' hlength hbody hlength' hinverse =>
    exact ⟨hhead, ⟨hsome, List.forall₂_iff_zip.2 ⟨hlength, fun h => hbody _ _ h⟩⟩,
      ⟨hsome', List.forall₂_iff_zip.2 ⟨hlength', fun h => hinverse _ _ h⟩⟩⟩

theorem Alike.ofInlinePartial (name : String) (hplace : R.Same place place')
    (hbody : AllAlike R body body')
    (hmarks : R.Same marks marks') :
    Alike R (.inlinePartial place name body marks) (.inlinePartial place' name body' marks') := by
  obtain ⟨hlength, hzip⟩ := List.forall₂_iff_zip.1 hbody
  exact .inlinePartial hplace hlength (fun _ _ h => hzip h) hmarks

end Node

/-! ### Source form

Trees that are exactly alike are written in source in the same way. -/

namespace Param

variable {R : Resemblance} {args args' : List Param} {hash hash' : HashParams}

theorem argTexts_congr (h : List.Forall₂ (fun p q => text p = text q) args args') :
    argTexts args = argTexts args' := by
  induction h with
  | nil => rfl
  | cons hp _ ih =>
    simp only [argTexts]
    rw [hp, ih]

theorem hashTexts_congr (h : List.Forall₂ (fun x y => x.1 = y.1 ∧ text x.2 = text y.2) hash hash') :
    hashTexts hash = hashTexts hash' := by
  induction h with
  | nil => rfl
  | @cons x y _ _ hx _ ih =>
    obtain ⟨key, p⟩ := x
    obtain ⟨key', q⟩ := y
    obtain ⟨hkey, hp⟩ := hx
    simp only [hashTexts]
    rw [show key = key' from hkey, show text p = text q from hp, ih]

theorem Alike.text_eq {p p' : Param} (h : p.Alike R p') : p.text = p'.text := by
  induction h with
  | literal | reference => rfl
  | call _ _ hlength _ hlength' hkeys _ ihargs ihhash =>
    have hargs := argTexts_congr (List.forall₂_iff_zip.2 ⟨hlength, fun h => ihargs _ _ h⟩)
    have hhash := hashTexts_congr
      (List.forall₂_iff_zip.2 ⟨hlength', fun h => ⟨hkeys _ _ h, ihhash _ _ h⟩⟩)
    rw [text, text, hargs, hhash]

theorem tailText_congr (hargs : AllAlike R args args') (hhash : HashAlike R hash hash') :
    tailText args hash = tailText args' hash' := by
  unfold tailText argsText hashText
  rw [argTexts_congr (hargs.imp fun _ _ h => h.text_eq),
    hashTexts_congr (hhash.imp fun _ _ h => ⟨h.1, h.2.text_eq⟩)]

end Param

namespace BlockHead.Alike

variable {R : Resemblance} {head head' : BlockHead}

theorem openingTag (h : head.Alike R head') (hexact : R.exact) :
    head.openingTag = head'.openingTag := by
  unfold BlockHead.openingTag BlockHead.sigil
  rw [h.delimiters hexact, h.inverted, h.call.name, h.blockParams,
    Param.tailText_congr h.call.args h.call.hash]

theorem elseTag (h : head.Alike R head') (hexact : R.exact) : head.elseTag = head'.elseTag := by
  unfold BlockHead.elseTag
  rw [h.delimiters hexact, h.label]

theorem closingTag (h : head.Alike R head') (hexact : R.exact) :
    head.closingTag = head'.closingTag := by
  unfold BlockHead.closingTag
  rw [h.delimiters hexact, h.call.name]

end BlockHead.Alike

namespace Node

variable {R : Resemblance}

theorem sources_congr {nodes nodes' : List Node}
    (h : List.Forall₂ (fun n m => source n = source m) nodes nodes') :
    sources nodes = sources nodes' := by
  induction h with
  | nil => rfl
  | cons hn _ ih =>
    simp only [sources]
    rw [hn, ih]

/-- By induction on the tree. -/
theorem Alike.source_eq (hexact : R.exact) {n n' : Node} (h : n.Alike R n') :
    source n = source n' := by
  induction h with
  | text => simp only [source]
  | comment _ hmarks =>
    rw [source, source]
    rw [hmarks hexact]
  | output _ hcall hmarks =>
    rw [source, source]
    rw [hmarks hexact, hcall.name, Param.tailText_congr hcall.args hcall.hash]
  | @block head head' body body' inverse inverse' hhead hsome hsome' hlength _ hlength' _ ihbody
      ihinverse =>
    have hbody := sources_congr (List.forall₂_iff_zip.2 ⟨hlength, fun h => ihbody _ _ h⟩)
    have hinverse := sources_congr (List.forall₂_iff_zip.2 ⟨hlength', fun h => ihinverse _ _ h⟩)
    have hopening := hhead.openingTag hexact
    have helse := hhead.elseTag hexact
    have hclosing := hhead.closingTag hexact
    cases body <;> cases body' <;> cases hsome <;> cases inverse <;> cases inverse' <;>
      cases hsome' <;> simp only [Option.getD_some, Option.getD_none] at hbody hinverse <;>
      simp only [source, hopening, helse, hclosing, hbody, hinverse]
  | inlinePartial _ hlength _ hmarks ih =>
    rw [source, source]
    rw [hmarks hexact, sources_congr (List.forall₂_iff_zip.2 ⟨hlength, fun h => ih _ _ h⟩)]
  | inclusion _ hargs hhash hmarks =>
    rw [source, source]
    rw [hmarks hexact, Param.tailText_congr hargs hhash]

theorem AllAlike.sources_eq (hexact : R.exact) {nodes nodes' : List Node}
    (h : AllAlike R nodes nodes') : sources nodes = sources nodes' :=
  sources_congr (h.imp fun _ _ hn => hn.source_eq hexact)

end Node

/-! ### The same trees

A resemblance that is exact and lets no bound helpers differ relates equal trees only. -/

theorem eq_of_forall₂ {α : Type} {xs ys : List α} (h : List.Forall₂ Eq xs ys) : xs = ys := by
  rw [List.forall₂_eq_eq_eq] at h
  exact h

theorem eq_of_zip {α : Type} {xs ys : List α} (hlength : xs.length = ys.length)
    (h : ∀ x y, (x, y) ∈ xs.zip ys → x = y) : xs = ys :=
  eq_of_forall₂ (List.forall₂_iff_zip.2 ⟨hlength, fun hmem => h _ _ hmem⟩)

section

variable {R : Resemblance} (hexact : R.exact) (hbound : ∀ name a b, R.bound name a b → a = b)

include hexact hbound

theorem Param.Alike.eq {p p' : Param} (h : p.Alike R p') : p = p' := by
  induction h with
  | literal | reference => rfl
  | call hplace hhelper hlength _ hlength' hkeys _ ihargs ihhash =>
    have hhash := eq_of_zip hlength' fun x y h => Prod.ext (hkeys x y h) (ihhash x y h)
    rw [hplace hexact, hbound _ _ _ hhelper, eq_of_zip hlength ihargs, hhash]

theorem Param.AllAlike.eq {args args' : List Param} (h : Param.AllAlike R args args') :
    args = args' :=
  eq_of_forall₂ (h.imp fun _ _ hp => hp.eq hexact hbound)

theorem Param.HashAlike.eq {hash hash' : HashParams} (h : Param.HashAlike R hash hash') :
    hash = hash' :=
  eq_of_forall₂ (h.imp fun _ _ hx => Prod.ext hx.1 (hx.2.eq hexact hbound))

theorem Invocation.Alike.eq {call call' : Invocation} (h : call.Alike R call') : call = call' := by
  obtain ⟨name, args, hash, helper⟩ := call
  obtain ⟨name', args', hash', helper'⟩ := call'
  obtain ⟨hname, hargs, hhash, hhelper⟩ := h
  cases (hname : name = name')
  cases hargs.eq hexact hbound
  cases hhash.eq hexact hbound
  cases hbound _ _ _ hhelper
  rfl

theorem BlockHead.Alike.eq {head head' : BlockHead} (h : head.Alike R head') : head = head' := by
  obtain ⟨place, inverted, call, blockParams, label, elsePlace, delimiters⟩ := head
  obtain ⟨place', inverted', call', blockParams', label', elsePlace', delimiters'⟩ := head'
  obtain ⟨hplace, hinverted, hcall, hparams, hlabel, helse, hmarks⟩ := h
  cases hplace hexact
  cases (hinverted : inverted = inverted')
  cases hcall.eq hexact hbound
  cases (hparams : blockParams = blockParams')
  cases (hlabel : label = label')
  cases helse hexact
  cases hmarks hexact
  rfl

/-- By induction on the tree. -/
theorem Node.Alike.eq {n n' : Node} (h : n.Alike R n') : n = n' := by
  induction h with
  | text hplace => rw [hplace hexact]
  | comment hplace hmarks => rw [hplace hexact, hmarks hexact]
  | output hplace hcall hmarks => rw [hplace hexact, hcall.eq hexact hbound, hmarks hexact]
  | @block head head' body body' inverse inverse' hhead hsome hsome' hlength _ hlength' _ ihbody
      ihinverse =>
    have hbody := eq_of_zip hlength ihbody
    have hinverse := eq_of_zip hlength' ihinverse
    rw [hhead.eq hexact hbound]
    cases body <;> cases body' <;> cases hsome <;> cases inverse <;> cases inverse' <;>
      cases hsome' <;> simp only [Option.getD_some, Option.getD_none] at hbody hinverse <;>
      simp only [hbody, hinverse]
  | inlinePartial hplace hlength _ hmarks ih =>
    rw [hplace hexact, eq_of_zip hlength ih, hmarks hexact]
  | inclusion hplace hargs hhash hmarks =>
    rw [hplace hexact, hargs.eq hexact hbound, hhash.eq hexact hbound, hmarks hexact]

theorem Node.AllAlike.eq {nodes nodes' : List Node} (h : Node.AllAlike R nodes nodes') :
    nodes = nodes' :=
  eq_of_forall₂ (h.imp fun _ _ hn => hn.eq hexact hbound)

end

/-- Fragments that are alike. -/
structure Fragment.Alike (R : Resemblance) (f f' : Fragment) : Prop where
  place : R.Same f.place f'.place
  nodes : Node.AllAlike R f.nodes f'.nodes

/-- Templates that are alike: they have the same name too. -/
structure Template.Alike (R : Resemblance) (t t' : Template) : Prop where
  name : t.name = t'.name
  root : Node.AllAlike R t.root t'.root
  place : R.Same t.place t'.place

/-- Failures to compile that are alike: the same causes, at the same places if the resemblance is
exact. -/
inductive Failure.Alike (R : Resemblance) : Failure → Failure → Prop where
  | same (f : Failure) : Alike R f f
  | scan {place place' : Location} {cause : ScanError} : R.Same place place' →
      Alike R (.scan place cause) (.scan place' cause)
  | parse {place place' : Location} {cause : ParseError} : R.Same place place' →
      Alike R (.parse place cause) (.parse place' cause)

/-- Exactly alike failures are the same. -/
theorem Failure.Alike.eq {R : Resemblance} (hexact : R.exact) {f f' : Failure}
    (h : Failure.Alike R f f') : f = f' := by
  cases h with
  | same => rfl
  | scan h => rw [h hexact]
  | parse h => rw [h hexact]

end Stencil
