import Mathlib.Data.List.Chain
import Stencil.Proofs.Token.Partition

/-!
# How tokens lie in a source

With delimiters that are not empty and hold no white space, every tag begins and ends with a
character that is not white space, whatever delimiters the tags before it have set. Between two runs
of text there is always a tag.
-/

namespace Stencil

namespace Text

/-- A text that is not empty and holds no white space. -/
def Solid (cs : List Char) : Prop := cs ≠ [] ∧ ∀ c ∈ cs, isBlank c = false

theorem Solid.cons {cs : List Char} (h : Solid cs) :
    ∃ c rest, cs = c :: rest ∧ isBlank c = false := by
  obtain ⟨c, rest, rfl⟩ := List.exists_cons_of_ne_nil h.1
  exact ⟨c, rest, rfl, h.2 c List.mem_cons_self⟩

theorem Solid.concat {cs : List Char} (h : Solid cs) :
    ∃ front c, cs = front ++ [c] ∧ isBlank c = false := by
  refine ⟨cs.dropLast, cs.getLast h.1, (List.dropLast_concat_getLast h.1).symm, ?_⟩
  exact h.2 _ (List.getLast_mem h.1)

/-- Words are solid, by induction on the text; a word that has been begun is solid so far. -/
theorem solid_of_mem_wordsFrom {current cs word : List Char}
    (hcurrent : ∀ c ∈ current, isBlank c = false) (h : word ∈ wordsFrom current cs) :
    Solid word := by
  have hbegun : current.isEmpty = false → Solid current.reverse := by
    intro hne
    exact ⟨by simpa using hne, fun c hc => hcurrent c (List.mem_reverse.1 hc)⟩
  induction cs generalizing current with
  | nil =>
    rw [wordsFrom] at h
    split at h
    · cases h
    · rename_i hne
      cases List.mem_singleton.1 h
      exact hbegun (Bool.not_eq_true _ ▸ hne)
  | cons c rest ih =>
    have hnone : ∀ c ∈ ([] : List Char), isBlank c = false := List.forall_mem_nil _
    have hfresh : ([] : List Char).isEmpty = false → Solid ([] : List Char).reverse :=
      fun h => absurd h (by decide)
    rw [wordsFrom] at h
    split at h
    · split at h
      · exact ih hnone h hfresh
      · rename_i hne
        rcases List.mem_cons.1 h with rfl | h
        · exact hbegun (Bool.not_eq_true _ ▸ hne)
        · exact ih hnone h hfresh
    · rename_i hblank
      have hmore : ∀ d ∈ c :: current, isBlank d = false :=
        List.forall_mem_cons.2 ⟨Bool.not_eq_true _ ▸ hblank, hcurrent⟩
      exact ih hmore h fun _ => ⟨by simp, fun d hd => hmore d (List.mem_reverse.1 hd)⟩

end Text

/-- Delimiters that are not empty and hold no white space. -/
structure Delimiters.Solid (d : Delimiters) : Prop where
  opening : Text.Solid d.opening.toList
  closing : Text.Solid d.closing.toList

/-- Delimiters that a tag sets are solid. -/
theorem Tag.solid_of_newDelimiters {value : List Char} {d : Delimiters}
    (h : newDelimiters value = .ok d) : d.Solid := by
  unfold newDelimiters at h
  split at h
  · rename_i opening closing hwords
    have hsolid : ∀ word ∈ [opening, closing], Text.Solid word := fun word hword =>
      Text.solid_of_mem_wordsFrom (List.forall_mem_nil _) (hwords ▸ hword)
    split at h
    · cases h
    · cases h
      refine ⟨?_, ?_⟩
      · rw [String.toList_ofList]
        exact hsolid opening (by simp)
      · rw [String.toList_ofList]
        exact hsolid closing (by simp)
  · cases h

namespace Token

/-- How a token lies over its slice of a source: a text is its slice, and a tag begins and ends with
characters that are not white space. -/
inductive Lies (t : Token) (slice : List Char) : Prop where
  | text : t.kind = .text → t.value.toList = slice → slice ≠ [] → Lies t slice
  | tag : t.isTag = true → (∃ first rest, slice = first :: rest ∧ Text.isBlank first = false) →
      (∃ front last, slice = front ++ [last] ∧ Text.isBlank last = false) → Lies t slice

theorem Covers.lies {t : Token} {slice rest : List Char} (h : t.Covers slice rest)
    (hsolid : t.delimiters.Solid) : t.Lies slice := by
  cases h with
  | text hkind hne _ => exact .text hkind rfl hne
  | @tag inner _ htag _ =>
    obtain ⟨first, opening, hopening, hfirst⟩ := hsolid.opening.cons
    obtain ⟨closing, last, hclosing, hlast⟩ := hsolid.closing.concat
    refine .tag htag ⟨first, opening ++ inner ++ t.delimiters.closing.toList, ?_, hfirst⟩
      ⟨t.delimiters.opening.toList ++ inner ++ closing, last, ?_, hlast⟩
    · rw [hopening, List.cons_append, List.cons_append]
    · rw [hclosing, ← List.append_assoc]

/-- A token with the slice of the source that it takes. -/
abbrev Piece := Token × List Char

/-- The source of some pieces. -/
def sourceOf (pieces : List Piece) : List Char := pieces.flatMap (·.2)

@[simp] theorem sourceOf_nil : sourceOf [] = [] := rfl

@[simp] theorem sourceOf_cons (x : Piece) (pieces : List Piece) :
    sourceOf (x :: pieces) = x.2 ++ sourceOf pieces := rfl

@[simp] theorem sourceOf_append (front back : List Piece) :
    sourceOf (front ++ back) = sourceOf front ++ sourceOf back := List.flatMap_append

/-- Pieces that lie in their source one behind the other, with a tag between any two texts. -/
structure Laid (pieces : List Piece) : Prop where
  lies : ∀ x ∈ pieces, x.1.Lies x.2
  apart : pieces.IsChain fun x y => x.1.kind = .text → y.1.kind ≠ .text

theorem Laid.of_append {front back : List Piece} (h : Laid (front ++ back)) :
    Laid front ∧ Laid back :=
  ⟨⟨fun x hx => h.lies x (List.mem_append_left _ hx), (List.isChain_append.1 h.apart).1⟩,
    ⟨fun x hx => h.lies x (List.mem_append_right _ hx), (List.isChain_append.1 h.apart).2.1⟩⟩

/-- Tokens in pieces, the first of which begins at an offset. -/
structure Placed (offset : Nat) (pieces : List Piece) : Prop where
  laid : Laid pieces
  /-- Each token begins where the pieces before it end. -/
  places : ∀ front x back, pieces = front ++ x :: back →
    x.1.position.offset = offset + (sourceOf front).length

/-- Slices cut with solid delimiters lie in the source as pieces, by induction on the cut. -/
theorem Cut.pieces {marks : Delimiters} {p : Position} {slices : List (List Char)}
    {tokens : List Token} (h : Cut marks p slices tokens) (hsolid : marks.Solid)
    (hapart : tokens.IsChain fun t u => t.kind = .text → u.kind ≠ .text) :
    ∃ pieces : List Piece, pieces.map (·.1) = tokens ∧ sourceOf pieces = slices.flatten ∧
      Placed p.offset pieces := by
  induction h with
  | done => exact ⟨[], rfl, rfl, ⟨List.forall_mem_nil _, .nil⟩, by simp⟩
  | @take marks next p slice slices t ts hposition hmarks hcovers hhands _ ih =>
    subst hmarks
    have hnext : next.Solid := by
      unfold Hands at hhands
      split at hhands
      · exact Tag.solid_of_newDelimiters hhands
      · exact hhands ▸ hsolid
    obtain ⟨pieces, rfl, hsource, hplaced⟩ := ih hnext hapart.tail
    have hchain : ((t, slice) :: pieces).IsChain
        fun x y => x.1.kind = .text → y.1.kind ≠ .text :=
      (List.isChain_map (fun x : Piece => x.1) (l := (t, slice) :: pieces)).1 hapart
    refine ⟨(t, slice) :: pieces, rfl, congrArg (slice ++ ·) hsource,
      ⟨List.forall_mem_cons.2 ⟨hcovers.lies hsolid, hplaced.laid.lies⟩, hchain⟩, ?_⟩
    intro front x back hsplit
    cases front with
    | nil =>
      cases hsplit
      rw [hposition]
      rfl
    | cons y front =>
      cases (List.cons.inj hsplit).1
      rw [hplaced.places front x back (List.cons.inj hsplit).2, Position.offset_advance,
        sourceOf_cons, List.length_append, Nat.add_assoc]

/-- A scan makes no two texts in a row, by induction on what is left of the source. -/
theorem scanFrom_apart (file : String) (marks : Delimiters) (p : Position) (text : List Char) :
    Meets (fun _ => True)
      (fun tokens => tokens.IsChain fun t u => t.kind = .text → u.kind ≠ .text)
      (scanFrom file marks p text) := by
  -- A tag, and the text in front of it if there is one, before tokens of which no two are texts.
  have htag (marks : Delimiters) (p at_ : Position) (before : List Char) {tag : Tag}
      {others : List Token} (hkind : tag.kind ≠ .text)
      (hothers : others.IsChain fun t u => t.kind = .text → u.kind ≠ .text) :
      (ofText marks p before ++ ofTag marks at_ tag :: others).IsChain
        fun t u => t.kind = .text → u.kind ≠ .text := by
    have hfront : (ofTag marks at_ tag :: others).IsChain
        fun t u => t.kind = .text → u.kind ≠ .text :=
      List.isChain_cons.2 ⟨fun _ _ htext => absurd htext hkind, hothers⟩
    unfold ofText
    split
    · exact hfront
    · exact List.isChain_cons_cons.2 ⟨fun _ => hkind, hfront⟩
  fun_induction scanFrom file marks p text with
  | case1 => exact Meets.pure .nil
  | case2 marks p text =>
    refine Meets.pure ?_
    unfold ofText
    split
    · exact .nil
    · exact .singleton _
  | case3 | case5 => exact Meets.throw trivial
  | case4 marks p text _ before _ _ _ at_ _ _ hread _ _ next _ ih =>
    exact (ih next).bind fun _ hothers =>
      Meets.pure (htag marks p at_ before (Tag.shape_of_read hread).1 hothers)
  | case6 marks p text _ before _ _ _ at_ _ _ hread _ _ ih =>
    exact (ih marks).bind fun _ hothers =>
      Meets.pure (htag marks p at_ before (Tag.shape_of_read hread).1 hothers)

/-- The tokens of a source scanned with solid delimiters lie in it as pieces. -/
theorem pieces_of_scan {file : String} {marks : Delimiters} {text : String} {tokens : List Token}
    (h : scan file marks text = .ok tokens) (hsolid : marks.Solid) :
    ∃ pieces : List Piece, pieces.map (·.1) = tokens ∧ sourceOf pieces = text.toList ∧
      Placed 0 pieces := by
  obtain ⟨slices, hflat, hcut⟩ := (scanFrom_cut file marks .start text.toList).of_ok h
  have hapart := (scanFrom_apart file marks .start text.toList).of_ok h
  rw [← hflat]
  exact hcut.pieces hsolid hapart

end Token

end Stencil
