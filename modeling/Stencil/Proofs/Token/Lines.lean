import Stencil.Proofs.Token.Layout
import Stencil.Proofs.Token.Lossless

/-!
# Tags on lines

Whether a tag takes its line with it is decided from the tokens beside it. With delimiters that are
not empty and hold no white space that is the rule of the lines: a tag is alone when nothing but
blanks stands before it on the line where it begins and after it on the line where it ends.
-/

namespace Stencil

namespace Text

/-! ## First and last lines -/

/-- The characters before the first line break, or all of them. -/
def firstLine (cs : List Char) : List Char := cs.takeWhile (· != '\n')

@[simp] theorem firstLine_nil : firstLine [] = [] := rfl

@[simp] theorem lastLine_nil : lastLine [] = [] := rfl

theorem firstLine_append (xs ys : List Char) :
    firstLine (xs ++ ys) = if '\n' ∈ xs then firstLine xs else xs ++ firstLine ys := by
  have htaken : (xs.takeWhile (· != '\n')).length = xs.length ↔ '\n' ∉ xs := by
    induction xs with
    | nil => simp
    | cons c xs ih =>
      by_cases hc : c = '\n'
      · simp [hc]
      · simp [hc, Ne.symm hc, ih]
  unfold firstLine
  rw [List.takeWhile_append]
  by_cases h : '\n' ∈ xs
  · rw [if_pos h, if_neg (mt htaken.1 (not_not_intro h))]
  · rw [if_neg h, if_pos (htaken.2 h)]

theorem firstLine_of_not_mem {cs : List Char} (h : '\n' ∉ cs) : firstLine cs = cs := by
  have happend := firstLine_append cs []
  rwa [if_neg h, List.append_nil, firstLine_nil, List.append_nil] at happend

theorem lastLine_eq (cs : List Char) : lastLine cs = (firstLine cs.reverse).reverse := rfl

theorem lastLine_append (xs ys : List Char) :
    lastLine (xs ++ ys) = if '\n' ∈ ys then lastLine ys else lastLine xs ++ ys := by
  rw [lastLine_eq, List.reverse_append, firstLine_append]
  by_cases h : '\n' ∈ ys
  · rw [if_pos h, if_pos (List.mem_reverse.2 h), lastLine_eq]
  · rw [if_neg h, if_neg (mt List.mem_reverse.1 h), List.reverse_append, List.reverse_reverse,
      lastLine_eq]

theorem lastLine_of_not_mem {cs : List Char} (h : '\n' ∉ cs) : lastLine cs = cs := by
  have happend := lastLine_append [] cs
  rwa [if_neg h, List.nil_append] at happend

/-- A text with a line break has room for its first line, the break and its last line. -/
theorem length_lines_le {cs : List Char} (h : '\n' ∈ cs) :
    (firstLine cs).length + 1 + (lastLine cs).length ≤ cs.length := by
  obtain ⟨xs, ys, rfl, hxs⟩ := List.eq_append_cons_of_mem h
  have hfirst : firstLine (xs ++ '\n' :: ys) = xs := by
    rw [firstLine_append, if_neg hxs]
    simp [firstLine]
  obtain ⟨front, hfront⟩ := append_lastLine ys
  have hlast : lastLine (xs ++ '\n' :: ys) = lastLine ys := by
    rw [List.append_cons, lastLine_append]
    by_cases hys : '\n' ∈ ys
    · rw [if_pos hys]
    · rw [if_neg hys, lastLine_append, if_pos List.mem_cons_self, lastLine_of_not_mem hys]
      rfl
  have hlength := congrArg List.length hfront
  rw [List.length_append] at hlength
  rw [hfirst, hlast, List.length_append, List.length_cons]
  omega

theorem splitAt?_lineFeed (cs : List Char) :
    splitAt? '\n' cs =
      if '\n' ∈ cs then some (firstLine cs, cs.drop ((firstLine cs).length + 1)) else none := by
  induction cs with
  | nil => rfl
  | cons c cs ih =>
    by_cases hc : c = '\n'
    · simp [splitAt?, firstLine, hc]
    · rw [splitAt?, if_neg (by simpa using hc), ih]
      by_cases h : '\n' ∈ cs
      · simp [firstLine, hc, h]
      · simp [Ne.symm hc, h]

end Text

namespace Token

theorem headCut_eq (cs : List Char) :
    headCut cs = if '\n' ∈ cs then (Text.firstLine cs).length + 1 else cs.length := by
  rw [headCut, Text.splitAt?_lineFeed]
  by_cases h : '\n' ∈ cs
  · rw [if_pos h, if_pos h]
  · rw [if_neg h, if_neg h]

theorem blankAfter_cons (t : Token) (further : List Token) :
    blankAfter (t :: further) = (t.kind == .text &&
      (t.value.toList.contains '\n' || further.isEmpty) &&
      (Text.firstLine t.value.toList).all isLineRest) := by
  rw [blankAfter, Text.splitAt?_lineFeed]
  by_cases h : '\n' ∈ t.value.toList
  · simp [h]
  · simp [h, Text.firstLine_of_not_mem h, Bool.and_assoc]

theorem headCut_le (cs : List Char) : headCut cs ≤ cs.length := by
  rw [headCut_eq]
  split
  · rename_i h
    have := Text.length_lines_le h
    omega
  · exact Nat.le_refl _

/-! ## Judged by the tokens and by the lines -/

/-- A line that ends in a character that is not white space, and what follows there, is more than
an indent. -/
theorem lastLine_not_indent {c : Char} (hc : Text.isBlank c = false) (xs : List Char) :
    (Text.lastLine (xs ++ [c])).all isIndent = false := by
  have hfeed : '\n' ∉ [c] := fun h => ne_lineFeed_of_not_isBlank hc (List.mem_singleton.1 h).symm
  rw [Text.lastLine_append, if_neg hfeed, List.all_append]
  simp [isIndent_of_not_isBlank hc]

theorem firstLine_not_lineRest {c : Char} (hc : Text.isBlank c = false) (xs : List Char) :
    (Text.firstLine (c :: xs)).all isLineRest = false := by
  have hfeed : '\n' ∉ [c] := fun h => ne_lineFeed_of_not_isBlank hc (List.mem_singleton.1 h).symm
  rw [← List.singleton_append, Text.firstLine_append, if_neg hfeed, List.all_append]
  simp [isLineRest_of_not_isBlank hc]

theorem Lies.kind_of_tag {t : Token} (h : t.isTag = true) : (t.kind == .text) = false := by
  simp only [isTag, Bool.and_eq_true, bne_iff_ne] at h
  simpa using h.1

theorem Laid.value_eq {pieces : List Piece} (h : Laid pieces) {x : Piece} (hx : x ∈ pieces)
    (htext : x.1.kind = .text) : x.1.value.toList = x.2 := by
  cases h.lies x hx with
  | text _ hvalue => exact hvalue
  | tag htag => exact absurd htext (by simpa using Lies.kind_of_tag htag)

/-- The line is blank up to the end of some pieces exactly when their last line is an indent. -/
theorem blankBefore_eq {pieces : List Piece} (h : Laid pieces) :
    blankBefore (pieces.map (·.1)).reverse = (Text.lastLine (sourceOf pieces)).all isIndent := by
  rcases List.eq_nil_or_concat pieces with rfl | ⟨further, ⟨u, slice⟩, rfl⟩
  · rfl
  rw [List.concat_eq_append] at h ⊢
  have hu : u.Lies slice := h.lies (u, slice) (by simp)
  rw [List.map_append, List.reverse_append, sourceOf_append, sourceOf_cons, sourceOf_nil,
    List.append_nil]
  change blankBefore (u :: (further.map (·.1)).reverse) =
    (Text.lastLine (sourceOf further ++ slice)).all isIndent
  cases hu with
  | tag htag _ hends =>
    obtain ⟨front, last, hslice, hlast⟩ := hends
    rw [blankBefore, Lies.kind_of_tag htag, Bool.false_and, Bool.false_and, hslice,
      ← List.append_assoc, lastLine_not_indent hlast]
  | text hkind hvalue hne =>
    rw [Text.lastLine_append]
    by_cases hfeed : '\n' ∈ slice
    · simp [blankBefore, hkind, hfeed, hvalue]
    · rw [if_neg hfeed]
      rcases List.eq_nil_or_concat further with rfl | ⟨first, ⟨w, other⟩, rfl⟩
      · simp [blankBefore, hkind, hvalue, Text.lastLine_of_not_mem hfeed]
      · -- Between two texts there is a tag, and its last character stands on the line.
        rw [List.concat_eq_append] at h ⊢
        have hw : w.Lies other := h.lies (w, other) (by simp)
        have hapart : w.kind = .text → u.kind ≠ .text :=
          (List.isChain_append.1 h.apart).2.2 (w, other) (by simp) (u, slice) (by simp)
        cases hw with
        | text hother => exact absurd hkind (hapart hother)
        | tag _ _ hends =>
          obtain ⟨front, last, hother, hlast⟩ := hends
          have hline := lastLine_not_indent hlast (sourceOf first ++ front)
          rw [List.append_assoc, ← hother] at hline
          simp [blankBefore, hkind, hfeed, hvalue, hline]

/-- The line is blank from the beginning of some pieces on exactly when nothing but blanks is on their
first line. -/
theorem blankAfter_eq {pieces : List Piece} (h : Laid pieces) :
    blankAfter (pieces.map (·.1)) = (Text.firstLine (sourceOf pieces)).all isLineRest := by
  cases pieces with
  | nil => rfl
  | cons x further =>
    obtain ⟨u, slice⟩ := x
    have hu : u.Lies slice := h.lies (u, slice) List.mem_cons_self
    rw [List.map_cons, sourceOf_cons, blankAfter_cons]
    dsimp only
    cases hu with
    | tag htag hbegins =>
      obtain ⟨first, rest, hslice, hfirst⟩ := hbegins
      rw [Lies.kind_of_tag htag, Bool.false_and, Bool.false_and, hslice, List.cons_append,
        firstLine_not_lineRest hfirst]
    | text hkind hvalue hne =>
      rw [Text.firstLine_append]
      by_cases hfeed : '\n' ∈ slice
      · simp [hkind, hfeed, hvalue]
      · rw [if_neg hfeed]
        cases further with
        | nil => simp [hkind, hvalue, Text.firstLine_of_not_mem hfeed]
        | cons y further =>
          obtain ⟨w, other⟩ := y
          have hw : w.Lies other := h.lies (w, other) (by simp)
          have hapart : u.kind = .text → w.kind ≠ .text := (List.isChain_cons_cons.1 h.apart).1
          cases hw with
          | text hother => exact absurd hother (hapart hkind)
          | tag _ hbegins =>
            obtain ⟨first, rest, hother, hfirst⟩ := hbegins
            have hline := firstLine_not_lineRest hfirst (rest ++ sourceOf further)
            rw [← List.cons_append, ← hother] at hline
            simp [hkind, hfeed, hvalue, hline]

/-! ## What a tag takes away -/

/-- A token with the places of a source that it takes, from `start` up to `stop`. -/
structure Span where
  token : Token
  start : Nat
  stop : Nat

/-- The span of a token of a source of some length, before the tokens `after`. -/
def span (length : Nat) (t : Token) (after : List Token) : Span :=
  ⟨t, t.position.offset, (after.head?.map (·.position.offset)).getD length⟩

/-- The spans of the tokens of a source of some length. -/
def spans (length : Nat) : List Token → List Span
  | [] => []
  | t :: after => t.span length after :: spans length after

namespace Span

/-- The place of a source where the line of a place begins. -/
def lineStart (cs : List Char) (p : Nat) : Nat := p - (Text.lastLine (cs.take p)).length

/-- The place behind the line break that ends the line of a place. -/
def lineEnd (cs : List Char) (p : Nat) : Nat := p + (Text.firstLine (cs.drop p)).length + 1

/-- A tag of a kind that stands alone with nothing but spaces and tabs before it on the line where it
begins, and nothing but these and carriage returns after it on the line where it ends. -/
def alone (cs : List Char) (s : Span) : Bool :=
  s.token.kind.standsAlone && (Text.lastLine (cs.take s.start)).all isIndent &&
    (Text.firstLine (cs.drop s.stop)).all isLineRest

/-- A tag takes away its own characters, and the rest of its line when it is alone there. -/
def takes (cs : List Char) (s : Span) (i : Nat) : Bool :=
  s.token.isTag &&
    if s.alone cs then decide (lineStart cs s.start ≤ i ∧ i < lineEnd cs s.stop)
    else decide (s.start ≤ i ∧ i < s.stop)

end Span

/-- The characters of a source from a place up to another that no tag takes away. -/
def left (cs : List Char) (all : List Span) (p q : Nat) : List Char :=
  (List.range' p (q - p)).filterMap fun i => if all.any (·.takes cs i) then none else cs[i]?

/-- The white space of a text next to marked tags removed. -/
def stripped (last next : Option Token) (cs : List Char) : List Char :=
  let cs := if last.any (·.trimsAfter) then Text.trimFront Text.isBlank cs else cs
  if next.any (·.trimsBefore) then Text.trimBack Text.isBlank cs else cs

/-- Tokens with each text replaced by what is left of it, `last` being the token before them. A text
of which nothing is left goes. -/
def swept (cs : List Char) (all : List Span) (last : Option Token) : List Span → List Token
  | [] => []
  | s :: after =>
    let others := swept cs all (some s.token) after
    if s.token.kind == .text then
      let text := stripped last (after.head?.map (·.token)) (left cs all s.start s.stop)
      if text.isEmpty then others else { s.token with value := String.ofList text } :: others
    else s.token :: others

/-! ## Where pieces lie -/

theorem take_sourceOf (front back : List Piece) :
    (sourceOf (front ++ back)).take (sourceOf front).length = sourceOf front := by
  rw [sourceOf_append, List.take_left]

theorem drop_sourceOf (front back : List Piece) (x : Piece) :
    (sourceOf (front ++ x :: back)).drop ((sourceOf front).length + x.2.length) =
      sourceOf back := by
  rw [sourceOf_append, sourceOf_cons, ← List.append_assoc, ← List.length_append, List.drop_left]

/-- The spans of pieces that begin at a place. -/
def spansFrom (p : Nat) : List Piece → List Span
  | [] => []
  | x :: after => ⟨x.1, p, p + x.2.length⟩ :: spansFrom (p + x.2.length) after

theorem spansFrom_append (p : Nat) (front back : List Piece) :
    spansFrom p (front ++ back) =
      spansFrom p front ++ spansFrom (p + (sourceOf front).length) back := by
  induction front generalizing p with
  | nil => rfl
  | cons x front ih => simp [spansFrom, ih, Nat.add_assoc]

theorem mem_spansFrom {p : Nat} {pieces : List Piece} {s : Span} (h : s ∈ spansFrom p pieces) :
    ∃ front x back, pieces = front ++ x :: back ∧
      s = ⟨x.1, p + (sourceOf front).length, p + (sourceOf front).length + x.2.length⟩ := by
  induction pieces generalizing p with
  | nil => cases h
  | cons y pieces ih =>
    rcases List.mem_cons.1 h with rfl | h
    · exact ⟨[], y, pieces, rfl, rfl⟩
    · obtain ⟨front, x, back, rfl, rfl⟩ := ih h
      refine ⟨y :: front, x, back, rfl, ?_⟩
      rw [sourceOf_cons, List.length_append, Nat.add_assoc p]

/-- The span of a token ends where its piece does. -/
theorem Placed.span_eq {front back : List Piece} {x : Piece} (h : Placed 0 (front ++ x :: back)) :
    x.1.span (sourceOf (front ++ x :: back)).length (back.map (·.1)) =
      ⟨x.1, (sourceOf front).length, (sourceOf front).length + x.2.length⟩ := by
  have hstart := h.places front x back rfl
  rw [Nat.zero_add] at hstart
  cases back with
  | nil => simp [span, hstart]
  | cons y back =>
    have hstop := h.places (front ++ [x]) y back (by simp)
    simp [span, hstart, hstop]

theorem Placed.spans_eq {front back : List Piece} (h : Placed 0 (front ++ back)) :
    spans (sourceOf (front ++ back)).length (back.map (·.1)) =
      spansFrom (sourceOf front).length back := by
  induction back generalizing front with
  | nil => rfl
  | cons x back ih =>
    have hothers := ih (by simpa using h : Placed 0 ((front ++ [x]) ++ back))
    rw [List.append_assoc, List.singleton_append] at hothers
    rw [List.map_cons, spans, h.span_eq, hothers, spansFrom, sourceOf_append, List.length_append,
      sourceOf_cons, sourceOf_nil, List.append_nil]

/-- Judging by the tokens beside a tag is judging by its lines. -/
theorem Laid.isAlone_eq {front back : List Piece} {x : Piece} (h : Laid (front ++ x :: back)) :
    isAlone (front.map (·.1)).reverse x.1 (back.map (·.1)) =
      Span.alone (sourceOf (front ++ x :: back))
        ⟨x.1, (sourceOf front).length, (sourceOf front).length + x.2.length⟩ := by
  have hsplit : Laid ((front ++ [x]) ++ back) := by simpa using h
  rw [isAlone, blankBefore_eq h.of_append.1, blankAfter_eq hsplit.of_append.2, Span.alone]
  dsimp only
  rw [take_sourceOf, drop_sourceOf]

end Token

end Stencil
