import Stencil.Proofs.Token.Lines

/-!
# Lines with one lone tag

What white-space control leaves of a source is what no tag takes away, character by character: a tag
takes itself, and the rest of its line when it is alone there. The text beside a marked tag is
stripped besides.
-/

namespace Stencil

namespace Token

/-! ## Which characters go -/

theorem isTag_of_standsAlone {t : Token} (h : t.kind.standsAlone = true) : t.isTag = true := by
  unfold isTag
  cases hkind : t.kind <;> simp [hkind, TokenKind.standsAlone] at h ⊢

/-- Of the places behind a tag that is alone exactly those in the head cut of the text behind it
go. -/
theorem Laid.takes_behind {front further : List Piece} {x y : Piece}
    (h : Laid (front ++ x :: y :: further)) {i : Nat}
    (hstop : (sourceOf front).length + x.2.length ≤ i)
    (hend : i < (sourceOf (front ++ x :: y :: further)).length) :
    Span.takes (sourceOf (front ++ x :: y :: further))
        ⟨x.1, (sourceOf front).length, (sourceOf front).length + x.2.length⟩ i =
      (isAlone (front.map (·.1)).reverse x.1 (y.1 :: further.map (·.1)) &&
        decide (i < (sourceOf front).length + x.2.length + headCut y.1.value.toList)) := by
  have halone := h.isAlone_eq
  rw [List.map_cons] at halone
  rw [Span.takes, ← halone]
  cases hjudged : isAlone (front.map (·.1)).reverse x.1 (y.1 :: further.map (·.1)) with
  | false =>
    have hoff : ¬(i < (sourceOf front).length + x.2.length) := by omega
    simp [hoff]
  | true =>
    rw [isAlone, Bool.and_eq_true, Bool.and_eq_true, blankAfter_cons, Bool.and_eq_true,
      Bool.and_eq_true, beq_iff_eq] at hjudged
    obtain ⟨⟨hkind, -⟩, ⟨htext, hbreak⟩, -⟩ := hjudged
    have hvalue : y.1.value.toList = y.2 := h.value_eq (by simp) htext
    have hstart : Span.lineStart (sourceOf (front ++ x :: y :: further)) (sourceOf front).length ≤ i :=
      Nat.le_trans (Nat.sub_le _ _) (by omega)
    have hline : Span.lineEnd (sourceOf (front ++ x :: y :: further))
        ((sourceOf front).length + x.2.length) =
          (sourceOf front).length + x.2.length +
            (Text.firstLine (y.2 ++ sourceOf further)).length + 1 := by
      rw [Span.lineEnd, drop_sourceOf, sourceOf_cons]
    simp only [isTag_of_standsAlone hkind, hline, hvalue, hstart, headCut_eq, true_and, Bool.true_and,
      if_true]
    rw [Text.firstLine_append]
    by_cases hfeed : '\n' ∈ y.2
    · rw [if_pos hfeed, if_pos hfeed, Nat.add_assoc]
    · -- Without a line break the text is the last piece, and it goes as a whole.
      rw [hvalue] at hbreak
      have hlast : further = [] := by simpa [hfeed] using hbreak
      subst hlast
      rw [if_neg hfeed, if_neg hfeed, sourceOf_nil, Text.firstLine_nil, List.append_nil]
      simp only [sourceOf_append, sourceOf_cons, sourceOf_nil, List.append_nil,
        List.length_append] at hend
      simp only [decide_eq_decide]
      omega

/-- A tag takes nothing behind the piece behind it. -/
theorem Laid.not_takes_behind {front further : List Piece} {x y : Piece}
    (h : Laid (front ++ x :: y :: further)) {i : Nat}
    (hstop : (sourceOf front).length + x.2.length + y.2.length ≤ i)
    (hend : i < (sourceOf (front ++ x :: y :: further)).length) :
    Span.takes (sourceOf (front ++ x :: y :: further))
      ⟨x.1, (sourceOf front).length, (sourceOf front).length + x.2.length⟩ i = false := by
  rw [h.takes_behind (by omega) hend]
  cases hjudged : isAlone (front.map (·.1)).reverse x.1 (y.1 :: further.map (·.1)) with
  | false => rfl
  | true =>
    simp only [isAlone, blankAfter_cons, Bool.and_eq_true, beq_iff_eq] at hjudged
    have hcut := headCut_le y.1.value.toList
    rw [h.value_eq (by simp) hjudged.2.1.1] at hcut ⊢
    exact decide_eq_false (by omega)

/-- Of the places before a tag that is alone exactly those behind the tail cut of the text before it
go. -/
theorem Laid.takes_before {front back : List Piece} {x y : Piece}
    (h : Laid ((front ++ [y]) ++ x :: back)) {i : Nat}
    (hstart : i < (sourceOf (front ++ [y])).length) :
    Span.takes (sourceOf ((front ++ [y]) ++ x :: back))
        ⟨x.1, (sourceOf (front ++ [y])).length, (sourceOf (front ++ [y])).length + x.2.length⟩ i =
      (isAlone (y.1 :: (front.map (·.1)).reverse) x.1 (back.map (·.1)) &&
        decide ((sourceOf front).length + tailCut y.1.value.toList ≤ i)) := by
  have halone := h.isAlone_eq
  rw [List.map_append, List.map_singleton, List.reverse_append, List.reverse_singleton,
    List.singleton_append] at halone
  rw [Span.takes, ← halone]
  cases hjudged : isAlone (y.1 :: (front.map (·.1)).reverse) x.1 (back.map (·.1)) with
  | false =>
    have hoff : ¬((sourceOf (front ++ [y])).length ≤ i) := by omega
    simp only [hoff, Bool.false_eq_true, if_false, false_and, decide_false, Bool.and_false,
      Bool.false_and]
  | true =>
    rw [isAlone, Bool.and_eq_true, Bool.and_eq_true, blankBefore, Bool.and_eq_true,
      Bool.and_eq_true, beq_iff_eq] at hjudged
    obtain ⟨⟨hkind, ⟨htext, hbreak⟩, -⟩, -⟩ := hjudged
    have hvalue : y.1.value.toList = y.2 := h.value_eq (by simp) htext
    have hstop : i < Span.lineEnd (sourceOf ((front ++ [y]) ++ x :: back))
        ((sourceOf (front ++ [y])).length + x.2.length) := by
      unfold Span.lineEnd
      omega
    have hline : Span.lineStart (sourceOf ((front ++ [y]) ++ x :: back))
        (sourceOf (front ++ [y])).length = (sourceOf front).length + y.2.length -
          (Text.lastLine (sourceOf front ++ y.2)).length := by
      rw [Span.lineStart, take_sourceOf]
      simp
    simp only [isTag_of_standsAlone hkind, hline, hvalue, hstop, tailCut, and_true, Bool.true_and,
      if_true]
    rw [Text.lastLine_append]
    by_cases hfeed : '\n' ∈ y.2
    · obtain ⟨cs, hcs⟩ := Text.append_lastLine y.2
      have hlength := congrArg List.length hcs
      rw [List.length_append] at hlength
      rw [if_pos hfeed, Nat.add_sub_assoc (by omega)]
    · -- Without a line break the text is the first piece, and it goes as a whole.
      rw [hvalue] at hbreak
      have hfirst : front = [] := by simpa [hfeed] using hbreak
      subst hfirst
      simp [hfeed, Text.lastLine_of_not_mem hfeed]

/-- A tag takes nothing before the piece before it. -/
theorem Laid.not_takes_before {front back : List Piece} {x y : Piece}
    (h : Laid ((front ++ [y]) ++ x :: back)) {i : Nat} (hi : i < (sourceOf front).length) :
    Span.takes (sourceOf ((front ++ [y]) ++ x :: back))
      ⟨x.1, (sourceOf (front ++ [y])).length, (sourceOf (front ++ [y])).length + x.2.length⟩ i =
        false := by
  have hstart : i < (sourceOf (front ++ [y])).length := by
    rw [sourceOf_append, List.length_append]
    omega
  rw [h.takes_before hstart, decide_eq_false (by omega), Bool.and_false]

/-- A tag goes as a whole. -/
theorem takes_inside {front back : List Piece} {x : Piece} (h : x.1.isTag = true) {i : Nat}
    (hstart : (sourceOf front).length ≤ i) (hstop : i < (sourceOf front).length + x.2.length) :
    Span.takes (sourceOf (front ++ x :: back))
      ⟨x.1, (sourceOf front).length, (sourceOf front).length + x.2.length⟩ i = true := by
  have hbegins : Span.lineStart (sourceOf (front ++ x :: back)) (sourceOf front).length ≤ i :=
    Nat.le_trans (Nat.sub_le _ _) hstart
  have hends : i < Span.lineEnd (sourceOf (front ++ x :: back))
      ((sourceOf front).length + x.2.length) := by
    unfold Span.lineEnd
    omega
  rw [Span.takes, h, Bool.true_and]
  split
  · exact decide_eq_true ⟨hbegins, hends⟩
  · exact decide_eq_true ⟨hstart, hstop⟩

/-! ## What is left of a text -/

theorem filterMap_range' (cs : List Char) (p n : Nat) :
    (List.range' p n).filterMap (cs[·]?) = (cs.drop p).take n := by
  induction n generalizing p with
  | zero => simp
  | succ n ih =>
    rw [List.range'_succ, List.filterMap_cons, ih]
    by_cases h : p < cs.length
    · rw [List.getElem?_eq_getElem h, List.drop_eq_getElem_cons h, List.take_succ_cons]
    · rw [List.getElem?_eq_none (by omega), List.drop_eq_nil_of_le (by omega),
        List.drop_eq_nil_of_le (by omega), List.take_nil, List.take_nil]

theorem left_append (cs : List Char) (all : List Span) {p q r : Nat} (hpq : p ≤ q) (hqr : q ≤ r) :
    left cs all p r = left cs all p q ++ left cs all q r := by
  have hrange : List.range' p (r - p) = List.range' p (q - p) ++ List.range' q (r - q) := by
    have happend := List.range'_append_1 (s := p) (m := q - p) (n := r - q)
    rw [show p + (q - p) = q by omega, show q - p + (r - q) = r - p by omega] at happend
    exact happend.symm
  rw [left, left, left, hrange, List.filterMap_append]

theorem left_eq_nil {cs : List Char} {all : List Span} {p q : Nat}
    (h : ∀ i, p ≤ i → i < q → all.any (·.takes cs i) = true) : left cs all p q = [] := by
  refine List.filterMap_eq_nil_iff.2 fun i hi => ?_
  obtain ⟨hp, hq⟩ := List.mem_range'_1.1 hi
  exact if_pos (h i hp (by omega))

theorem left_eq_take {cs : List Char} {all : List Span} {p q : Nat}
    (h : ∀ i, p ≤ i → i < q → all.any (·.takes cs i) = false) :
    left cs all p q = (cs.drop p).take (q - p) := by
  rw [← filterMap_range']
  refine List.filterMap_congr fun i hi => ?_
  obtain ⟨hp, hq⟩ := List.mem_range'_1.1 hi
  exact if_neg (by rw [h i hp (by omega)]; exact Bool.false_ne_true)

/-- How many characters of a text the tag before it takes. -/
def headOf (before : List Token) (t : Token) (after : List Token) : Nat :=
  match before with
  | tag :: further => if isAlone further tag (t :: after) then headCut t.value.toList else 0
  | [] => 0

/-- How many characters of a text the tag after it leaves. -/
def tailOf (before : List Token) (t : Token) (after : List Token) : Nat :=
  match after with
  | tag :: further =>
    if isAlone (t :: before) tag further then tailCut t.value.toList else t.value.toList.length
  | [] => t.value.toList.length

/-- A text is cut at both ends, and what is left is stripped. -/
theorem trimmed_eq_stripped (before : List Token) (t : Token) (after : List Token) :
    trimmed before t after = stripped before.head? after.head?
      ((t.value.toList.take (tailOf before t after)).drop (headOf before t after)) := by
  cases before <;> cases after <;> rfl

theorem tailOf_le (before : List Token) (t : Token) (after : List Token) :
    tailOf before t after ≤ t.value.toList.length := by
  unfold tailOf
  split
  · split
    · exact Nat.sub_le _ _
    · exact Nat.le_refl _
  · exact Nat.le_refl _

/-- The two cuts of a text never cross. -/
theorem headOf_le_tailOf (before : List Token) (t : Token) (after : List Token) :
    headOf before t after ≤ tailOf before t after := by
  unfold headOf
  split
  · split
    · rename_i tag further halone
      simp only [isAlone, blankAfter_cons, Bool.and_eq_true, Bool.or_eq_true] at halone
      obtain ⟨-, ⟨-, hbreak⟩, -⟩ := halone
      rcases hbreak with hfeed | hlast
      · have hlines := Text.length_lines_le (List.contains_iff_mem.1 hfeed)
        have hhead := headCut_le t.value.toList
        rw [headCut_eq, if_pos (List.contains_iff_mem.1 hfeed)] at hhead ⊢
        unfold tailOf tailCut
        split
        · split
          · omega
          · exact hhead
        · exact hhead
      · cases List.isEmpty_iff.1 hlast
        exact headCut_le _
    · exact Nat.zero_le _
  · exact Nat.zero_le _

/-- Of a text the tags before it take what is in its head cut. -/
theorem Laid.any_takes_front {front back : List Piece} {x : Piece}
    (h : Laid (front ++ x :: back)) {i : Nat} (hstart : (sourceOf front).length ≤ i)
    (hend : i < (sourceOf (front ++ x :: back)).length) :
    (spansFrom 0 front).any (·.takes (sourceOf (front ++ x :: back)) i) =
      decide (i < (sourceOf front).length +
        headOf (front.map (·.1)).reverse x.1 (back.map (·.1))) := by
  rcases List.eq_nil_or_concat front with rfl | ⟨further, y, rfl⟩
  · exact (decide_eq_false (Nat.not_lt.2 hstart)).symm
  rw [List.concat_eq_append] at *
  have hfar : (spansFrom 0 further).any
      (·.takes (sourceOf ((further ++ [y]) ++ x :: back)) i) = false := by
    refine List.any_eq_false.2 fun s hs => ?_
    obtain ⟨first, z, last, rfl, rfl⟩ := mem_spansFrom hs
    obtain ⟨w, rest, hrest⟩ : ∃ w rest, last ++ [y] = w :: rest :=
      List.exists_cons_of_ne_nil (by simp)
    have hwhole : ((first ++ z :: last) ++ [y]) ++ x :: back =
        first ++ z :: w :: (rest ++ x :: back) := by
      rw [List.append_assoc first, List.cons_append, hrest]
      simp
    have hlength : (sourceOf ((first ++ z :: last) ++ [y])).length =
        (sourceOf first).length + z.2.length + w.2.length + (sourceOf rest).length := by
      rw [List.append_assoc first, List.cons_append, hrest]
      simp only [sourceOf_append, sourceOf_cons, List.length_append]
      omega
    rw [hwhole] at h hend ⊢
    rw [Nat.zero_add, h.not_takes_behind (by omega) hend]
    exact Bool.false_ne_true
  have hwhole : (further ++ [y]) ++ x :: back = further ++ y :: x :: back := by simp
  have hlength : (sourceOf (further ++ [y])).length = (sourceOf further).length + y.2.length := by
    simp
  rw [hwhole] at h hend hfar ⊢
  rw [spansFrom_append, List.any_append, hfar, Bool.false_or, Nat.zero_add, spansFrom, spansFrom,
    List.any_cons, List.any_nil, Bool.or_false, h.takes_behind (by omega) hend, List.map_append,
    List.map_singleton, List.reverse_append, List.reverse_singleton, List.singleton_append, headOf,
    hlength]
  cases isAlone (further.map (·.1)).reverse y.1 (x.1 :: back.map (·.1)) with
  | true => rfl
  | false => exact (decide_eq_false (by simpa [hlength] using hstart)).symm

/-- Of a text the tags behind it take what is behind its tail cut. -/
theorem Laid.any_takes_back {front back : List Piece} {x : Piece}
    (h : Laid (front ++ x :: back)) (htext : x.1.kind = .text) {i : Nat}
    (hstop : i < (sourceOf front).length + x.2.length) :
    (spansFrom ((sourceOf front).length + x.2.length) back).any
        (·.takes (sourceOf (front ++ x :: back)) i) =
      decide ((sourceOf front).length +
        tailOf (front.map (·.1)).reverse x.1 (back.map (·.1)) ≤ i) := by
  have hvalue : x.1.value.toList = x.2 := h.value_eq (by simp) htext
  cases back with
  | nil => exact (decide_eq_false (by rw [List.map_nil, tailOf, hvalue]; omega)).symm
  | cons y further =>
    have hwhole : front ++ x :: y :: further = (front ++ [x]) ++ y :: further := by simp
    have hlength : (sourceOf (front ++ [x])).length = (sourceOf front).length + x.2.length := by
      simp
    have hfar : (spansFrom ((sourceOf front).length + x.2.length + y.2.length) further).any
        (·.takes (sourceOf (front ++ x :: y :: further)) i) = false := by
      refine List.any_eq_false.2 fun s hs => ?_
      obtain ⟨first, z, last, rfl, rfl⟩ := mem_spansFrom hs
      obtain ⟨rest, w, hrest⟩ : ∃ rest w, y :: first = rest ++ [w] := by
        refine ⟨(y :: first).dropLast, (y :: first).getLast (List.cons_ne_nil _ _), ?_⟩
        exact (List.dropLast_concat_getLast _).symm
      have hsplit : front ++ x :: y :: (first ++ z :: last) =
          ((front ++ x :: rest) ++ [w]) ++ z :: last := by
        rw [List.append_assoc front, List.cons_append, ← hrest]
        simp
      have hplace : (sourceOf ((front ++ x :: rest) ++ [w])).length =
          (sourceOf front).length + x.2.length + y.2.length + (sourceOf first).length := by
        rw [List.append_assoc front, List.cons_append, ← hrest]
        simp only [sourceOf_append, sourceOf_cons, List.length_append]
        omega
      rw [hsplit] at h ⊢
      rw [← hplace, h.not_takes_before]
      · exact Bool.false_ne_true
      · rw [sourceOf_append, sourceOf_cons, List.length_append, List.length_append]
        omega
    rw [spansFrom, List.any_cons, hfar, Bool.or_false, List.map_cons, tailOf]
    rw [hwhole] at h ⊢
    rw [← hlength, h.takes_before (by omega)]
    cases isAlone (x.1 :: (front.map (·.1)).reverse) y.1 (further.map (·.1)) with
    | true => rfl
    | false => exact (decide_eq_false (by simp only [hvalue]; simpa using hstop)).symm

/-- What no tag takes of a text is what its two cuts leave. -/
theorem Laid.left_text {front back : List Piece} {x : Piece} (h : Laid (front ++ x :: back))
    (htext : x.1.kind = .text) :
    left (sourceOf (front ++ x :: back)) (spansFrom 0 (front ++ x :: back))
        (sourceOf front).length ((sourceOf front).length + x.2.length) =
      (x.1.value.toList.take (tailOf (front.map (·.1)).reverse x.1 (back.map (·.1)))).drop
        (headOf (front.map (·.1)).reverse x.1 (back.map (·.1))) := by
  have hcross := headOf_le_tailOf (front.map (·.1)).reverse x.1 (back.map (·.1))
  have htail := tailOf_le (front.map (·.1)).reverse x.1 (back.map (·.1))
  have hvalue : x.1.value.toList = x.2 := h.value_eq (by simp) htext
  have hany {i : Nat} (hstart : (sourceOf front).length ≤ i)
      (hstop : i < (sourceOf front).length + x.2.length) :
      (spansFrom 0 (front ++ x :: back)).any (·.takes (sourceOf (front ++ x :: back)) i) =
        (decide (i < (sourceOf front).length +
            headOf (front.map (·.1)).reverse x.1 (back.map (·.1))) ||
          decide ((sourceOf front).length +
            tailOf (front.map (·.1)).reverse x.1 (back.map (·.1)) ≤ i)) := by
    have hend : i < (sourceOf (front ++ x :: back)).length := by
      simp only [sourceOf_append, sourceOf_cons, List.length_append]
      omega
    have hself : Span.takes (sourceOf (front ++ x :: back)) ⟨x.1, (sourceOf front).length,
        (sourceOf front).length + x.2.length⟩ i = false := by
      rw [Span.takes, isTag, htext]
      rfl
    rw [spansFrom_append, List.any_append, h.any_takes_front hstart hend, Nat.zero_add, spansFrom,
      List.any_cons, hself, Bool.false_or, h.any_takes_back htext hstop]
  generalize headOf (front.map (·.1)).reverse x.1 (back.map (·.1)) = head at hcross hany ⊢
  generalize tailOf (front.map (·.1)).reverse x.1 (back.map (·.1)) = tail at hcross htail hany ⊢
  rw [hvalue] at htail ⊢
  -- Three stretches: what the tag before takes, what is left, and what the tag behind takes.
  rw [left_append _ _ (Nat.le_add_right _ head) (by omega),
    left_append _ _ (Nat.add_le_add_left hcross (sourceOf front).length) (by omega),
    left_eq_nil fun i hp hq => by rw [hany hp (by omega), decide_eq_true hq, Bool.true_or],
    left_eq_take fun i hp hq => by
      rw [hany (by omega) (by omega), decide_eq_false (by omega), decide_eq_false (by omega),
        Bool.false_or],
    left_eq_nil fun i hp hq => by
      rw [hany (by omega) (by omega), decide_eq_true hp, Bool.or_true],
    List.nil_append, List.append_nil, List.drop_take, sourceOf_append, sourceOf_cons,
    ← List.drop_drop, List.drop_left, List.drop_append_of_le_length (by omega),
    List.take_append_of_le_length (by rw [List.length_drop]; omega)]
  congr 1
  omega

/-- White-space control leaves what no tag takes, stripped beside marked tags, by induction on the
pieces. -/
theorem Laid.trimFrom_eq {front back : List Piece} (h : Laid (front ++ back)) :
    trimFrom (front.map (·.1)).reverse (back.map (·.1)) =
      swept (sourceOf (front ++ back)) (spansFrom 0 (front ++ back)) (front.map (·.1)).reverse.head?
        (spansFrom (sourceOf front).length back) := by
  induction back generalizing front with
  | nil => rfl
  | cons x back ih =>
    have hothers := ih (by simpa using h : Laid ((front ++ [x]) ++ back))
    have hplace : (sourceOf (front ++ [x])).length = (sourceOf front).length + x.2.length := by simp
    rw [List.append_assoc, List.singleton_append, hplace, List.map_append, List.map_singleton,
      List.reverse_append, List.reverse_singleton, List.singleton_append, List.head?_cons] at hothers
    rw [List.map_cons, trimFrom, hothers, spansFrom, swept]
    dsimp only
    by_cases htext : x.1.kind = .text
    · have hnext : (spansFrom ((sourceOf front).length + x.2.length) back).head?.map (·.token) =
          (back.map (·.1)).head? := by
        cases back <;> rfl
      rw [trimmed_eq_stripped, hnext, h.left_text htext]
    · rw [if_neg (by simpa using htext), if_neg (by simpa using htext)]

/-- The characters of the texts among some tokens. -/
def textOf (tokens : List Token) : List Char :=
  (tokens.filter (·.kind == .text)).flatMap (·.value.toList)

/-- Where no tag is marked the texts that are left make up what no tag takes, by induction on the
pieces. -/
theorem Laid.textOf_swept {front back : List Piece} (h : Laid (front ++ back)) {last : Option Token}
    (hlast : last.any (·.trimsAfter) = false)
    (hmarks : ∀ x ∈ back, x.1.trimsBefore = false ∧ x.1.trimsAfter = false) :
    textOf (swept (sourceOf (front ++ back)) (spansFrom 0 (front ++ back)) last
        (spansFrom (sourceOf front).length back)) =
      left (sourceOf (front ++ back)) (spansFrom 0 (front ++ back)) (sourceOf front).length
        (sourceOf (front ++ back)).length := by
  induction back generalizing front last with
  | nil => simp [spansFrom, swept, textOf, left]
  | cons x back ih =>
    obtain ⟨hx, hback⟩ := List.forall_mem_cons.1 hmarks
    have hothers := ih (by simpa using h : Laid ((front ++ [x]) ++ back))
      (show (some x.1).any (·.trimsAfter) = false from hx.2) hback
    have hplace : (sourceOf (front ++ [x])).length = (sourceOf front).length + x.2.length := by simp
    rw [List.append_assoc, List.singleton_append, hplace] at hothers
    have hend : (sourceOf front).length + x.2.length ≤ (sourceOf (front ++ x :: back)).length := by
      simp only [sourceOf_append, sourceOf_cons, List.length_append]
      omega
    rw [left_append _ _ (Nat.le_add_right _ x.2.length) hend, ← hothers, spansFrom, swept]
    dsimp only
    by_cases htext : x.1.kind = .text
    · have hnext : ((spansFrom ((sourceOf front).length + x.2.length) back).head?.map
          (·.token)).any (·.trimsBefore) = false := by
        cases back with
        | nil => rfl
        | cons y back => exact (hback y List.mem_cons_self).1
      rw [if_pos (by simpa using htext), stripped, hlast, hnext]
      simp only [Bool.false_eq_true, if_false]
      split
      · rename_i hempty
        rw [List.isEmpty_iff.1 hempty, List.nil_append]
      · simp [textOf, htext]
    · have htag : x.1.isTag = true := by
        cases h.lies x (by simp) with
        | text hkind => exact absurd hkind htext
        | tag htag => exact htag
      have hgone : left (sourceOf (front ++ x :: back)) (spansFrom 0 (front ++ x :: back))
          (sourceOf front).length ((sourceOf front).length + x.2.length) = [] :=
        left_eq_nil fun i hstart hstop => by
          rw [spansFrom_append, List.any_append, Nat.zero_add, spansFrom, List.any_cons,
            takes_inside htag hstart hstop, Bool.true_or, Bool.or_true]
      rw [if_neg (by simpa using htext), hgone, List.nil_append]
      simp [textOf, htext]

/-- Exactly the lines with one lone tag go. However a source is cut into tags, a tag is judged to
stand alone when it is of such a kind and has nothing but blanks around it on its lines. Of every
text what no tag takes is left, stripped where it stands beside a marked tag; where no tag is marked
the texts together are the source without what its tags take. The cuts at the two ends of a text
never cross. -/
theorem lone_lines_removed {file : String} {marks : Delimiters} {text : String}
    {tokens : List Token} (hscan : scan file marks text = .ok tokens) (hsolid : marks.Solid) :
    (∀ before t after, tokens = before ++ t :: after →
      isAlone before.reverse t after =
        (t.span text.toList.length after).alone text.toList) ∧
    (∃ kept, ofSource file marks text = .ok (kept ++ [ending text]) ∧
      kept = swept text.toList (spans text.toList.length tokens) none
        (spans text.toList.length tokens) ∧
      ((∀ t ∈ tokens, t.trimsBefore = false ∧ t.trimsAfter = false) →
        textOf kept =
          left text.toList (spans text.toList.length tokens) 0 text.toList.length)) ∧
    ∀ before t after, tokens = before ++ t :: after →
      headOf before.reverse t after ≤ tailOf before.reverse t after := by
  have hkept : ofSource file marks text = .ok (trimFrom [] tokens ++ [ending text]) := by
    rw [ofSource, hscan]
    rfl
  obtain ⟨pieces, rfl, hsource, hplaced⟩ := pieces_of_scan hscan hsolid
  have hwhole : Placed 0 ([] ++ pieces) := hplaced
  have hspans : spans text.toList.length (pieces.map (·.1)) = spansFrom 0 pieces := by
    rw [← hsource]
    exact hwhole.spans_eq
  have htrimmed : trimFrom [] (pieces.map (·.1)) =
      swept text.toList (spansFrom 0 pieces) none (spansFrom 0 pieces) := by
    rw [← hsource]
    exact hwhole.laid.trimFrom_eq
  rw [hspans]
  refine ⟨?_, ⟨_, hkept, htrimmed, ?_⟩, fun _ _ _ _ => headOf_le_tailOf _ _ _⟩
  · intro before t after hsplit
    obtain ⟨front, rest, rfl, rfl, hrest⟩ := List.map_eq_append_iff.1 hsplit
    obtain ⟨x, back, rfl, rfl, rfl⟩ := List.map_eq_cons_iff.1 hrest
    rw [← hsource, hplaced.span_eq]
    exact hplaced.laid.isAlone_eq
  · intro hmarks
    rw [htrimmed, ← hsource]
    exact hwhole.laid.textOf_swept rfl fun x hx => hmarks x.1 (List.mem_map_of_mem hx)

/-- A section the opening tag of which is alone on its line, and the closing tag of which is not. -/
def ruled : String := "a\n \x7b\x7b#if b\x7d\x7d \nc\x7b\x7b/if\x7d\x7d\n"

/-- The tokens of the section. -/
def ruledTokens : List Token :=
  [⟨.text, "a\n ", ⟨0, 1, 1⟩, .standard, false, false⟩,
    ⟨.opening, "if b", ⟨3, 2, 2⟩, .standard, false, false⟩,
    ⟨.text, " \nc", ⟨12, 2, 11⟩, .standard, false, false⟩,
    ⟨.closing, "if", ⟨15, 3, 2⟩, .standard, false, false⟩,
    ⟨.text, "\n", ⟨22, 3, 9⟩, .standard, false, false⟩]

theorem lone_lines_removed_ruled :
    scan "" .standard ruled = .ok ruledTokens ∧ Delimiters.standard.Solid ∧
      (∀ t ∈ ruledTokens, t.trimsBefore = false ∧ t.trimsAfter = false) ∧
      ∃ kept, ofSource "" .standard ruled = .ok (kept ++ [ending ruled]) ∧
        textOf kept = "a\nc\n".toList := by
  have hscan : scan "" .standard ruled = .ok ruledTokens := by decide +kernel
  have hsolid : Delimiters.standard.Solid :=
    ⟨⟨by decide, by simp [Delimiters.standard, Text.isBlank]⟩,
      ⟨by decide, by simp [Delimiters.standard, Text.isBlank]⟩⟩
  have hmarks : ∀ t ∈ ruledTokens, t.trimsBefore = false ∧ t.trimsAfter = false := by
    simp [ruledTokens]
  obtain ⟨kept, hkept, -, htext⟩ := (lone_lines_removed hscan hsolid).2.1
  refine ⟨hscan, hsolid, hmarks, kept, hkept, (htext hmarks).trans ?_⟩
  decide +kernel

end Token

end Stencil
