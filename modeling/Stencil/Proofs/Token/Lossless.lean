import Stencil.Proofs.Token.Partition
import Stencil.Token.Trim

/-!
# Tokens lose nothing but white space

A scan ends with tokens that partition the source, or with a scan error. White-space control then
keeps every tag and takes nothing but white space from either end of a text.
-/

namespace Stencil

namespace Text

/-- A part of a text that has nothing but white space around it there. -/
def BlankAround (whole part : List Char) : Prop :=
  ∃ front back, whole = front ++ part ++ back ∧ (∀ c ∈ front, isBlank c = true) ∧
    ∀ c ∈ back, isBlank c = true

namespace BlankAround

variable {whole part inner : List Char}

theorem refl (whole : List Char) : BlankAround whole whole := ⟨[], [], by simp, by simp, by simp⟩

theorem trans (h : BlankAround whole part) (hinner : BlankAround part inner) :
    BlankAround whole inner := by
  obtain ⟨front, back, rfl, hfront, hback⟩ := h
  obtain ⟨front', back', rfl, hfront', hback'⟩ := hinner
  refine ⟨front ++ front', back' ++ back, by simp, ?_, ?_⟩
  · exact List.forall_mem_append.2 ⟨hfront, hfront'⟩
  · exact List.forall_mem_append.2 ⟨hback', hback⟩

/-- Blanks dropped from the front. -/
theorem drop {n : Nat} (h : ∀ c ∈ whole.take n, isBlank c = true) :
    BlankAround whole (whole.drop n) := ⟨whole.take n, [], by simp, h, by simp⟩

/-- Blanks dropped from the back. -/
theorem take {n : Nat} (h : ∀ c ∈ whole.drop n, isBlank c = true) :
    BlankAround whole (whole.take n) := ⟨[], whole.drop n, by simp, by simp, h⟩

theorem trimFront (whole : List Char) : BlankAround whole (Text.trimFront isBlank whole) :=
  ⟨whole.takeWhile isBlank, [], by simp [Text.trimFront],
    List.all_eq_true.1 List.all_takeWhile, by simp⟩

theorem trimBack (whole : List Char) : BlankAround whole (Text.trimBack isBlank whole) := by
  refine ⟨[], (whole.reverse.takeWhile isBlank).reverse, ?_, by simp, ?_⟩
  · rw [List.nil_append, Text.trimBack, ← List.reverse_append, List.takeWhile_append_dropWhile,
      List.reverse_reverse]
  · intro c hc
    exact List.all_eq_true.1 List.all_takeWhile c (List.mem_reverse.1 hc)

/-- A text of which nothing is left was all white space. -/
theorem all_of_nil (h : BlankAround whole []) : ∀ c ∈ whole, isBlank c = true := by
  obtain ⟨front, back, rfl, hfront, hback⟩ := h
  rw [List.append_nil]
  exact List.forall_mem_append.2 ⟨hfront, hback⟩

end BlankAround

/-- A text ends with its last line. -/
theorem append_lastLine (cs : List Char) : ∃ front, cs = front ++ lastLine cs := by
  refine ⟨(cs.reverse.dropWhile (· != '\n')).reverse, ?_⟩
  rw [lastLine, ← List.reverse_append, List.takeWhile_append_dropWhile, List.reverse_reverse]

end Text

namespace Token

/-! ## What is taken from a text -/

theorem isBlank_of_isLineRest {c : Char} (h : isLineRest c = true) : Text.isBlank c = true := by
  simp only [isLineRest, isIndent, Bool.or_eq_true, beq_iff_eq] at h
  rcases h with (rfl | rfl) | rfl <;> decide

theorem isLineRest_of_not_isBlank {c : Char} (h : Text.isBlank c = false) :
    isLineRest c = false := by
  cases hrest : isLineRest c with
  | false => rfl
  | true =>
    simp only [isLineRest, isIndent, Bool.or_eq_true, beq_iff_eq] at hrest
    rcases hrest with (rfl | rfl) | rfl <;> exact absurd h (by decide)

theorem isIndent_of_not_isBlank {c : Char} (h : Text.isBlank c = false) : isIndent c = false := by
  have hrest := isLineRest_of_not_isBlank h
  rw [isLineRest, Bool.or_eq_false_iff] at hrest
  exact hrest.1

theorem ne_lineFeed_of_not_isBlank {c : Char} (h : Text.isBlank c = false) : c ≠ '\n' := by
  rintro rfl
  exact absurd h (by decide)

/-- A tag that is alone on its line takes white space from the text before it. -/
theorem blank_drop_tailCut {t : Token} {further : List Token}
    (h : blankBefore (t :: further) = true) :
    ∀ c ∈ t.value.toList.drop (tailCut t.value.toList), Text.isBlank c = true := by
  simp only [blankBefore, Bool.and_eq_true, List.all_eq_true] at h
  obtain ⟨front, hfront⟩ := Text.append_lastLine t.value.toList
  have hcut : tailCut t.value.toList = front.length := by
    have hlength := congrArg List.length hfront
    rw [List.length_append] at hlength
    rw [tailCut]
    omega
  intro c hc
  rw [hcut] at hc
  have hline : c ∈ Text.lastLine t.value.toList := by
    rw [hfront, List.drop_left] at hc
    exact hc
  exact isBlank_of_isLineRest (by simp [isLineRest, h.2 c hline])

/-- A tag that is alone on its line takes white space from the text after it. -/
theorem blank_take_headCut {t : Token} {further : List Token}
    (h : blankAfter (t :: further) = true) :
    ∀ c ∈ t.value.toList.take (headCut t.value.toList), Text.isBlank c = true := by
  rw [blankAfter, Bool.and_eq_true] at h
  unfold headCut
  cases hsplit : Text.splitAt? '\n' t.value.toList with
  | some found =>
    obtain ⟨line, after⟩ := found
    rw [hsplit] at h
    have hline : ∀ c ∈ line, isLineRest c = true := List.all_eq_true.1 h.2
    have htaken : t.value.toList.take (line.length + 1) = line ++ ['\n'] := by
      rw [Text.append_of_splitAt? hsplit, List.append_cons, List.take_left' (by simp)]
    intro c hc
    dsimp only at hc
    rw [htaken, List.mem_append, List.mem_singleton] at hc
    rcases hc with hc | rfl
    · exact isBlank_of_isLineRest (hline c hc)
    · decide
  | none =>
    rw [hsplit] at h
    simp only [Bool.and_eq_true, List.all_eq_true] at h
    intro c hc
    exact isBlank_of_isLineRest (h.2.2 c (List.mem_of_mem_take hc))

/-- A cut takes white space, if the characters up to its head and those behind its tail are white
space. -/
theorem blankAround_cut {cs : List Char} {head tail : Nat}
    (hhead : ∀ c ∈ cs.take head, Text.isBlank c = true)
    (htail : ∀ c ∈ cs.drop tail, Text.isBlank c = true) :
    Text.BlankAround cs ((cs.take tail).drop head) := by
  refine (Text.BlankAround.take htail).trans (.drop fun c hc => hhead c ?_)
  rw [List.take_take] at hc
  exact List.take_subset_take_left _ (Nat.min_le_left head tail) hc

theorem blankAround_trimFront (trims : Bool) (cs : List Char) :
    Text.BlankAround cs (if trims then Text.trimFront Text.isBlank cs else cs) := by
  split
  · exact .trimFront cs
  · exact .refl cs

theorem blankAround_trimBack (trims : Bool) (cs : List Char) :
    Text.BlankAround cs (if trims then Text.trimBack Text.isBlank cs else cs) := by
  split
  · exact .trimBack cs
  · exact .refl cs

/-- What is left of a text has nothing but white space around it. -/
theorem blankAround_trimmed (before : List Token) (t : Token) (after : List Token) :
    Text.BlankAround t.value.toList (trimmed before t after) := by
  -- What the line of the tag before it takes, and the line of the tag after it.
  have hhead (tag : Token) (further : List Token) : ∀ c ∈ t.value.toList.take
      (if isAlone further tag (t :: after) then headCut t.value.toList else 0),
      Text.isBlank c = true := by
    split
    · rename_i halone
      rw [isAlone, Bool.and_eq_true] at halone
      exact blank_take_headCut halone.2
    · simp
  have htail (tag : Token) (further : List Token) : ∀ c ∈ t.value.toList.drop
      (if isAlone (t :: before) tag further then tailCut t.value.toList
        else t.value.toList.length), Text.isBlank c = true := by
    split
    · rename_i halone
      rw [isAlone, Bool.and_eq_true, Bool.and_eq_true] at halone
      exact blank_drop_tailCut halone.1.2
    · simp
  cases before with
  | nil =>
    cases after with
    | nil => exact blankAround_cut (by simp) (by simp)
    | cons next further =>
      exact (blankAround_cut (by simp) (htail next further)).trans
        (blankAround_trimBack next.trimsBefore _)
  | cons last earlier =>
    cases after with
    | nil =>
      exact (blankAround_cut (hhead last earlier) (by simp)).trans
        (blankAround_trimFront last.trimsAfter _)
    | cons next further =>
      exact ((blankAround_cut (hhead last earlier) (htail next further)).trans
        (blankAround_trimFront last.trimsAfter _)).trans (blankAround_trimBack next.trimsBefore _)

/-! ## What is left of the tokens -/

/-- The tokens that white-space control leaves: every tag, and every text with white space around it
gone, if anything else is in it. -/
inductive Trimmed : List Token → List Token → Prop where
  | nil : Trimmed [] []
  | tag {t : Token} {ts us : List Token} : t.kind ≠ .text → Trimmed ts us →
      Trimmed (t :: ts) (t :: us)
  | text {t : Token} {left : List Char} {ts us : List Token} : t.kind = .text → left ≠ [] →
      Text.BlankAround t.value.toList left → Trimmed ts us →
      Trimmed (t :: ts) ({ t with value := String.ofList left } :: us)
  | blank {t : Token} {ts us : List Token} : t.kind = .text →
      (∀ c ∈ t.value.toList, Text.isBlank c = true) → Trimmed ts us → Trimmed (t :: ts) us

/-- White-space control takes nothing else, by induction on the tokens that are left. -/
theorem trimmed_trimFrom (before tokens : List Token) : Trimmed tokens (trimFrom before tokens) := by
  induction tokens generalizing before with
  | nil => exact .nil
  | cons t after ih =>
    have hblank := blankAround_trimmed before t after
    rw [trimFrom]
    dsimp only
    split
    · rename_i htext
      rw [beq_iff_eq] at htext
      split
      · rename_i hempty
        rw [List.isEmpty_iff.1 hempty] at hblank
        exact .blank htext hblank.all_of_nil (ih _)
      · rename_i hleft
        exact .text htext (by simpa using hleft) hblank (ih _)
    · rename_i htag
      exact .tag (by simpa using htag) (ih _)

/-! ## The tokens of a source -/

/-- Tokens that partition a source. -/
structure Partition (marks : Delimiters) (text : String) (tokens : List Token) : Prop where
  /-- Every token takes at least one character. -/
  increasing : (tokens.map (·.position.offset)).Pairwise (· < ·)
  /-- Nothing stands before the first token. -/
  first : text ≠ "" → ∃ t rest, tokens = t :: rest ∧ t.position.offset = 0
  /-- The slices that the tokens take are the source. -/
  slices : ∃ slices, slices.flatten = text.toList ∧ Cut marks .start slices tokens

/-- Whatever the delimiters are, a source is scanned to its end into tokens that partition it, or
fails as scans do; white-space control takes only white space from the texts and keeps the tags. -/
theorem ofSource_lossless (file : String) (marks : Delimiters) (text : String) :
    Meets Failure.IsOfScan
      (fun tokens => ∃ scanned kept, scan file marks text = .ok scanned ∧
        Partition marks text scanned ∧ Trimmed scanned kept ∧ tokens = kept ++ [ending text])
      (ofSource file marks text) := by
  have hscan := scanFrom_cut file marks .start text.toList
  unfold ofSource
  cases hscanned : scan file marks text with
  | error failure => exact Meets.throw (hscan.of_error hscanned)
  | ok scanned =>
    obtain ⟨slices, hflat, hcut⟩ := hscan.of_ok hscanned
    have hfirst : text ≠ "" → ∃ t rest, scanned = t :: rest ∧ t.position.offset = 0 := by
      intro hne
      have hchars : slices.flatten ≠ [] := by simpa [hflat] using hne
      obtain ⟨t, rest, hscanned, hposition⟩ := hcut.head hchars
      exact ⟨t, rest, hscanned, by rw [hposition]; rfl⟩
    exact Meets.pure ⟨scanned, _, rfl, ⟨hcut.increasing, hfirst, slices, hflat, hcut⟩,
      trimmed_trimFrom [] scanned, rfl⟩

end Token

end Stencil
