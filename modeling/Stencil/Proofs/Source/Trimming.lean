import Stencil.Proofs.Source.Tokens
import Stencil.Proofs.Token.Lossless

/-!
# White-space control leaves normal texts alone

A tag takes its line with it only where blanks stand beside it. A text that begins and ends with
other characters loses nothing.
-/

namespace Stencil

namespace Token

/-- A token of which white-space control takes nothing and that asks for nothing to be taken. -/
structure Untouched (t : Token) : Prop where
  before : t.trimsBefore = false
  after : t.trimsAfter = false
  text : t.kind = .text → Node.NormalText t.value

theorem Legible.untouched {t : Token} (h : Legible t.unplaced) : Untouched t := by
  have hsame : Untouched t.unplaced := by
    generalize t.unplaced = s at h
    cases h with
    | text hcontent => exact ⟨rfl, rfl, fun _ => hcontent⟩
    | comment | otherwise => exact ⟨rfl, rfl, nofun⟩
    | expression hkind =>
      refine ⟨rfl, rfl, fun htext => ?_⟩
      change _ = TokenKind.text at htext
      subst htext
      cases hkind
  exact ⟨hsame.before, hsame.after, hsame.text⟩

/-- A tag behind a normal text is not alone on its line. -/
theorem blankBefore_text {t : Token} (h : Node.NormalText t.value) (further : List Token) :
    blankBefore (t :: further) = false := by
  obtain ⟨c, hlast⟩ := Option.ne_none_iff_exists'.1 (mt List.getLast?_eq_none_iff.1 h.nonempty)
  have hc := h.last c hlast
  obtain ⟨front, hfront⟩ := List.getLast?_eq_some_iff.1 hlast
  have hline : (Text.lastLine t.value.toList).all isIndent = false := by
    rw [Text.lastLine, hfront, List.reverse_append, List.reverse_singleton, List.singleton_append,
      List.takeWhile_cons_of_pos (by simpa using ne_lineFeed_of_not_isBlank hc), List.reverse_cons,
      List.all_append, List.all_cons, isIndent_of_not_isBlank hc, Bool.false_and, Bool.and_false]
  rw [blankBefore, hline, Bool.and_false]

/-- A tag before a normal text is not alone on its line. -/
theorem blankAfter_text {t : Token} (h : Node.NormalText t.value) (further : List Token) :
    blankAfter (t :: further) = false := by
  have hne := h.nonempty
  have hfirst := h.first
  rw [blankAfter]
  cases hvalue : t.value.toList with
  | nil => exact absurd hvalue hne
  | cons c cs =>
    rw [hvalue] at hfirst
    have hc := hfirst c rfl
    have hrest := isLineRest_of_not_isBlank hc
    have hfeed : (c == '\n') = false := by simpa using ne_lineFeed_of_not_isBlank hc
    rw [Text.splitAt?, hfeed]
    cases Text.splitAt? '\n' cs with
    | none => simp [hrest]
    | some found => simp [hrest]

/-- White-space control takes nothing of a normal text. -/
theorem trimmed_eq {before after : List Token} {t : Token} (h : Node.NormalText t.value)
    (hbefore : ∀ s ∈ before, Untouched s) (hafter : ∀ s ∈ after, Untouched s) :
    trimmed before t after = t.value.toList := by
  have hhead (tag : Token) (further : List Token) : isAlone further tag (t :: after) = false := by
    rw [isAlone, blankAfter_text h, Bool.and_false]
  have htail (tag : Token) (further : List Token) : isAlone (t :: before) tag further = false := by
    rw [isAlone, blankBefore_text h, Bool.and_false, Bool.false_and]
  unfold trimmed
  cases before with
  | nil =>
    cases after with
    | nil => simp
    | cons tag further => simp [htail, (hafter tag List.mem_cons_self).before]
  | cons front _ =>
    have hfront := (hbefore front List.mem_cons_self).after
    cases after with
    | nil => simp [hhead, hfront]
    | cons tag further => simp [hhead, htail, hfront, (hafter tag List.mem_cons_self).before]

theorem trimFrom_eq {before tokens : List Token} (hbefore : ∀ t ∈ before, Untouched t)
    (h : ∀ t ∈ tokens, Untouched t) : trimFrom before tokens = tokens := by
  induction tokens generalizing before with
  | nil => rfl
  | cons t after ih =>
    have ht := h t List.mem_cons_self
    have hafter : ∀ s ∈ after, Untouched s := fun s hs => h s (List.mem_cons_of_mem _ hs)
    have hothers := ih (List.forall_mem_cons.2 ⟨ht, hbefore⟩) hafter
    rw [trimFrom, hothers]
    dsimp only
    split
    · rename_i htext
      have hnormal := ht.text (beq_iff_eq.1 htext)
      rw [trimmed_eq hnormal hbefore hafter, if_neg (by simpa using hnormal.nonempty),
        String.ofList_toList]
    · rfl

/-- Legible tokens are the tokens of what is written for them, apart from their places and the
end. -/
theorem ofSource_written (file : String) {tokens : List Token} (h : ∀ t ∈ tokens, Legible t)
    (hapart : Apart tokens) {source : String} (hsource : source.toList = writtenAll tokens) :
    ∃ found, ofSource file .standard source = .ok (found ++ [ending source]) ∧
      found.map unplaced = tokens := by
  obtain ⟨found, hfound, hmap⟩ :=
    scanFrom_writtenAll file h hapart .start List.not_mem_nil (.inl rfl)
  have huntouched : ∀ t ∈ found, Untouched t := by
    intro t ht
    refine Legible.untouched (h _ ?_)
    change found.map unplaced = tokens at hmap
    rw [← hmap]
    exact List.mem_map.2 ⟨t, ht, rfl⟩
  refine ⟨found, ?_, hmap⟩
  rw [List.nil_append, ← hsource] at hfound
  rw [ofSource, scan, hfound]
  change Except.ok (trimFrom [] found ++ _) = _
  rw [trimFrom_eq (List.forall_mem_nil _) huntouched]

end Token

end Stencil
