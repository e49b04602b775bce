import Stencil.Proofs.Outcome
import Stencil.Token.Scan

/-!
# A scan cuts the source into slices

Every token takes the next slice of the source and no slice is empty. A text is its slice, and no
tag could have begun inside it; a tag takes its delimiters and what stands between them. The
delimiters in force at a token are those the scan began with, or those that the last tag before it
to set delimiters has set. This is a relation between a source and its tokens that does not mention
how the scan goes about it.
-/

namespace Stencil

namespace Text

/-! ## Where a cut falls -/

/-- No needle begins before the place where a text is cut. -/
theorem not_prefix_of_cut? {needles : List (List Char)} {text before needle after : List Char}
    (h : cut? needles text = some (before, needle, after)) {front back : List Char}
    (hsplit : before = front ++ back) (hback : back ≠ []) {n : List Char} (hn : n ∈ needles) :
    ¬ n <+: back ++ needle ++ after := by
  have missed {t : List Char} (hnone : needles.find? (·.isPrefixOf t) = none) : ¬ n <+: t := by
    simpa using List.find?_eq_none.1 hnone n hn
  induction text generalizing before front with
  | nil =>
    unfold cut? at h
    split at h
    · cases h
      exact absurd (List.append_eq_nil_iff.1 hsplit.symm).2 hback
    · cases h
  | cons c rest ih =>
    have hwhole := (append_of_cut? h).1
    unfold cut? at h
    split at h
    · cases h
      exact absurd (List.append_eq_nil_iff.1 hsplit.symm).2 hback
    · rename_i hnone
      obtain ⟨⟨b, m, a⟩, hcut, heq⟩ := Option.map_eq_some_iff.1 h
      cases heq
      cases front with
      | nil =>
        -- The needle would begin where the search has just missed it.
        rw [List.nil_append] at hsplit
        rw [← hsplit, ← hwhole]
        exact missed hnone
      | cons d front => exact ih hcut (List.cons.inj hsplit).2

/-- No needle begins anywhere in a text that is not cut. -/
theorem not_prefix_of_cut?_eq_none {needles : List (List Char)} {text : List Char}
    (h : cut? needles text = none) {front back : List Char} (hsplit : text = front ++ back)
    {n : List Char} (hn : n ∈ needles) : ¬ n <+: back := by
  have missed {t : List Char} (hnone : needles.find? (·.isPrefixOf t) = none) : ¬ n <+: t := by
    simpa using List.find?_eq_none.1 hnone n hn
  induction text generalizing front with
  | nil =>
    unfold cut? at h
    split at h
    · cases h
    · rename_i hnone
      obtain ⟨-, rfl⟩ := List.append_eq_nil_iff.1 hsplit.symm
      exact missed hnone
  | cons c rest ih =>
    unfold cut? at h
    split at h
    · cases h
    · rename_i hnone
      cases front with
      | nil =>
        subst hsplit
        exact missed hnone
      | cons d front => exact ih (Option.map_eq_none_iff.1 h) (List.cons.inj hsplit).2

end Text

namespace Tag

/-! ## The slice of a tag -/

/-- What an enclosed body is made of, up to the closing delimiter and behind it. -/
theorem append_of_enclosed {lead closing body before after : List Char} {trims : Bool}
    (h : enclosed lead closing body = .ok (before, trims, after)) :
    ∃ mark, body = before ++ lead ++ mark ++ closing ++ after := by
  unfold enclosed at h
  split at h
  · rename_i b needle a hcut
    cases h
    obtain ⟨hbody, hmem⟩ := Text.append_of_cut? hcut
    simp only [List.mem_cons, List.not_mem_nil, or_false] at hmem
    rcases hmem with rfl | rfl
    · exact ⟨['~'], by simp [hbody]⟩
    · exact ⟨[], by simp [hbody]⟩
  · cases h

/-- The kinds that a tag without delimiters of its own can have. -/
theorem kind_of_classify {content value : List Char} {kind : TokenKind}
    (h : classify content = .ok (kind, value)) :
    kind ≠ .text ∧ kind ≠ .ending ∧ kind ≠ .delimiters := by
  have sigil {c : Char} {k : TokenKind} (hk : sigilKind? c = some k) :
      k ≠ .text ∧ k ≠ .ending ∧ k ≠ .delimiters := by
    unfold sigilKind? at hk
    split at hk <;> cases hk <;> decide
  unfold classify at h
  split at h
  · cases h
  · dsimp only at h
    split at h
    · cases h
      decide
    · split at h
      · cases h
        decide
      · split at h
        · cases h
          decide
        · split at h
          · rename_i k hk
            split at h
            · cases h
            · cases h
              exact sigil hk
          · split at h
            · cases h
              decide
            · cases h
              decide

/-- What is read as a tag is neither a text nor the end, and it takes at least one character in
front of its closing delimiter. -/
theorem shape_of_read {marks : Delimiters} {body rest : List Char} {tag : Tag}
    (h : read marks body = .ok (tag, rest)) :
    tag.kind ≠ .text ∧ tag.kind ≠ .ending ∧
      ∃ inner, inner ≠ [] ∧ body = inner ++ marks.closing.toList ++ rest := by
  -- `own` is the body behind the `~` that may stand at its front.
  obtain ⟨tilde, htilde⟩ :
      ∃ tilde, body = tilde ++ (if body.head? == some '~' then body.drop 1 else body) := by
    split
    · exact ⟨body.take 1, (List.take_append_drop 1 body).symm⟩
    · exact ⟨[], rfl⟩
  unfold read at h
  dsimp only at h
  generalize (if body.head? == some '~' then body.drop 1 else body) = own at h htilde
  generalize (body.head? == some '~') = trimsBefore at h
  have behind (n : Nat) {cs : List Char} (hcs : own.drop n = cs) :
      body = tilde ++ (own.take n ++ cs) := by
    rw [← hcs, List.take_append_drop, htilde]
  split at h
  · obtain ⟨⟨content, trims, after⟩, henclosed, h⟩ := bind_eq_ok_iff.1 h
    cases h
    obtain ⟨mark, hmark⟩ := append_of_enclosed henclosed
    refine ⟨by simp, by simp, tilde ++ own.take 1 ++ content ++ ['\x7d'] ++ mark, by simp, ?_⟩
    rw [behind 1 hmark]
    simp
  · split at h
    · obtain ⟨⟨content, trims, after⟩, henclosed, h⟩ := bind_eq_ok_iff.1 h
      cases h
      obtain ⟨mark, hmark⟩ := append_of_enclosed henclosed
      refine ⟨by simp, by simp, tilde ++ own.take 3 ++ content ++ ['-', '-'] ++ mark, by simp, ?_⟩
      rw [behind 3 hmark]
      simp
    · split at h
      · split at h
        · rename_i content needle after hcut
          cases h
          obtain ⟨hbody, hmem⟩ := Text.append_of_cut? hcut
          rw [List.mem_singleton.1 hmem] at hbody
          refine ⟨by simp, by simp, tilde ++ own.take 1 ++ content ++ ['='], by simp, ?_⟩
          rw [behind 1 hbody]
          simp
        · cases h
      · obtain ⟨⟨content, trims, after⟩, henclosed, h⟩ := bind_eq_ok_iff.1 h
        obtain ⟨⟨kind, value⟩, hclassify, h⟩ := bind_eq_ok_iff.1 h
        dsimp only at hclassify h
        cases h
        obtain ⟨htext, hending, -⟩ := kind_of_classify hclassify
        obtain ⟨mark, hmark⟩ := append_of_enclosed henclosed
        refine ⟨htext, hending, tilde ++ content ++ mark, by simp [classify_ne_nil hclassify], ?_⟩
        rw [htilde, hmark]
        simp

end Tag

/-- Failures of scanning. -/
def Failure.IsOfScan (f : Failure) : Prop := ∃ place cause, f = .scan place cause

namespace Token

/-! ## Tokens over a source -/

/-- How a token lies over its slice of the source, `rest` being the source behind the slice. -/
inductive Covers (t : Token) : (slice rest : List Char) → Prop where
  /-- A text is its slice, and its delimiters do not open a tag inside it. -/
  | text {rest : List Char} : t.kind = .text → t.value.toList ≠ [] →
      (∀ front back, t.value.toList = front ++ back → back ≠ [] →
        ¬ t.delimiters.opening.toList <+: back ++ rest) →
      Covers t t.value.toList rest
  /-- A tag stands between its delimiters. -/
  | tag {inner rest : List Char} : t.isTag = true → inner ≠ [] →
      Covers t (t.delimiters.opening.toList ++ inner ++ t.delimiters.closing.toList) rest

/-- The delimiters in force behind a token are `next`: only a tag that sets delimiters changes
them. -/
def Hands (t : Token) (next : Delimiters) : Prop :=
  if t.kind = .delimiters then Tag.newDelimiters t.value.toList = .ok next
  else next = t.delimiters

/-- Tokens that take the slices of a source one after the other, from a place on and with delimiters
to begin with. -/
inductive Cut : Delimiters → Position → List (List Char) → List Token → Prop where
  | done (marks : Delimiters) (p : Position) : Cut marks p [] []
  | take {marks next : Delimiters} {p : Position} {slice : List Char} {slices : List (List Char)}
      {t : Token} {ts : List Token} : t.position = p → t.delimiters = marks →
      t.Covers slice slices.flatten → t.Hands next → Cut next (p.advance slice) slices ts →
      Cut marks p (slice :: slices) (t :: ts)

theorem Covers.ne_nil {t : Token} {slice rest : List Char} (h : t.Covers slice rest) :
    slice ≠ [] := by
  cases h with
  | text _ hne _ => exact hne
  | tag _ hinner => simp [hinner]

namespace Cut

variable {marks : Delimiters} {p : Position} {slices : List (List Char)} {tokens : List Token}

/-- Tokens begin at the place that the cut begins at, or behind it. -/
theorem le_offset (h : Cut marks p slices tokens) : ∀ t ∈ tokens, p.offset ≤ t.position.offset := by
  induction h with
  | done => simp
  | take hp _ _ _ _ ih =>
    simp only [Position.offset_advance] at ih
    intro u hu
    rcases List.mem_cons.1 hu with rfl | hu
    · exact Nat.le_of_eq (congrArg _ hp.symm)
    · have := ih u hu
      omega

/-- No slice is empty, so every token begins behind the one before it. -/
theorem increasing (h : Cut marks p slices tokens) :
    (tokens.map (·.position.offset)).Pairwise (· < ·) := by
  induction h with
  | done => exact .nil
  | take hp _ hcovers _ hrest ih =>
    rw [List.map_cons, List.pairwise_cons]
    refine ⟨fun n hn => ?_, ih⟩
    obtain ⟨u, hu, rfl⟩ := List.mem_map.1 hn
    have hle := hrest.le_offset u hu
    have hpos := List.length_pos_iff.2 hcovers.ne_nil
    rw [Position.offset_advance] at hle
    rw [hp]
    omega

/-- The first token begins where the source does. -/
theorem head (h : Cut marks p slices tokens) (hne : slices.flatten ≠ []) :
    ∃ t rest, tokens = t :: rest ∧ t.position = p := by
  cases h with
  | done => exact absurd rfl hne
  | take hp => exact ⟨_, _, rfl, hp⟩

/-- A run of text in front of a cut source is a token of its own, if it is not empty. -/
theorem ofText {before : List Char} (h : Cut marks (p.advance before) slices tokens)
    (hclear : ∀ front back, before = front ++ back → back ≠ [] →
      ¬ marks.opening.toList <+: back ++ slices.flatten) :
    ∃ slices', slices'.flatten = before ++ slices.flatten ∧
      Cut marks p slices' (Token.ofText marks p before ++ tokens) := by
  unfold Token.ofText
  split
  · rename_i hempty
    rw [List.isEmpty_iff] at hempty
    subst hempty
    exact ⟨slices, rfl, h⟩
  · rename_i hempty
    refine ⟨before :: slices, rfl, ?_⟩
    have hvalue : (String.ofList before).toList = before := String.toList_ofList
    refine .take rfl rfl ?_ rfl h
    have hcovers : Covers ⟨.text, String.ofList before, p, marks, false, false⟩
        (String.ofList before).toList slices.flatten := by
      refine .text rfl ?_ ?_
      · rw [hvalue]
        simpa using hempty
      · rw [hvalue]
        exact hclear
    rwa [hvalue] at hcovers

/-- A tag and the text in front of it are the next tokens, where what follows has been cut. -/
theorem tag {text before needle body rest : List Char} {tag : Tag} {next : Delimiters}
    (hcut : Text.cut? [marks.opening.toList] text = some (before, needle, body))
    (hread : Tag.read marks body = .ok (tag, rest))
    (hnext : (ofTag marks (p.advance before) tag).Hands next) (hrest : slices.flatten = rest)
    (h : Cut next (p.advance (text.take (text.length - rest.length))) slices tokens) :
    ∃ slices', slices'.flatten = text ∧
      Cut marks p slices'
        (Token.ofText marks p before ++ ofTag marks (p.advance before) tag :: tokens) := by
  obtain ⟨htext, hending, inner, hinner, hbody⟩ := Tag.shape_of_read hread
  obtain ⟨happend, hneedle⟩ := Text.append_of_cut? hcut
  cases List.mem_singleton.1 hneedle
  generalize hslice : marks.opening.toList ++ inner ++ marks.closing.toList = slice
  have hwhole : text = before ++ slice ++ rest := by
    rw [happend, hbody, ← hslice]
    simp
  have htaken : text.take (text.length - rest.length) = before ++ slice := by
    rw [hwhole, List.length_append, Nat.add_sub_cancel, List.take_left]
  rw [htaken, Position.advance_append] at h
  have htag : (ofTag marks (p.advance before) tag).Covers slice slices.flatten := by
    rw [← hslice]
    exact .tag (by simp [isTag, ofTag, htext, hending]) hinner
  have hfront : Cut marks (p.advance before) (slice :: slices)
      (ofTag marks (p.advance before) tag :: tokens) := .take rfl rfl htag hnext h
  obtain ⟨slices', hflat, hcuts⟩ := hfront.ofText fun front back hsplit hback => by
    rw [List.flatten_cons, hrest, ← hslice]
    have hclear := Text.not_prefix_of_cut? hcut hsplit hback hneedle
    rw [hbody] at hclear
    simpa using hclear
  refine ⟨slices', ?_, hcuts⟩
  rw [hflat, List.flatten_cons, hrest, hwhole, List.append_assoc]

end Cut

/-- A scan cuts the source that is left into slices, or fails as scans do, by induction on what is
left. -/
theorem scanFrom_cut (file : String) (marks : Delimiters) (p : Position) (text : List Char) :
    Meets Failure.IsOfScan
      (fun tokens => ∃ slices, slices.flatten = text ∧ Cut marks p slices tokens)
      (scanFrom file marks p text) := by
  fun_induction scanFrom file marks p text with
  | case1 marks p text hempty =>
    rw [List.isEmpty_iff] at hempty
    exact Meets.pure ⟨[], hempty.symm, .done marks p⟩
  | case2 marks p text _ hcut =>
    -- No tag is left, so all that is left is text.
    have hclear : ∀ front back, text = front ++ back → back ≠ [] →
        ¬ marks.opening.toList <+: back ++ ([] : List (List Char)).flatten := by
      intro front back hsplit _
      simpa using Text.not_prefix_of_cut?_eq_none hcut hsplit List.mem_cons_self
    obtain ⟨slices, hflat, hcuts⟩ := (Cut.done marks (p.advance text)).ofText hclear
    exact Meets.pure ⟨slices, by simpa using hflat, by simpa using hcuts⟩
  | case3 => exact Meets.throw ⟨_, _, rfl⟩
  | case4 marks p text _ before needle body hcut _ tag rest hread _ hkind next hnext ih =>
    refine (ih next).bind fun others ⟨slices, hflat, hcuts⟩ => Meets.pure ?_
    refine Cut.tag hcut hread ?_ hflat hcuts
    rw [Hands, if_pos (by simpa [ofTag] using hkind)]
    simpa [ofTag] using hnext
  | case5 => exact Meets.throw ⟨_, _, rfl⟩
  | case6 marks p text _ before needle body hcut _ tag rest hread _ hkind ih =>
    refine (ih marks).bind fun others ⟨slices, hflat, hcuts⟩ => Meets.pure ?_
    refine Cut.tag hcut hread ?_ hflat hcuts
    rw [Hands, if_neg (by simpa [ofTag] using hkind)]
    rfl

end Token

end Stencil
