import Stencil.Proofs.Token.Lossless

/-!
# Tokens hold parts of the source

What a token says stands in the source as it is, one character behind the other: scanning takes the
value of a tag out of the tag, and white-space control leaves a part of every text. A scan that fails
blames a place of the source it was given.
-/

namespace Stencil

namespace Text

theorem BlankAround.isInfix {whole part : List Char} (h : BlankAround whole part) :
    part <:+: whole := by
  obtain ⟨front, back, rfl, -⟩ := h
  exact ⟨front, back, rfl⟩

theorem trimBoth_infix (cs : List Char) : trimBoth isBlank cs <:+: cs :=
  ((BlankAround.trimFront cs).trans (.trimBack _)).isInfix

end Text

namespace Tag

/-- The expression of an else tag stands in the tag. -/
theorem infix_of_elseExpression? {content expression : List Char}
    (h : elseExpression? content = some expression) : expression <:+: content := by
  unfold elseExpression? at h
  split at h
  · split at h
    · cases h
      exact List.nil_infix
    · rename_i c rest hdrop
      split at h
      · cases h
        have hrest : rest <:+: content :=
          ((List.suffix_cons c rest).trans (hdrop ▸ List.drop_suffix 4 content)).isInfix
        exact (Text.trimBoth_infix rest).trans hrest
      · cases h
  · cases h

/-- The value of a tag stands between its delimiters. -/
theorem infix_of_classify {content value : List Char} {kind : TokenKind}
    (h : classify content = .ok (kind, value)) : value <:+: content := by
  unfold classify at h
  split at h
  · cases h
  · rename_i sigil rest htrim
    have hwhole : sigil :: rest <:+: content := htrim ▸ Text.trimBoth_infix content
    have hrest : rest <:+: content := (List.suffix_cons sigil rest).isInfix.trans hwhole
    dsimp only at h
    split at h
    · cases h
      exact (Text.trimBoth_infix _).trans ((List.drop_suffix 1 rest).isInfix.trans hrest)
    · split at h
      · cases h
        exact (List.drop_suffix 1 _).isInfix.trans (Text.BlankAround.trimFront content).isInfix
      · split at h
        · cases h
          exact List.nil_infix
        · split at h
          · split at h
            · cases h
            · cases h
              exact (Text.trimBoth_infix rest).trans hrest
          · split at h
            · rename_i hexpression
              cases h
              exact (infix_of_elseExpression? hexpression).trans hwhole
            · cases h
              exact hwhole

/-- What an enclosed body holds before its closing text. -/
theorem infix_of_enclosed {lead closing body before after : List Char} {trims : Bool}
    (h : enclosed lead closing body = .ok (before, trims, after)) : before ++ lead <:+: body := by
  obtain ⟨mark, rfl⟩ := append_of_enclosed h
  exact ⟨[], mark ++ closing ++ after, by simp⟩

/-- The value of a tag stands in its body. -/
theorem infix_of_read {marks : Delimiters} {body rest : List Char} {tag : Tag}
    (h : read marks body = .ok (tag, rest)) : tag.value <:+: body := by
  have hown : (if body.head? == some '~' then body.drop 1 else body) <:+: body := by
    split
    · exact (List.drop_suffix 1 body).isInfix
    · exact List.infix_rfl
  unfold read at h
  dsimp only at h
  generalize (if body.head? == some '~' then body.drop 1 else body) = own at h hown
  have hdrop (n : Nat) : own.drop n <:+: body := (List.drop_suffix n own).isInfix.trans hown
  split at h
  · obtain ⟨⟨content, trims, after⟩, henclosed, h⟩ := bind_eq_ok_iff.1 h
    cases h
    have hcontent : content <:+: content ++ ['\x7d'] := (List.prefix_append _ _).isInfix
    exact (Text.trimBoth_infix content).trans
      (hcontent.trans ((infix_of_enclosed henclosed).trans (hdrop 1)))
  · split at h
    · rename_i hdashes
      obtain ⟨⟨content, trims, after⟩, henclosed, h⟩ := bind_eq_ok_iff.1 h
      cases h
      obtain ⟨mark, hmark⟩ := append_of_enclosed henclosed
      -- The dashes that open the comment stand before those that close it.
      have hbody : own = ['!', '-', '-'] ++ (content ++ ['-', '-'] ++ mark ++ marks.closing.toList ++
          after) := by
        rw [← hmark, ← beq_iff_eq.1 hdashes, List.take_append_drop]
      have hvalue : ['-', '-'] ++ content ++ ['-', '-'] <:+: own :=
        ⟨['!'], mark ++ marks.closing.toList ++ after, by simp [hbody]⟩
      exact hvalue.trans hown
    · split at h
      · split at h
        · rename_i content needle after hcut
          cases h
          have hcontent : content <:+: own.drop 1 :=
            ⟨[], needle ++ rest, by simp [(Text.append_of_cut? hcut).1]⟩
          exact (Text.trimBoth_infix content).trans (hcontent.trans (hdrop 1))
        · cases h
      · obtain ⟨⟨content, trims, after⟩, henclosed, h⟩ := bind_eq_ok_iff.1 h
        obtain ⟨⟨kind, value⟩, hclassify, h⟩ := bind_eq_ok_iff.1 h
        cases h
        have hcontent := infix_of_enclosed henclosed
        rw [List.append_nil] at hcontent
        exact (infix_of_classify hclassify).trans (hcontent.trans hown)

end Tag

namespace Token

/-- The token says something that stands in a text as it is. -/
def StandsIn (text : List Char) (t : Token) : Prop := t.value.toList <:+: text

theorem StandsIn.mono {text more : List Char} {t : Token} (h : t.StandsIn text)
    (hmore : text <:+: more) : t.StandsIn more :=
  h.trans hmore

theorem standsIn_ofText (marks : Delimiters) (position : Position) (cs : List Char) :
    ∀ t ∈ ofText marks position cs, t.StandsIn cs := by
  unfold ofText
  split
  · simp
  · simp [StandsIn]

/-- A text and a tag behind it, and the tokens of what follows the tag. -/
theorem standsIn_tag {marks : Delimiters} {p at_ : Position}
    {text before needle body rest : List Char} {tag : Tag} {others : List Token}
    (hcut : Text.cut? [marks.opening.toList] text = some (before, needle, body))
    (hread : Tag.read marks body = .ok (tag, rest)) (h : ∀ t ∈ others, t.StandsIn rest) :
    ∀ t ∈ ofText marks p before ++ ofTag marks at_ tag :: others, t.StandsIn text := by
  obtain ⟨rfl, -⟩ := Text.append_of_cut? hcut
  obtain ⟨-, -, inner, -, hbody⟩ := Tag.shape_of_read hread
  have hbefore : before <:+: before ++ needle ++ body := ⟨[], needle ++ body, by simp⟩
  have hinside : body <:+: before ++ needle ++ body := (List.suffix_append _ _).isInfix
  have hrest : rest <:+: before ++ needle ++ body := by
    refine List.IsInfix.trans ?_ hinside
    rw [hbody]
    exact (List.suffix_append _ _).isInfix
  refine List.forall_mem_append.2 ⟨fun t ht => ?_, List.forall_mem_cons.2 ⟨?_, fun t ht => ?_⟩⟩
  · exact (standsIn_ofText marks p before t ht).mono hbefore
  · rw [StandsIn, ofTag, String.toList_ofList]
    exact (Tag.infix_of_read hread).trans hinside
  · exact (h t ht).mono hrest

/-- A scan takes its tokens out of the text that is left, or fails at a place of the source, by
induction on what is left. -/
theorem scanFrom_standsIn (file : String) (marks : Delimiters) (p : Position) (text : List Char) :
    Meets (fun f => ∃ place cause, f = .scan place cause ∧ place.file = file)
      (fun tokens => ∀ t ∈ tokens, t.StandsIn text) (scanFrom file marks p text) := by
  fun_induction scanFrom file marks p text with
  | case1 => exact Meets.pure (by simp)
  | case2 marks p text => exact Meets.pure (standsIn_ofText marks p text)
  | case3 => exact Meets.throw ⟨_, _, rfl, rfl⟩
  | case4 marks p text _ before needle body hcut _ tag rest hread _ _ next _ ih =>
    exact (ih next).bind fun others hothers => Meets.pure (standsIn_tag hcut hread hothers)
  | case5 => exact Meets.throw ⟨_, _, rfl, rfl⟩
  | case6 marks p text _ before needle body hcut _ tag rest hread _ _ ih =>
    exact (ih marks).bind fun others hothers => Meets.pure (standsIn_tag hcut hread hothers)

/-- What white-space control leaves of the tokens stands in the source as before. -/
theorem Trimmed.standsIn {text : List Char} {tokens kept : List Token} (h : Trimmed tokens kept)
    (htokens : ∀ t ∈ tokens, t.StandsIn text) : ∀ t ∈ kept, t.StandsIn text := by
  induction h with
  | nil => exact List.forall_mem_nil _
  | tag _ _ ih =>
    obtain ⟨ht, hrest⟩ := List.forall_mem_cons.1 htokens
    exact List.forall_mem_cons.2 ⟨ht, ih hrest⟩
  | text _ _ hblank _ ih =>
    obtain ⟨ht, hrest⟩ := List.forall_mem_cons.1 htokens
    refine List.forall_mem_cons.2 ⟨?_, ih hrest⟩
    rw [StandsIn, String.toList_ofList]
    exact hblank.isInfix.trans ht
  | blank _ _ _ ih => exact ih (List.forall_mem_cons.1 htokens).2

/-- The tokens of a source stand in it, or it fails to scan at one of its places. -/
theorem ofSource_standsIn (file : String) (marks : Delimiters) (text : String) :
    Meets (fun f => ∃ place cause, f = .scan place cause ∧ place.file = file)
      (fun tokens => ∀ t ∈ tokens, t.StandsIn text.toList) (ofSource file marks text) := by
  refine (scanFrom_standsIn file marks .start text.toList).bind fun scanned hscanned => ?_
  refine Meets.pure (List.forall_mem_append.2 ⟨?_, List.forall_mem_singleton.2 ?_⟩)
  · exact (trimmed_trimFrom [] scanned).standsIn hscanned
  · exact List.nil_infix

end Token

end Stencil
