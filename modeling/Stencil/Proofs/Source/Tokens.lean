import Stencil.Proofs.Source.Tags
import Stencil.Token.Trim

/-!
# Tokens in source

A token written out is scanned as that token, apart from its place. So is a row of tokens, as long
as no two texts stand beside each other.
-/

namespace Stencil

namespace Tag

variable {value rest : List Char} {sigil : Char} {kind : TokenKind}

/-- Text that begins as a name does. -/
def BeginsName (cs : List Char) : Prop := ∃ c rest, cs = c :: rest ∧ isNameStart c = true

theorem ne_of_isNameStart {c d : Char} (hc : isNameStart c = true) (hd : isNameStart d = false) :
    c ≠ d := by
  rintro rfl
  exact Bool.false_ne_true (hd.symm.trans hc)

theorem not_isBlank_of_isNameStart {c : Char} (h : isNameStart c = true) :
    Text.isBlank c = false := by
  have hname : isNameChar c = true := by
    simp only [isNameStart, Bool.or_eq_true] at h
    simp only [isNameChar, Bool.or_eq_true]
    rcases h with ((h | h) | h) | h <;> simp [h]
  exact not_isBlank_of_isNameChar hname

theorem BeginsName.first (h : BeginsName value) : ∀ c ∈ value.head?, Text.isBlank c = false := by
  obtain ⟨c, rest, rfl, hc⟩ := h
  intro d hd
  rw [← Option.mem_some.1 hd]
  exact not_isBlank_of_isNameStart hc

theorem BeginsName.ne_nil (h : BeginsName value) : value ≠ [] := by
  obtain ⟨c, rest, rfl, -⟩ := h
  exact List.cons_ne_nil c rest

theorem BeginsName.trimBoth (h : BeginsName value) (hs : Settled value) :
    Text.trimBoth Text.isBlank value = value :=
  Text.trimBoth_eq_self h.first fun c hc => (hs.last c hc).2.2

theorem classify_comment (comment : List Char) :
    classify ('!' :: comment) = .ok (.comment, comment) := by
  have hsigil : Text.isBlank '!' = false := rfl
  unfold classify
  rw [Text.trimBoth_cons hsigil]
  rfl

/-- A tag with a sigil is classified by it. -/
theorem classify_sigil (hkind : sigilKind? sigil = some kind) (hcomment : sigil ≠ '!')
    (hblank : Text.isBlank sigil = false) (hlast : ∀ c ∈ rest.getLast?, Text.isBlank c = false)
    (hstar : rest.head? ≠ some '*') (htrim : Text.trimBoth Text.isBlank rest = value)
    (hne : value ≠ []) : classify (sigil :: rest) = .ok (kind, value) := by
  have hcontent : Text.trimBoth Text.isBlank (sigil :: rest) = sigil :: rest := by
    refine Text.trimBoth_eq_self (fun c hc => Option.mem_some.1 hc ▸ hblank) ?_
    intro c hc
    cases rest with
    | nil => exact Option.mem_some.1 hc ▸ hblank
    | cons d rest => exact hlast c hc
  have hempty : value.isEmpty = false := by simpa using hne
  have hstar' : (rest.head? == some '*') = false := by simpa using hstar
  have hcomment' : (sigil == '!') = false := by simpa using hcomment
  unfold classify
  rw [hcontent]
  simp only [htrim, hstar', hcomment', hempty, hkind, Bool.and_false, Bool.false_eq_true, if_false]
  rfl

theorem classify_inline (hs : Settled value) (hb : BeginsName value) :
    classify ('#' :: '*' :: value) = .ok (.inline, value) := by
  have hcontent : Text.trimBoth Text.isBlank ('#' :: '*' :: value) = '#' :: '*' :: value := by
    refine Text.trimBoth_eq_self (fun c hc => Option.mem_some.1 hc ▸ rfl) ?_
    intro c hc
    rw [List.getLast?_cons_of_ne_nil (List.cons_ne_nil _ _),
      List.getLast?_cons_of_ne_nil hb.ne_nil] at hc
    exact (hs.last c hc).2.2
  unfold classify
  rw [hcontent]
  change Except.ok (TokenKind.inline, Text.trimBoth Text.isBlank value) = _
  rw [hb.trimBoth hs]

/-- A tag without a sigil holds an expression, unless it is an else tag. -/
theorem classify_plain (hs : Settled value) (hb : BeginsName value)
    (helse : elseExpression? value = none) : classify value = .ok (.plain, value) := by
  have hcontent := hb.trimBoth hs
  obtain ⟨c, rest, rfl, hc⟩ := hb
  have hne (d : Char) (hd : isNameStart d = false) : (c == d) = false := by
    simpa using ne_of_isNameStart hc hd
  have hkind : sigilKind? c = none := by
    unfold sigilKind?
    split
    all_goals first | rfl | exact absurd hc (by decide)
  unfold classify
  rw [hcontent]
  simp only [hne '#' rfl, hne '!' rfl, hne '^' rfl, hkind, helse, Bool.false_and,
    Bool.false_eq_true, if_false]
  rfl

end Tag

namespace TokenKind

/-- What stands before the value of a tag of this kind. -/
def sigil : TokenKind → List Char
  | triple => ['\x7b']
  | ampersand => ['&']
  | opening => ['#']
  | inverted => ['^']
  | closing => ['/']
  | otherwise label => label.text.toList
  | inclusion => ['>', ' ']
  | comment => ['!']
  | inline => ['#', '*']
  | text | plain | delimiters | ending => []

/-- What stands behind the value of a tag of this kind. -/
def trailer : TokenKind → List Char
  | triple => ['\x7d']
  | _ => []

/-- Tags whose value is an expression. -/
def holdsExpression : TokenKind → Bool
  | plain | triple | ampersand | opening | inverted | closing | inclusion | inline => true
  | text | otherwise _ | comment | delimiters | ending => false

end TokenKind

namespace Token

/-- A token at the start of a source, with nothing trimmed beside it. -/
def of (kind : TokenKind) (value : String) : Token := ⟨kind, value, .start, .standard, false, false⟩

/-- A token moved to the start of its source. -/
def unplaced (t : Token) : Token := { t with position := .start }

/-- What stands behind the opening delimiter of a tag, its closing delimiter included. -/
def inner (t : Token) : List Char :=
  t.kind.sigil ++ (t.value.toList ++ (t.kind.trailer ++ ['\x7d', '\x7d']))

/-- A token in source. -/
def written (t : Token) : List Char :=
  if t.kind = .text then t.value.toList else '\x7b' :: '\x7b' :: t.inner

/-- A token that is scanned where it is written. -/
inductive Legible : Token → Prop
  | text {content : String} (h : Node.NormalText content) : Legible (.of .text content)
  | comment {content : String} (h : Node.NormalComment content) : Legible (.of .comment content)
  | otherwise (label : ElseLabel) : Legible (.of (.otherwise label) "")
  | expression {kind : TokenKind} {value : String} (hkind : kind.holdsExpression = true)
      (hs : Settled value.toList) (hb : Tag.BeginsName value.toList)
      (helse : kind = .plain → Tag.elseExpression? value.toList = none) : Legible (.of kind value)

/-- The tag that a token is. -/
def tag (t : Token) : Tag := ⟨t.kind, t.value.toList, false, false⟩

theorem inner_append (t : Token) (rest : List Char) :
    t.inner ++ rest =
      t.kind.sigil ++ (t.value.toList ++ (t.kind.trailer ++ '\x7d' :: '\x7d' :: rest)) := by
  simp only [inner, List.append_assoc, List.cons_append, List.nil_append]

theorem read_comment {content : String} (h : Node.NormalComment content) (rest : List Char) :
    Tag.read .standard ((of .comment content).inner ++ rest) =
      .ok ((of .comment content).tag, rest) := by
  have hplain : ∀ c ∈ '!' :: content.toList, c ≠ '\x7d' ∧ c ≠ '~' := by
    intro c hc
    rcases List.mem_cons.1 hc with rfl | hc
    · decide
    · exact ⟨fun heq => h.unclosed (heq ▸ hc), fun heq => h.untrimmed (heq ▸ hc)⟩
  have hclosable : Tag.Closable ('!' :: content.toList) := by
    refine ⟨List.Pairwise.isChain ?_, fun c hc => hplain c (List.mem_of_getLast? hc)⟩
    exact List.pairwise_of_forall_mem_list fun a ha _ _ hab => (hplain a ha).1 hab.1
  have hdashes : ¬ ['!', '-', '-'] <+: '!' :: content.toList := by
    intro hprefix
    exact h.undashed (List.cons_prefix_cons.1 hprefix).2
  rw [inner_append]
  exact Tag.read_content (by decide) hdashes hclosable (Tag.classify_comment content.toList) rest

theorem read_expression {kind : TokenKind} {value : String} (hkind : kind.holdsExpression = true)
    (hs : Settled value.toList) (hb : Tag.BeginsName value.toList)
    (helse : kind = .plain → Tag.elseExpression? value.toList = none) (rest : List Char) :
    Tag.read .standard ((of kind value).inner ++ rest) = .ok ((of kind value).tag, rest) := by
  have hlast : ∀ c ∈ value.toList.getLast?, Text.isBlank c = false := fun c hc => (hs.last c hc).2.2
  have hstar : value.toList.head? ≠ some '*' := by
    obtain ⟨c, cs, hvalue, hc⟩ := hb
    rw [hvalue]
    exact fun heq => Tag.ne_of_isNameStart hc rfl (Option.some.inj heq)
  have hsigil (sigil : Char) (hkind : Tag.sigilKind? sigil = some kind) (hcomment : sigil ≠ '!')
      (hblank : Text.isBlank sigil = false) :
      Tag.classify (sigil :: value.toList) = .ok (kind, value.toList) :=
    Tag.classify_sigil hkind hcomment hblank hlast hstar (hb.trimBoth hs) hb.ne_nil
  have hread (sigil : Char) {cs : List Char}
      (hfirst : sigil ≠ '~' ∧ sigil ≠ '\x7b' ∧ sigil ≠ '=') (hcomment : sigil ≠ '!')
      (hsettled : Settled (sigil :: cs))
      (hclassify : Tag.classify (sigil :: cs) = .ok (kind, value.toList)) :
      Tag.read .standard (sigil :: (cs ++ '\x7d' :: '\x7d' :: rest)) =
        .ok ((of kind value).tag, rest) :=
    Tag.read_content hfirst (fun hprefix => hcomment (List.cons_prefix_cons.1 hprefix).1.symm)
      (.of_settled hsettled) hclassify rest
  rw [inner_append]
  cases kind with
  | plain =>
    have hclassify := Tag.classify_plain hs hb (helse rfl)
    obtain ⟨c, cs, hvalue, hc⟩ := hb
    change Tag.read .standard (value.toList ++ '\x7d' :: '\x7d' :: rest) = _
    rw [hvalue]
    refine hread c ⟨?_, ?_, ?_⟩ (Tag.ne_of_isNameStart hc rfl) ?_ ?_
    · exact Tag.ne_of_isNameStart hc rfl
    · exact Tag.ne_of_isNameStart hc rfl
    · exact Tag.ne_of_isNameStart hc rfl
    · rwa [← hvalue]
    · rwa [← hvalue]
  | triple => exact Tag.read_braced hs hb.first rest
  | ampersand =>
    exact hread '&' (by decide) (by decide) (hs.cons (by decide) hb.ne_nil)
      (hsigil '&' rfl (by decide) rfl)
  | opening =>
    exact hread '#' (by decide) (by decide) (hs.cons (by decide) hb.ne_nil)
      (hsigil '#' rfl (by decide) rfl)
  | inverted =>
    exact hread '^' (by decide) (by decide) (hs.cons (by decide) hb.ne_nil)
      (hsigil '^' rfl (by decide) rfl)
  | closing =>
    exact hread '/' (by decide) (by decide) (hs.cons (by decide) hb.ne_nil)
      (hsigil '/' rfl (by decide) rfl)
  | inclusion =>
    have hspaced : Settled (' ' :: value.toList) := hs.cons (by decide) hb.ne_nil
    change Tag.read .standard ('>' :: ((' ' :: value.toList) ++ '\x7d' :: '\x7d' :: rest)) = _
    refine hread '>' (by decide) (by decide) (hspaced.cons (by decide) (List.cons_ne_nil _ _)) ?_
    exact Tag.classify_sigil rfl (by decide) rfl (fun c hc => (hspaced.last c hc).2.2) (by simp)
      (hb.trimBoth hs) hb.ne_nil
  | inline =>
    have hstarred : Settled ('*' :: value.toList) := hs.cons (by decide) hb.ne_nil
    change Tag.read .standard ('#' :: (('*' :: value.toList) ++ '\x7d' :: '\x7d' :: rest)) = _
    exact hread '#' (by decide) (by decide) (hstarred.cons (by decide) (List.cons_ne_nil _ _))
      (Tag.classify_inline hs hb)
  | text | otherwise _ | comment | delimiters | ending => cases hkind

theorem read_otherwise (label : ElseLabel) (rest : List Char) :
    Tag.read .standard ((of (.otherwise label) "").inner ++ rest) =
      .ok ((of (.otherwise label) "").tag, rest) := by
  rw [inner_append]
  cases label with
  | word =>
    refine Tag.read_content (by decide) (by decide) (.of_settled (.of_bare ?_)) rfl rest
    exact List.all_eq_true.1 (by decide)
  | caret =>
    refine Tag.read_content (by decide) (by decide) (.of_settled (.of_bare ?_)) rfl rest
    exact List.all_eq_true.1 (by decide)

/-- A legible tag is read where it is written. -/
theorem Legible.read {t : Token} (h : Legible t) (htag : t.kind ≠ .text) (rest : List Char) :
    Tag.read .standard (t.inner ++ rest) = .ok (t.tag, rest) := by
  cases h with
  | text h => exact absurd rfl htag
  | comment h => exact read_comment h rest
  | otherwise label => exact read_otherwise label rest
  | expression hkind hs hb helse => exact read_expression hkind hs hb helse rest

/-- Tokens in source, one after the other. -/
def writtenAll (tokens : List Token) : List Char := tokens.flatMap written

/-- No two texts stand beside each other. -/
def Apart (tokens : List Token) : Prop :=
  tokens.IsChain fun a b => ¬ (a.kind = .text ∧ b.kind = .text)

theorem Legible.ofTag_eq {t : Token} (h : Legible t) (position : Position) :
    ofTag .standard position t.tag = { t with position } := by
  cases h <;> simp only [ofTag, tag, of, String.ofList_toList]

theorem Legible.kind_ne_delimiters {t : Token} (h : Legible t) : t.kind ≠ .delimiters := by
  cases h with
  | text | comment | otherwise => exact nofun
  | expression hkind =>
    intro heq
    change _ = TokenKind.delimiters at heq
    subst heq
    cases hkind

theorem opening_not_mem {cs : List Char} (h : '\x7b' ∉ cs) :
    ∀ c ∈ Delimiters.standard.opening.toList, c ∉ cs := by
  intro c hc
  have hbrace : c ∈ ['\x7b', '\x7b'] := hc
  simp only [List.mem_cons, List.not_mem_nil, or_false, or_self] at hbrace
  rwa [hbrace]

/-- The source is cut before the first tag. -/
theorem cut?_opening {before : List Char} (hbefore : '\x7b' ∉ before) (body : List Char) :
    Text.cut? [Delimiters.standard.opening.toList] (before ++ '\x7b' :: '\x7b' :: body) =
      some (before, ['\x7b', '\x7b'], body) :=
  Text.cut?_of_not_mem (List.cons_ne_nil _ _) (opening_not_mem hbefore) body

/-- A tag behind a text that holds no opening delimiter is scanned, and then what follows it. -/
theorem scanFrom_tag {t : Token} (h : Legible t) (htag : t.kind ≠ .text) (file : String)
    (position : Position) {before : List Char} (hbefore : '\x7b' ∉ before) (rest : List Char) :
    ∃ after at_, scanFrom file .standard position (before ++ (written t ++ rest)) =
      (scanFrom file .standard after rest).map fun others =>
        ofText .standard position before ++ { t with position := at_ } :: others := by
  have hwritten : before ++ (written t ++ rest) =
      before ++ '\x7b' :: '\x7b' :: (t.inner ++ rest) := by
    rw [written, if_neg htag]
    rfl
  have hcut := cut?_opening hbefore (t.inner ++ rest)
  rw [hwritten, scanFrom_step hcut (h.read htag rest) h.kind_ne_delimiters, h.ofTag_eq]
  exact ⟨_, _, rfl⟩

theorem Legible.unplaced_eq {t : Token} (h : Legible t) : t.unplaced = t := by
  cases h <;> rfl

/-- Without an opening delimiter there is only text. -/
theorem scanFrom_text (file : String) (position : Position) {cs : List Char} (h : '\x7b' ∉ cs) :
    scanFrom file .standard position cs = .ok (ofText .standard position cs) :=
  scanFrom_of_cut?_eq_none (Text.cut?_eq_none_of_not_mem (List.cons_ne_nil _ _) (opening_not_mem h))

theorem unplaced_ofText (position : Position) (cs : List Char) :
    (ofText .standard position cs).map unplaced = ofText .standard .start cs := by
  unfold ofText
  split
  · rfl
  · rfl

theorem ofText_of_normal {content : String} (h : Node.NormalText content) :
    ofText .standard .start content.toList = [of .text content] := by
  rw [ofText, if_neg (by simpa using h.nonempty), String.ofList_toList]
  rfl

/-- Legible tokens behind a text are scanned as they are written. -/
theorem scanFrom_writtenAll (file : String) {tokens : List Token} (h : ∀ t ∈ tokens, Legible t)
    (hapart : Apart tokens) (position : Position) {before : List Char} (hbefore : '\x7b' ∉ before)
    (hfront : before = [] ∨ ∀ t ∈ tokens.head?, t.kind ≠ .text) :
    ∃ found, scanFrom file .standard position (before ++ writtenAll tokens) = .ok found ∧
      found.map unplaced = ofText .standard .start before ++ tokens := by
  induction tokens generalizing position before with
  | nil =>
    refine ⟨ofText .standard position before, ?_, ?_⟩
    · rw [writtenAll, List.flatMap_nil, List.append_nil, scanFrom_text file position hbefore]
    · rw [unplaced_ofText, List.append_nil]
  | cons t rest ih =>
    obtain ⟨ht, hrest⟩ := List.forall_mem_cons.1 h
    obtain ⟨hnext, hchain⟩ := List.isChain_cons.1 hapart
    rw [writtenAll, List.flatMap_cons, ← writtenAll]
    by_cases htext : t.kind = .text
    · -- The text is scanned with the tag behind it.
      have hnil : before = [] := hfront.resolve_right fun hnot => hnot t rfl htext
      cases ht with
      | text hcontent =>
        rename_i content
        obtain ⟨found, hfound, hmap⟩ := ih hrest hchain position hcontent.unopened
          (.inr fun other ho => fun hother => hnext other ho ⟨rfl, hother⟩)
        refine ⟨found, ?_, ?_⟩
        · rw [hnil, List.nil_append, written, if_pos htext]
          exact hfound
        · rw [hmap, hnil, ofText_of_normal hcontent]
          rfl
      | comment | otherwise => cases htext
      | expression hkind =>
        change _ = TokenKind.text at htext
        subst htext
        cases hkind
    · obtain ⟨after, at_, hscan⟩ := scanFrom_tag ht htext file position hbefore (writtenAll rest)
      obtain ⟨found, hfound, hmap⟩ := ih hrest hchain after (List.not_mem_nil) (.inl rfl)
      refine ⟨ofText .standard position before ++ { t with position := at_ } :: found, ?_, ?_⟩
      · rw [hscan]
        rw [List.nil_append] at hfound
        rw [hfound]
        rfl
      · rw [List.map_append, unplaced_ofText, List.map_cons, hmap]
        have hself : unplaced { t with position := at_ } = t := ht.unplaced_eq
        rw [hself]
        rfl

end Token

end Stencil
