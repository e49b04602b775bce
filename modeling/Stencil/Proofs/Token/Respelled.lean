import Stencil.Proofs.Token.Respelling

/-!
# A source with other delimiters

A source is written again with other delimiters around its tags, and the tokens are what they were,
apart from their places and the delimiters they record. White-space control judges by kinds, texts
and tildes, so what it leaves is the same as well, and so is the tree.
-/

namespace Stencil

namespace Token

/-! ## Writing a source again -/

/-- What a tag that takes a slice of a source holds between its delimiters. -/
def inside (t : Token) (slice : List Char) : List Char :=
  let opening := t.delimiters.opening.toList.length
  let closing := t.delimiters.closing.toList.length
  (slice.drop opening).take (slice.length - opening - closing)

/-- A slice of a source as it is written with other delimiters: a text as it is, and a tag between
them. -/
def respelled (d : Delimiters) (t : Token) (slice : List Char) : List Char :=
  if t.isTag then d.opening.toList ++ (t.inside slice ++ d.closing.toList) else slice

/-- The tokens of a source with the slices that they take, each up to the place of the next. -/
def pieces (text : List Char) : List Token → List (Token × List Char)
  | [] => []
  | [t] => [(t, text)]
  | t :: u :: rest =>
    let taken := u.position.offset - t.position.offset
    (t, text.take taken) :: pieces (text.drop taken) (u :: rest)

/-- A source in pieces, written with other delimiters. -/
def respelledAll (d : Delimiters) : List (Token × List Char) → List Char
  | [] => []
  | (t, slice) :: rest => t.respelled d slice ++ respelledAll d rest

/-- The source of some tokens, written with other delimiters. -/
def respelledSource (d : Delimiters) (text : String) (tokens : List Token) : String :=
  String.ofList (respelledAll d (pieces text.toList tokens))

/-- No tag turns into another one with what follows it when other delimiters are written. -/
def Clears (d : Delimiters) : List (Token × List Char) → Prop
  | [] => True
  | (t, slice) :: rest =>
    (t.isTag = true → Tag.Clear d.closing.toList (t.inside slice) (respelledAll d rest)) ∧
      Clears d rest

/-- The tokens begin where the text behind them does, and there is none only for the empty text. -/
structure Covering (p : Position) (text : List Char) (tokens : List Token) : Prop where
  empty : tokens = [] → text = []
  first : ∀ t ∈ tokens.head?, t.position = p

theorem covering_of_scanFrom {file : String} {marks : Delimiters} {p : Position} {text : List Char}
    {tokens : List Token} (h : scanFrom file marks p text = .ok tokens) :
    Covering p text tokens := by
  obtain ⟨slices, hflat, hcut⟩ := (scanFrom_cut file marks p text).of_ok h
  cases hcut with
  | done => exact ⟨fun _ => hflat.symm, by simp⟩
  | take hp => exact ⟨by simp, by simpa using hp⟩

/-- The first token takes the slice that ends where the tokens behind it begin. -/
theorem pieces_cons {t : Token} {slice rest : List Char} {tokens : List Token}
    (h : Covering (t.position.advance slice) rest tokens) :
    pieces (slice ++ rest) (t :: tokens) = (t, slice) :: pieces rest tokens := by
  cases tokens with
  | nil => rw [h.empty rfl, List.append_nil, pieces, pieces]
  | cons u tokens =>
    have htaken : u.position.offset - t.position.offset = slice.length := by
      rw [h.first u rfl, Position.offset_advance]
      omega
    rw [pieces]
    simp only [htaken, List.take_left, List.drop_left]

theorem pieces_ofText {marks : Delimiters} {p : Position} {before rest : List Char}
    {tokens : List Token} (h : Covering (p.advance before) rest tokens) :
    pieces (before ++ rest) (ofText marks p before ++ tokens) =
      (ofText marks p before).map (·, before) ++ pieces rest tokens := by
  unfold ofText
  split
  · rename_i hempty
    rw [List.isEmpty_iff.1 hempty]
    rfl
  · exact pieces_cons h

theorem inside_eq {t : Token} {inner : List Char} :
    t.inside (t.delimiters.opening.toList ++ inner ++ t.delimiters.closing.toList) = inner := by
  unfold inside
  dsimp only
  rw [List.append_assoc, List.drop_left]
  have hlength : (t.delimiters.opening.toList ++ (inner ++ t.delimiters.closing.toList)).length -
      t.delimiters.opening.toList.length - t.delimiters.closing.toList.length = inner.length := by
    simp only [List.length_append]
    omega
  rw [hlength, List.take_left]

theorem respelledAll_append (d : Delimiters) (pieces others : List (Token × List Char)) :
    respelledAll d (pieces ++ others) = respelledAll d pieces ++ respelledAll d others := by
  induction pieces with
  | nil => rfl
  | cons piece rest ih =>
    obtain ⟨t, slice⟩ := piece
    rw [List.cons_append, respelledAll, respelledAll, ih, List.append_assoc]

theorem respelledAll_ofText (d marks : Delimiters) (p : Position) (before : List Char) :
    respelledAll d ((ofText marks p before).map (·, before)) = before := by
  unfold ofText
  split
  · rename_i hempty
    rw [List.isEmpty_iff.1 hempty]
    rfl
  · simp [respelledAll, respelled, isTag]

theorem Clears.of_append {d : Delimiters} {pieces others : List (Token × List Char)}
    (h : Clears d (pieces ++ others)) : Clears d others := by
  induction pieces with
  | nil => exact h
  | cons piece rest ih => exact ih h.2

/-- The pieces of a source that begins with a text and a tag. -/
theorem pieces_tag {file : String} {marks next : Delimiters} {p : Position}
    {text before needle body rest : List Char} {tag : Tag} {others : List Token}
    (hcut : Text.cut? [marks.opening.toList] text = some (before, needle, body))
    (hread : Tag.read marks body = .ok (tag, rest))
    (hothers : scanFrom file next (p.advance (text.take (text.length - rest.length))) rest =
      .ok others) :
    ∃ inner, inner ≠ [] ∧
      text = before ++ (marks.opening.toList ++ (inner ++ (marks.closing.toList ++ rest))) ∧
      body = inner ++ (marks.closing.toList ++ rest) ∧
      pieces text (ofText marks p before ++ ofTag marks (p.advance before) tag :: others) =
        (ofText marks p before).map (·, before) ++
          (ofTag marks (p.advance before) tag,
            marks.opening.toList ++ inner ++ marks.closing.toList) :: pieces rest others := by
  obtain ⟨-, -, inner, hinner, hbody⟩ := Tag.shape_of_read hread
  obtain ⟨happend, hneedle⟩ := Text.append_of_cut? hcut
  cases List.mem_singleton.1 hneedle
  generalize hslice : marks.opening.toList ++ inner ++ marks.closing.toList = slice
  have hwhole : text = before ++ (slice ++ rest) := by
    rw [happend, hbody, ← hslice]
    simp
  have htaken : text.take (text.length - rest.length) = before ++ slice := by
    rw [hwhole, ← List.append_assoc, List.length_append, Nat.add_sub_cancel, List.take_left]
  rw [htaken, Position.advance_append] at hothers
  have htag : pieces (slice ++ rest) (ofTag marks (p.advance before) tag :: others) =
      (ofTag marks (p.advance before) tag, slice) :: pieces rest others :=
    pieces_cons (covering_of_scanFrom hothers)
  refine ⟨inner, hinner, ?_, by simpa using hbody, ?_⟩
  · rw [hwhole, ← hslice]
    simp
  · rw [hwhole, pieces_ofText ⟨by simp, by simp [ofTag]⟩, htag, hslice]

/-- A closing delimiter that begins neither with a tilde nor with a dash makes no other tag. -/
theorem Clears.of_first {d : Delimiters}
    (h : ∃ c cs, d.closing.toList = c :: cs ∧ c ≠ '~' ∧ c ≠ '-')
    (pieces : List (Token × List Char)) : Clears d pieces := by
  obtain ⟨c, cs, hclosing, htilde, hdash⟩ := h
  induction pieces with
  | nil => trivial
  | cons piece rest ih =>
    refine ⟨fun _ => ⟨fun hprefix => ?_, fun _ hprefix => ?_⟩, ih⟩
    · rw [hclosing] at hprefix
      exact htilde (List.cons_prefix_cons.1 hprefix).1.symm
    · rw [hclosing] at hprefix
      exact hdash (List.cons_prefix_cons.1 hprefix).1.symm

/-! ## Scanning it -/

variable {d : Delimiters}

theorem ofText_alike (marks : Delimiters) (p p' : Position) (cs : List Char) :
    AllAlike .spelling (ofText marks p cs) (ofText d p' cs) := by
  unfold ofText
  split
  · exact .nil
  · exact .cons ⟨rfl, rfl, rfl, rfl, False.elim, False.elim⟩ .nil

/-- A tag of a source between other delimiters, with the text before it. -/
theorem scanFrom_tag_respelled {file : String} (hopening : d.opening.toList ≠ [])
    (hclosing : d.closing.toList ≠ []) {marks : Delimiters} {before inner rest after : List Char}
    {tag : Tag} {p p' : Position} {tokens : List Token} (hinner : inner ≠ [])
    (hread : Tag.read marks (inner ++ (marks.closing.toList ++ rest)) = .ok (tag, rest))
    (hkind : tag.kind ≠ .triple ∧ tag.kind ≠ .delimiters)
    (hnew : ∀ c ∈ d.opening.toList ++ d.closing.toList, c ∉ before ∧ c ∉ inner)
    (hclear : Tag.Clear d.closing.toList inner after)
    (hafter : ∀ q, ∃ tokens', scanFrom file d q after = .ok tokens' ∧
      AllAlike .spelling tokens tokens') :
    ∃ tokens', scanFrom file d p'
        (before ++ (d.opening.toList ++ (inner ++ (d.closing.toList ++ after)))) = .ok tokens' ∧
      AllAlike .spelling (ofText marks p before ++ ofTag marks (p.advance before) tag :: tokens)
        tokens' := by
  have hbefore : ∀ c ∈ d.opening.toList, c ∉ before := fun c hc =>
    (hnew c (List.mem_append_left _ hc)).1
  have hcut := Text.cut?_of_not_mem hopening hbefore (inner ++ (d.closing.toList ++ after))
  have htag := Tag.read_respelled hinner (Tag.reads_of_read hread hkind.1 hkind.2)
    (fun c hc => (hnew c (List.mem_append_left _ hc)).2)
    (fun c hc => (hnew c (List.mem_append_right _ hc)).2) hclosing hclear
  rw [scanFrom_step hcut htag hkind.2]
  obtain ⟨tokens', hscan, halike⟩ := hafter _
  rw [hscan]
  refine ⟨_, rfl, List.rel_append (ofText_alike marks p p' before) (.cons ?_ halike)⟩
  exact ⟨rfl, rfl, rfl, rfl, False.elim, False.elim⟩

/-- What is scanned between the standard delimiters is scanned between others, by induction on what
is left of the source. -/
theorem scanFrom_respelled {file : String} (hopening : d.opening.toList ≠ [])
    (hclosing : d.closing.toList ≠ []) {marks : Delimiters} {p : Position} {text : List Char}
    {tokens : List Token} (hscan : scanFrom file marks p text = .ok tokens)
    (hkinds : ∀ t ∈ tokens, t.kind ≠ .triple ∧ t.kind ≠ .delimiters)
    (hnew : ∀ c ∈ d.opening.toList ++ d.closing.toList, c ∉ text)
    (hclears : Clears d (pieces text tokens)) (p' : Position) :
    ∃ tokens', scanFrom file d p' (respelledAll d (pieces text tokens)) = .ok tokens' ∧
      AllAlike .spelling tokens tokens' := by
  fun_induction scanFrom file marks p text generalizing tokens p' with
  | case1 marks p text hempty =>
    cases hscan
    refine ⟨[], ?_, .nil⟩
    rw [pieces, respelledAll, scanFrom]
    rfl
  | case2 marks p text hempty hcut =>
    cases hscan
    have hpieces : pieces (text ++ []) (ofText marks p text ++ []) = _ :=
      pieces_ofText ⟨fun _ => rfl, by simp⟩
    rw [List.append_nil, List.append_nil] at hpieces
    have hsource : respelledAll d (pieces text (ofText marks p text)) = text := by
      rw [hpieces, pieces, List.append_nil, respelledAll_ofText]
    rw [hsource]
    have hnone := Text.cut?_eq_none_of_not_mem hopening fun c hc => hnew c (List.mem_append_left _ hc)
    exact ⟨_, scanFrom_of_cut?_eq_none hnone, ofText_alike marks p p' text⟩
  | case3 | case5 => cases hscan
  | case4 marks p text _ before needle body hcut at_ tag rest hread _ hkind next =>
    obtain ⟨_, ⟨⟩, hscan⟩ := bind_eq_ok_iff.1 hscan
    obtain ⟨others, -, hscan⟩ := bind_eq_ok_iff.1 hscan
    cases hscan
    have hmarks := (hkinds (ofTag marks at_ tag) (by simp)).2
    exact absurd (beq_iff_eq.1 hkind) hmarks
  | case6 marks p text _ before needle body hcut at_ tag rest hread _ hkind =>
    rename_i ih
    obtain ⟨_, ⟨⟩, hscan⟩ := bind_eq_ok_iff.1 hscan
    obtain ⟨others, hothers, hscan⟩ := bind_eq_ok_iff.1 hscan
    cases hscan
    obtain ⟨inner, hinner, hslice, hbody, hpieces⟩ := pieces_tag hcut hread hothers
    obtain ⟨hkind, hmore⟩ := List.forall_mem_cons.1 (List.forall_mem_append.1 hkinds).2
    have htag : (ofTag marks (p.advance before) tag).isTag = true := by
      obtain ⟨htext, hending, -⟩ := Tag.shape_of_read hread
      simp [isTag, ofTag, htext, hending]
    have hinside : (ofTag marks (p.advance before) tag).inside
        (marks.opening.toList ++ inner ++ marks.closing.toList) = inner := inside_eq
    rw [hpieces] at hclears
    obtain ⟨hclear, hrest⟩ := hclears.of_append
    have hheld : ∀ c ∈ d.opening.toList ++ d.closing.toList, c ∉ before ∧ c ∉ inner ∧ c ∉ rest := by
      intro c hc
      have hmem := hnew c hc
      rw [hslice] at hmem
      simp only [List.mem_append, not_or] at hmem
      exact ⟨hmem.1, hmem.2.2.1, hmem.2.2.2.2⟩
    have hsource : respelledAll d (pieces text
        (ofText marks p before ++ ofTag marks (p.advance before) tag :: others)) =
        before ++ (d.opening.toList ++ (inner ++ (d.closing.toList ++
          respelledAll d (pieces rest others)))) := by
      rw [hpieces, respelledAll_append, respelledAll_ofText, respelledAll, respelled, if_pos htag,
        hinside]
      simp
    rw [hsource]
    rw [hbody] at hread
    refine scanFrom_tag_respelled hopening hclosing hinner hread hkind
      (fun c hc => ⟨(hheld c hc).1, (hheld c hc).2.1⟩) (hinside ▸ hclear htag) fun q => ?_
    exact ih marks hothers hmore (fun c hc => (hheld c hc).2.2) hrest q

/-! ## White-space control -/

section

variable {R : Resemblance} {before before' after after' : List Token} {t t' : Token}

theorem isEmpty_congr (h : AllAlike R before before') : before.isEmpty = before'.isEmpty := by
  cases h <;> rfl

theorem blankBefore_congr (h : AllAlike R before before') :
    blankBefore before = blankBefore before' := by
  cases h with
  | nil => rfl
  | cons ht hfurther => simp only [blankBefore, ht.kind, ht.value, isEmpty_congr hfurther]

theorem blankAfter_congr (h : AllAlike R after after') : blankAfter after = blankAfter after' := by
  cases h with
  | nil => rfl
  | cons ht hfurther => simp only [blankAfter, ht.kind, ht.value, isEmpty_congr hfurther]

theorem isAlone_congr (hbefore : AllAlike R before before') (ht : t.Alike R t')
    (hafter : AllAlike R after after') : isAlone before t after = isAlone before' t' after' := by
  simp only [isAlone, ht.kind, blankBefore_congr hbefore, blankAfter_congr hafter]

/-- What is left of a text depends on what the tokens around it say. -/
theorem trimmed_congr (hbefore : AllAlike R before before') (ht : t.Alike R t')
    (hafter : AllAlike R after after') : trimmed before t after = trimmed before' t' after' := by
  unfold trimmed
  cases hbefore with
  | nil =>
    cases hafter with
    | nil => simp only [ht.value]
    | cons hnext hfurther =>
      simp only [ht.value, hnext.trimsBefore, isAlone_congr (.cons ht .nil) hnext hfurther]
  | cons hlast hearlier =>
    cases hafter with
    | nil =>
      simp only [ht.value, hlast.trimsAfter, isAlone_congr hearlier hlast (.cons ht .nil)]
    | cons hnext hfurther =>
      simp only [ht.value, hlast.trimsAfter, hnext.trimsBefore,
        isAlone_congr hearlier hlast (.cons ht (.cons hnext hfurther)),
        isAlone_congr (.cons ht (.cons hlast hearlier)) hnext hfurther]

/-- White-space control leaves tokens alike, by induction on the tokens that are left. -/
theorem trimFrom_alike {tokens tokens' : List Token} (hbefore : AllAlike R before before')
    (h : AllAlike R tokens tokens') :
    AllAlike R (trimFrom before tokens) (trimFrom before' tokens') := by
  induction h generalizing before before' with
  | nil => exact .nil
  | cons ht hafter ih =>
    have hothers := ih (.cons ht hbefore)
    rw [trimFrom, trimFrom]
    dsimp only
    rw [ht.kind, trimmed_congr hbefore ht hafter]
    split
    · split
      · exact hothers
      · exact .cons ⟨rfl, rfl, ht.trimsBefore, ht.trimsAfter, ht.position, ht.delimiters⟩ hothers
    · exact .cons ht hothers

end

end Token

/-- A source that scans into texts and tags without braces of their own and without changes of
delimiters says the same between other delimiters that hold none of its characters: its tokens are
the same after white-space control, apart from their places and the delimiters they record, and it
compiles to the same tree, apart from places and delimiters, or fails for the same cause. What the
new delimiters put behind a tag must not turn it into another one. -/
theorem Template.ofSource_respelled {file source : String} {tokens : List Token} {d : Delimiters}
    (hscan : Token.scan file .standard source = .ok tokens)
    (hkinds : ∀ t ∈ tokens, t.kind ≠ .triple ∧ t.kind ≠ .delimiters) (hopening : d.opening ≠ "")
    (hclosing : d.closing ≠ "")
    (hnew : ∀ c ∈ d.opening.toList ++ d.closing.toList, c ∉ source.toList)
    (hclears : Token.Clears d (Token.pieces source.toList tokens))
    (helperOf : String → Option Helper) :
    (∃ found found', Token.ofSource file .standard source = .ok found ∧
      Token.ofSource file d (Token.respelledSource d source tokens) = .ok found' ∧
      Token.AllAlike .spelling found found') ∧
    Agree (Failure.Alike .spelling) (Template.Alike .spelling)
      (ofSource helperOf .standard file source)
      (ofSource helperOf d file (Token.respelledSource d source tokens)) := by
  obtain ⟨tokens', hscan', halike⟩ := Token.scanFrom_respelled (by simpa using hopening)
    (by simpa using hclosing) hscan hkinds hnew hclears .start
  have htokens : Token.ofSource file .standard source =
      .ok (Token.trimFrom [] tokens ++ [Token.ending source]) := by
    rw [Token.ofSource, hscan]
    rfl
  have htokens' : Token.ofSource file d (Token.respelledSource d source tokens) =
      .ok (Token.trimFrom [] tokens' ++ [Token.ending (Token.respelledSource d source tokens)]) := by
    rw [Token.ofSource, Token.scan, Token.respelledSource, String.toList_ofList, hscan']
    rfl
  have hall : Token.AllAlike .spelling
      (Token.trimFrom [] tokens ++ [Token.ending source])
      (Token.trimFrom [] tokens' ++ [Token.ending (Token.respelledSource d source tokens)]) :=
    List.rel_append (Token.trimFrom_alike .nil halike)
      (.cons ⟨rfl, rfl, rfl, rfl, False.elim, False.elim⟩ .nil)
  refine ⟨⟨_, _, htokens, htokens', hall⟩, ?_⟩
  refine ofSource_agree_of_tokens (fun _ => rfl) ?_
  rw [htokens, htokens']
  exact .ok hall

/-- A choice between two texts: a section with an else clause, a tilde and a comment. -/
def Token.choice : String :=
  "\x7b\x7b#if a\x7d\x7d x \x7b\x7b~else\x7d\x7d\x7b\x7b! no \x7d\x7dy\x7b\x7b/if\x7d\x7d\n"

/-- The tokens of the choice. -/
def Token.choiceTokens : List Token :=
  [⟨.opening, "if a", ⟨0, 1, 1⟩, .standard, false, false⟩,
    ⟨.text, " x ", ⟨9, 1, 10⟩, .standard, false, false⟩,
    ⟨.otherwise .word, "", ⟨12, 1, 13⟩, .standard, true, false⟩,
    ⟨.comment, " no ", ⟨21, 1, 22⟩, .standard, false, false⟩,
    ⟨.text, "y", ⟨30, 1, 31⟩, .standard, false, false⟩,
    ⟨.closing, "if", ⟨31, 1, 32⟩, .standard, false, false⟩,
    ⟨.text, "\n", ⟨38, 1, 39⟩, .standard, false, false⟩]

theorem Template.ofSource_respelled_choice :
    (∃ found found', Token.ofSource "" .standard Token.choice = .ok found ∧
      Token.ofSource "" ⟨"<%", "%>"⟩ "<%#if a%> x <%~else%><%! no %>y<%/if%>\n" = .ok found' ∧
      Token.AllAlike .spelling found found') ∧
    Agree (Failure.Alike .spelling) (Template.Alike .spelling)
      (ofSource (fun _ => none) .standard "" Token.choice)
      (ofSource (fun _ => none) ⟨"<%", "%>"⟩ "" "<%#if a%> x <%~else%><%! no %>y<%/if%>\n") := by
  have hscan : Token.scan "" .standard Token.choice = .ok Token.choiceTokens := by decide +kernel
  have hsource : Token.respelledSource ⟨"<%", "%>"⟩ Token.choice Token.choiceTokens =
      "<%#if a%> x <%~else%><%! no %>y<%/if%>\n" := by decide +kernel
  have hkinds : ∀ t ∈ Token.choiceTokens, t.kind ≠ .triple ∧ t.kind ≠ .delimiters := by
    simp [Token.choiceTokens]
  have hclears : Token.Clears ⟨"<%", "%>"⟩ (Token.pieces Token.choice.toList Token.choiceTokens) :=
    .of_first ⟨'%', ['>'], rfl, by decide, by decide⟩ _
  rw [← hsource]
  exact ofSource_respelled hscan hkinds (by decide) (by decide) (by simp [Token.choice]) hclears _

/-- Between tildes two tags side by side are cut in another way: the tilde that opens the second one
is taken for the mark of the first. -/
theorem Token.tildes_not_scanned :
    ∃ tokens, scan "" .standard "\x7b\x7ba\x7d\x7d\x7b\x7bb\x7d\x7d" = .ok tokens ∧
      (∀ t ∈ tokens, t.kind = .plain) ∧ '~' ∉ "\x7b\x7ba\x7d\x7d\x7b\x7bb\x7d\x7d".toList ∧
      respelledSource ⟨"~", "~"⟩ "\x7b\x7ba\x7d\x7d\x7b\x7bb\x7d\x7d" tokens = "~a~~b~" ∧
      ofSource "" ⟨"~", "~"⟩ "~a~~b~" = .error (.scan ⟨"", 1, 6⟩ (.unclosedTag "~")) := by
  refine ⟨[⟨.plain, "a", ⟨0, 1, 1⟩, .standard, false, false⟩,
    ⟨.plain, "b", ⟨5, 1, 6⟩, .standard, false, false⟩], ?_, ?_, ?_, ?_, ?_⟩
  · decide +kernel
  · simp
  · simp
  · decide +kernel
  · decide +kernel

end Stencil
