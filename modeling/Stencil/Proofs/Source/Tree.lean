import Stencil.Proofs.Node.Reading
import Stencil.Proofs.Source.Arguments
import Stencil.Proofs.Source.Trimming

/-!
# Trees in source

The tokens that a tree is written as. What is written for a normal tree is written for these tokens,
and they are scanned as they stand.
-/

namespace Stencil

/-- A text in quotes as an argument. -/
def Param.quote (s : String) : Param := .literal ("\"" ++ s ++ "\"") (.text s)

namespace Node

/-- The kind of the opening tag of a section. -/
def openingKind (head : BlockHead) : TokenKind := if head.inverted then .inverted else .opening

mutual

/-- The tokens that a node is written as. -/
def tokens : Node → List Token
  | text _ content => [.of .text content]
  | comment _ content _ => [.of .comment content]
  | output _ style call _ =>
    [.of (outputKind style) (Expression.written call.name call.args call.hash [])]
  | block head body inverse =>
    .of (openingKind head)
        (Expression.written head.call.name head.call.args head.call.hash head.blockParams) ::
      ((match body with
        | some nodes => tokensAll nodes
        | none => []) ++
      ((match inverse with
        | some nodes => .of (.otherwise head.label) "" :: tokensAll nodes
        | none => []) ++ [.of .closing head.call.name]))
  | inlinePartial _ name body _ =>
    .of .inline (Expression.written "inline" [Param.quote name] [] []) ::
      (tokensAll body ++ [.of .closing "inline"])
  | inclusion _ name args hash _ => [.of .inclusion (Expression.written name args hash [])]

/-- The tokens that nodes are written as, one after the other. -/
def tokensAll : List Node → List Token
  | [] => []
  | n :: rest => tokens n ++ tokensAll rest

end

theorem tokensAll_eq (nodes : List Node) : tokensAll nodes = nodes.flatMap tokens := by
  induction nodes with
  | nil => rw [tokensAll, List.flatMap_nil]
  | cons n rest ih => rw [tokensAll, ih, List.flatMap_cons]

/-- The tokens of an else clause. -/
def inverseTokens (head : BlockHead) (inverse : Option (List Node)) : List Token :=
  inverse.elim [] fun nodes => .of (.otherwise head.label) "" :: tokensAll nodes

theorem tokens_block (head : BlockHead) (body inverse : Option (List Node)) :
    tokens (.block head body inverse) =
      .of (openingKind head)
          (Expression.written head.call.name head.call.args head.call.hash head.blockParams) ::
        (tokensAll (body.getD []) ++
          (inverseTokens head inverse ++ [.of .closing head.call.name])) := by
  cases body <;> cases inverse <;>
    simp only [tokens, tokensAll, inverseTokens, Option.getD, Option.elim]

theorem source_block (head : BlockHead) (body inverse : Option (List Node)) :
    source (.block head body inverse) =
      head.openingTag ++ sources (body.getD []) ++
        (inverse.elim "" fun nodes => head.elseTag ++ sources nodes) ++ head.closingTag := by
  cases body <;> cases inverse <;> simp only [source, sources, Option.getD, Option.elim]

/-- A tag is written between its delimiters. -/
theorem enclose_toList {kind : TokenKind} (hkind : kind ≠ .text) {inner value : String}
    (h : inner.toList = kind.sigil ++ (value.toList ++ kind.trailer)) :
    (Delimiters.standard.enclose inner).toList = Token.written (.of kind value) := by
  rw [Delimiters.enclose, String.toList_append, String.toList_append, h, Token.written,
    if_neg (by exact hkind), Token.inner, List.append_assoc, List.append_assoc, List.append_assoc]
  rfl

/-- A tag with nothing behind its value is written as its sigil and its value. -/
theorem enclose_sigil {kind : TokenKind} (hkind : kind ≠ .text) (htrailer : kind.trailer = [])
    {sigil : String} (hsigil : sigil.toList = kind.sigil) (value : String) :
    (Delimiters.standard.enclose (sigil ++ value)).toList = Token.written (.of kind value) := by
  refine enclose_toList hkind ?_
  rw [String.toList_append, hsigil, htrailer, List.append_nil]

theorem sources_toList {nodes : List Node}
    (h : ∀ n ∈ nodes, n.source.toList = Token.writtenAll n.tokens) :
    (sources nodes).toList = Token.writtenAll (tokensAll nodes) := by
  induction nodes with
  | nil =>
    rw [sources, tokensAll]
    rfl
  | cons n rest ih =>
    rw [sources, String.toList_append, h n List.mem_cons_self,
      ih fun m hm => h m (List.mem_cons_of_mem _ hm), tokensAll, Token.writtenAll, Token.writtenAll,
      Token.writtenAll, List.flatMap_append]

theorem written_nil (name : String) (args : List Param) (hash : HashParams) :
    Expression.written name args hash [] = name ++ Param.tailText args hash :=
  String.append_empty

theorem written_inline (name : String) :
    "#*" ++ Expression.written "inline" [Param.quote name] [] [] =
      "#*inline \"" ++ name ++ "\"" := by
  have htext : (Param.quote name).text = "\"" ++ name ++ "\"" := by rw [Param.quote, Param.text]
  have hne : ∀ p ∈ [Param.quote name], p.text ≠ "" := by
    rw [List.forall_mem_singleton, htext]
    intro hempty
    have hlength := congrArg String.length hempty
    simp at hlength
  apply String.toList_inj.1
  rw [String.toList_append, written_nil, String.toList_append, Param.tailText_toList hne,
    List.map_singleton, htext, String.toList_append, String.toList_append]
  simp only [Param.spacedAll, List.flatMap_singleton, List.map_nil, List.flatMap_nil,
    List.append_nil, String.toList_append]
  rfl

theorem openingTag_toList {head : BlockHead} (hmarks : head.delimiters = .standard) :
    head.openingTag.toList = Token.written (.of (openingKind head)
      (Expression.written head.call.name head.call.args head.call.hash head.blockParams)) := by
  have hinner : head.sigil ++ head.call.name ++ Param.tailText head.call.args head.call.hash ++
      BlockHead.paramsText head.blockParams = head.sigil ++
        Expression.written head.call.name head.call.args head.call.hash head.blockParams := by
    rw [Expression.written]
    simp only [String.append_assoc]
  rw [BlockHead.openingTag, hmarks]
  change (Delimiters.standard.enclose (head.sigil ++ head.call.name ++ Param.tailText head.call.args
    head.call.hash ++ BlockHead.paramsText head.blockParams)).toList = _
  rw [hinner, BlockHead.sigil, openingKind]
  split
  · exact enclose_sigil (by decide) rfl rfl _
  · exact enclose_sigil (by decide) rfl rfl _

theorem elseTag_toList {head : BlockHead} (hmarks : head.delimiters = .standard) :
    head.elseTag.toList = Token.written (.of (.otherwise head.label) "") := by
  rw [BlockHead.elseTag, hmarks]
  exact enclose_toList (by exact nofun) (List.append_nil _).symm

theorem closingTag_toList {head : BlockHead} (hmarks : head.delimiters = .standard) :
    head.closingTag.toList = Token.written (.of .closing head.call.name) := by
  rw [BlockHead.closingTag, hmarks]
  exact enclose_sigil (by decide) rfl rfl _

/-- A normal node is written as its tokens are. -/
theorem Normal.source_toList {n : Node} (h : Normal n) :
    n.source.toList = Token.writtenAll n.tokens := by
  induction h with
  | text => simp [source, tokens, Token.writtenAll, Token.written, Token.of]
  | comment =>
    rw [source, tokens, Token.writtenAll, List.flatMap_singleton]
    exact enclose_sigil (by decide) rfl rfl _
  | @output place style call =>
    rw [source, tokens, Token.writtenAll, List.flatMap_singleton, written_nil]
    cases style with
    | plain => exact enclose_toList (by decide) (List.append_nil _).symm
    | ampersand => exact enclose_sigil (by decide) rfl rfl _
    | triple =>
      refine enclose_toList (by decide) ?_
      rw [OutputStyle.inner, String.toList_append, String.toList_append, List.append_assoc]
      rfl
  | @block head body inverse hname hargs hparams hlabel hmarks _ _ _ _ hbody hinverse =>
    have hclause : (inverse.elim "" fun nodes => head.elseTag ++ sources nodes).toList =
        Token.writtenAll (inverseTokens head inverse) := by
      cases inverse with
      | none => rfl
      | some nodes =>
        change (head.elseTag ++ sources nodes).toList = _
        have hnodes : (sources nodes).toList = Token.writtenAll (tokensAll nodes) :=
          sources_toList hinverse
        rw [String.toList_append, elseTag_toList hmarks, hnodes]
        rfl
    rw [source_block, tokens_block, String.toList_append, String.toList_append,
      String.toList_append, openingTag_toList hmarks, sources_toList hbody, hclause,
      closingTag_toList hmarks]
    simp only [Token.writtenAll, List.flatMap_cons, List.flatMap_append, List.flatMap_nil,
      List.append_assoc, List.append_nil]
  | @inlinePartial place name body hname _ _ hbody =>
    have hopening : (Delimiters.standard.enclose ("#*inline \"" ++ name ++ "\"")).toList =
        Token.written (.of .inline (Expression.written "inline" [Param.quote name] [] [])) := by
      rw [← written_inline]
      exact enclose_sigil (by decide) rfl rfl _
    have hclosing : (Delimiters.standard.enclose "/inline").toList =
        Token.written (.of .closing "inline") := rfl
    rw [source, tokens, String.toList_append, String.toList_append, sources_toList hbody, hopening,
      hclosing]
    simp only [Token.writtenAll, List.flatMap_cons, List.flatMap_append, List.flatMap_nil,
      List.append_assoc, List.append_nil]
  | @inclusion place name args hash =>
    rw [source, tokens, Token.writtenAll, List.flatMap_singleton, written_nil, String.append_assoc]
    exact enclose_sigil (by decide) rfl rfl _

/-- Only the name `else` makes an else tag of an expression. -/
theorem elseExpression?_written {name : String} {args : List Param} {hash : HashParams}
    (hname : isPlainName name = true) (hargs : Param.AllNormal args hash) (helse : name ≠ "else") :
    Tag.elseExpression? (Expression.written name args hash []).toList = none := by
  obtain ⟨-, -, htail⟩ := Param.legible_tail (fun p hp => (hargs.args p hp).legible) hargs.keys
    fun e he => (hargs.hash e he).legible
  obtain ⟨c, cs, hs, -, hchars⟩ := exists_of_isPlainName hname
  rw [written_nil, String.toList_append, hs]
  generalize (Param.tailText args hash).toList = tail at htail
  have hword (d : Char) (rest : List Char) (hd : Item.isWordChar d = true) : tail ≠ d :: rest := by
    rintro rfl
    exact Bool.false_ne_true ((htail d rfl).1.symm.trans hd)
  rw [Tag.elseExpression?]
  split
  · rename_i htake
    have hchars4 : "else".toList = ['e', 'l', 's', 'e'] := rfl
    rw [beq_iff_eq, hchars4] at htake
    -- The arguments begin within the first four characters, or the name goes on behind them.
    rcases cs with _ | ⟨c2, _ | ⟨c3, _ | ⟨c4, _ | ⟨c5, more⟩⟩⟩⟩
    · cases tail with
      | nil => simp at htake
      | cons d rest =>
        simp only [List.cons_append, List.nil_append, List.take_succ_cons, List.cons.injEq] at htake
        exact absurd (by rw [htake.2.1]) (hword 'l' rest rfl)
    · cases tail with
      | nil => simp at htake
      | cons d rest =>
        simp only [List.cons_append, List.nil_append, List.take_succ_cons, List.cons.injEq] at htake
        exact absurd (by rw [htake.2.2.1]) (hword 's' rest rfl)
    · cases tail with
      | nil => simp at htake
      | cons d rest =>
        simp only [List.cons_append, List.nil_append, List.take_succ_cons, List.cons.injEq] at htake
        exact absurd (by rw [htake.2.2.2.1]) (hword 'e' rest rfl)
    · simp only [List.cons_append, List.take_succ_cons, List.take_zero] at htake
      rw [← hs, ← hchars4] at htake
      exact absurd (String.toList_inj.1 htake) helse
    · have hblank : Text.isBlank c5 = false := not_isBlank_of_isNameChar (hchars c5 (by simp))
      simp [hblank]
  · rfl

theorem legible_expression {kind : TokenKind} {name : String} {args : List Param}
    {hash : HashParams} {names : List String} (hkind : kind.holdsExpression = true)
    (hname : isPlainName name = true) (hargs : Param.AllNormal args hash)
    (hnames : ∀ other ∈ names, isPlainName other = true)
    (helse : kind = .plain → names = [] ∧ name ≠ "else") :
    Token.Legible (.of kind (Expression.written name args hash names)) := by
  refine .expression hkind (Expression.written_legible hname hargs hnames).2
    (Expression.written_head args hash names hname) ?_
  intro hplain
  obtain ⟨rfl, hne⟩ := helse hplain
  exact elseExpression?_written hname hargs hne

theorem legible_closing {name : String} (hname : isPlainName name = true) :
    Token.Legible (.of .closing name) := by
  obtain ⟨c, cs, hs, hstart, -⟩ := exists_of_isPlainName hname
  exact .expression rfl (.of_bare (BareWord.of_isPlainName hname).2) ⟨c, cs, hs, hstart⟩ nofun

/-- The name of an inline partial makes a normal argument. -/
theorem NormalInlineName.normal {name : String} (h : NormalInlineName name) :
    (Param.quote name).Normal := by
  refine .quoted (Literal.ofText_quoted h.unescaped) (Item.scan_quoted h.unquoted h.unescaped) ?_
  refine .of_isChain ?_
  rw [Text.toList_inQuotes]
  exact List.isChain_cons.2 ⟨fun _ _ hab => absurd hab.1 (by decide),
    List.isChain_append.2 ⟨h.unclosed.isChain, .singleton '"',
      fun _ _ b hb hab => absurd (Option.mem_some.1 hb ▸ hab.2) (by decide)⟩⟩

theorem NormalInlineName.allNormal {name : String} (h : NormalInlineName name) :
    Param.AllNormal [Param.quote name] [] :=
  ⟨List.forall_mem_singleton.2 h.normal, List.forall_mem_nil _, List.forall_mem_nil _⟩

theorem legible_tokensAll {nodes : List Node} (h : ∀ n ∈ nodes, ∀ t ∈ n.tokens, Token.Legible t) :
    ∀ t ∈ tokensAll nodes, Token.Legible t := by
  intro t ht
  rw [tokensAll_eq] at ht
  obtain ⟨n, hn, ht⟩ := List.mem_flatMap.1 ht
  exact h n hn t ht

/-- Normal nodes are written as legible tokens. -/
theorem Normal.legible {n : Node} (h : Normal n) : ∀ t ∈ n.tokens, Token.Legible t := by
  induction h with
  | text h =>
    rw [tokens, List.forall_mem_singleton]
    exact .text h
  | comment h =>
    rw [tokens, List.forall_mem_singleton]
    exact .comment h
  | @output place style call hname hargs helse =>
    rw [tokens, List.forall_mem_singleton]
    cases style with
    | plain =>
      exact legible_expression rfl hname hargs (List.forall_mem_nil _) fun _ => ⟨rfl, helse rfl⟩
    | ampersand => exact legible_expression rfl hname hargs (List.forall_mem_nil _) nofun
    | triple => exact legible_expression rfl hname hargs (List.forall_mem_nil _) nofun
  | @block head body inverse hname hargs hparams _ _ _ _ _ _ hbody hinverse =>
    have hopening : Token.Legible (.of (openingKind head)
        (Expression.written head.call.name head.call.args head.call.hash head.blockParams)) := by
      unfold openingKind
      split
      · exact legible_expression rfl hname hargs hparams nofun
      · exact legible_expression rfl hname hargs hparams nofun
    have hclause : ∀ t ∈ inverseTokens head inverse, Token.Legible t := by
      cases inverse with
      | none => exact nofun
      | some nodes =>
        exact List.forall_mem_cons.2 ⟨.otherwise head.label, legible_tokensAll hinverse⟩
    rw [tokens_block, List.forall_mem_cons, List.forall_mem_append, List.forall_mem_append,
      List.forall_mem_singleton]
    exact ⟨hopening, legible_tokensAll hbody, hclause, legible_closing hname⟩
  | inlinePartial hname _ _ hbody =>
    rw [tokens, List.forall_mem_cons, List.forall_mem_append, List.forall_mem_singleton]
    exact ⟨legible_expression rfl (by decide) hname.allNormal (List.forall_mem_nil _) nofun,
      legible_tokensAll hbody, legible_closing (by decide)⟩
  | inclusion hname hargs =>
    rw [tokens, List.forall_mem_singleton]
    exact legible_expression rfl hname hargs (List.forall_mem_nil _) nofun

theorem tokens_ne_nil (n : Node) : n.tokens ≠ [] := by
  cases n with
  | block head body inverse =>
    rw [tokens_block]
    exact List.cons_ne_nil _ _
  | text | comment | output | inlinePartial | inclusion =>
    rw [tokens]
    exact List.cons_ne_nil _ _

theorem outputKind_ne_text (style : OutputStyle) : outputKind style ≠ .text := by
  cases style <;> exact nofun

theorem openingKind_ne_text (head : BlockHead) : openingKind head ≠ .text := by
  unfold openingKind
  split <;> exact nofun

/-- Where a tag stands there is no text. -/
theorem isText_of_tag {n : Node} {u : Token} (hu : u.kind ≠ .text) :
    ∀ t ∈ some u, t.kind = .text → n.isText = true := by
  intro t ht htext
  rw [← Option.mem_some.1 ht] at htext
  exact absurd htext hu

/-- Only a text is written with a text at its front. -/
theorem isText_of_head {n : Node} : ∀ t ∈ n.tokens.head?, t.kind = .text → n.isText = true := by
  cases n with
  | text => exact fun _ _ _ => rfl
  | comment | inlinePartial | inclusion =>
    rw [tokens]
    exact isText_of_tag (by exact nofun)
  | output place style call =>
    rw [tokens]
    exact isText_of_tag (outputKind_ne_text style)
  | block head body inverse =>
    rw [tokens_block]
    exact isText_of_tag (openingKind_ne_text head)

/-- Only a text is written with a text at its end. -/
theorem isText_of_last {n : Node} : ∀ t ∈ n.tokens.getLast?, t.kind = .text → n.isText = true := by
  cases n with
  | text => exact fun _ _ _ => rfl
  | comment | inclusion =>
    rw [tokens]
    exact isText_of_tag (by exact nofun)
  | output place style call =>
    rw [tokens]
    exact isText_of_tag (outputKind_ne_text style)
  | inlinePartial place name body =>
    rw [tokens, ← List.cons_append, List.getLast?_append]
    exact isText_of_tag (u := .of .closing "inline") (by exact nofun)
  | block head body inverse =>
    rw [tokens_block, ← List.append_assoc, ← List.cons_append, List.getLast?_append]
    exact isText_of_tag (u := .of .closing head.call.name) (by exact nofun)

/-- Tokens around a tag stay apart. -/
theorem apart_append_tag {before after : List Token} {t : Token} (hbefore : Token.Apart before)
    (ht : t.kind ≠ .text) (hafter : Token.Apart after) : Token.Apart (before ++ t :: after) := by
  refine List.isChain_append.2 ⟨hbefore, List.isChain_cons.2 ⟨fun _ _ h => ht h.1, hafter⟩, ?_⟩
  intro _ _ s hs h
  rw [← Option.mem_some.1 hs] at h
  exact ht h.2

theorem apart_tokensAll {nodes : List Node} (hnodes : ∀ n ∈ nodes, Token.Apart n.tokens)
    (hapart : Apart nodes) : Token.Apart (tokensAll nodes) := by
  induction nodes with
  | nil => exact .nil
  | cons n rest ih =>
    obtain ⟨hnext, hchain⟩ := List.isChain_cons.1 hapart
    rw [tokensAll]
    refine List.isChain_append.2 ⟨hnodes n List.mem_cons_self,
      ih (fun m hm => hnodes m (List.mem_cons_of_mem _ hm)) hchain, ?_⟩
    intro s hs t ht htexts
    cases rest with
    | nil => cases ht
    | cons m more =>
      have hm : t ∈ m.tokens.head? := by
        rw [tokensAll, List.head?_append_of_ne_nil _ (tokens_ne_nil m)] at ht
        exact ht
      exact hnext m rfl ⟨isText_of_last s hs htexts.1, isText_of_head t hm htexts.2⟩

/-- No two texts stand beside each other in what a normal node is written as. -/
theorem Normal.apart {n : Node} (h : Normal n) : Token.Apart n.tokens := by
  induction h with
  | text | comment | output | inclusion =>
    rw [tokens]
    exact .singleton _
  | @block head body inverse _ _ _ _ _ _ hbodyApart _ hinverseApart hbody hinverse =>
    have hopening : Token.Apart [] := .nil
    rw [tokens_block]
    refine apart_append_tag hopening (openingKind_ne_text head) ?_
    cases inverse with
    | none => exact apart_append_tag (apart_tokensAll hbody hbodyApart) (by exact nofun) .nil
    | some nodes =>
      refine apart_append_tag (apart_tokensAll hbody hbodyApart) (by exact nofun) ?_
      exact apart_append_tag (apart_tokensAll hinverse hinverseApart) (by exact nofun) .nil
  | inlinePartial _ _ hbodyApart hbody =>
    have hopening : Token.Apart [] := .nil
    rw [tokens]
    refine apart_append_tag hopening (by exact nofun) ?_
    exact apart_append_tag (apart_tokensAll hbody hbodyApart) (by exact nofun) .nil

end Node

end Stencil
