import Stencil.Proofs.Node.Reading
import Stencil.Proofs.Source.Expressions
import Stencil.Proofs.Source.Tree

/-!
# Trees read again

The tokens that a normal tree is written as are read as that tree, apart from places and bound
helpers.
-/

namespace Stencil

namespace Node.Reader

variable {r : Reader} {t stopper : Token} {body : List Node} {head : BlockHead} {name : String}

/-- What a placed token is, apart from its place. -/
theorem eq_of_unplaced {kind : TokenKind} {value : String} (h : t.unplaced = .of kind value) :
    t.kind = kind ∧ t.value = value ∧ t.delimiters = .standard := by
  cases t
  cases h
  exact ⟨rfl, rfl, rfl⟩

theorem leaf_output {style : OutputStyle} {args : List Param} {hash : HashParams}
    (h : t.unplaced = .of (outputKind style) (Expression.written name args hash []))
    (hname : isPlainName name = true) (hargs : Param.AllNormal args hash) :
    ∃ found, r.leaf t =
        .ok [.output (t.location r.file) style (r.invocation name found) .standard] ∧
      Expression.Says found args hash [] := by
  obtain ⟨hkind, hvalue, hmarks⟩ := eq_of_unplaced h
  obtain ⟨found, hparse, hsaid⟩ := Expression.parse_written (b := r.binding t) hname hargs
    (List.forall_mem_nil _)
  have houtput : r.outputNode t style =
      .ok (.output (t.location r.file) style (r.invocation name found) .standard) := by
    have hnone : (!found.blockParams.isEmpty) = false := by rw [hsaid.names]; rfl
    rw [outputNode, hvalue, hparse, hmarks]
    simp only [bind, Except.bind, hnone]
    rfl
  refine ⟨found, ?_, hsaid⟩
  rw [leaf, hkind]
  cases style with
  | plain | ampersand | triple =>
    dsimp only [outputKind]
    rw [houtput]
    rfl

theorem leaf_inclusion {args : List Param} {hash : HashParams}
    (h : t.unplaced = .of .inclusion (Expression.written name args hash []))
    (hname : isPlainName name = true) (hargs : Param.AllNormal args hash) (hone : args.length ≤ 1) :
    ∃ found, r.leaf t = .ok [.inclusion (t.location r.file) name found.args found.hash .standard] ∧
      Expression.Says found args hash [] := by
  obtain ⟨hkind, hvalue, hmarks⟩ := eq_of_unplaced h
  obtain ⟨found, ⟨_, hfound⟩, hsaid⟩ := Expression.arguments_written (b := r.binding t) hargs []
  have hitems := Expression.itemsOf_written hname hargs (List.forall_mem_nil _) (t.location r.file)
  have hinclusion : r.inclusionNode t =
      .ok (.inclusion (t.location r.file) name found.args found.hash .standard) := by
    have hlength := Expression.length_of_sameArgs hsaid.args
    have hfine : ¬ (!found.blockParams.isEmpty || decide (found.args.length > 1)) = true := by
      rw [hsaid.names, hlength]
      simpa using hone
    rw [inclusionNode, hvalue, hitems, hmarks]
    change (Expression.arguments (r.binding t) false false _ >>= _) = _
    rw [hfound]
    simp only [bind, Except.bind, if_neg hfine]
    rfl
  refine ⟨found, ?_, hsaid⟩
  rw [leaf, hkind]
  dsimp only
  rw [hinclusion]
  rfl

theorem inlineName_written
    (h : t.unplaced = .of .inline (Expression.written "inline" [Param.quote name] [] []))
    (hname : NormalInlineName name) : r.inlineName t = .ok name := by
  obtain ⟨-, hvalue, -⟩ := eq_of_unplaced h
  have hinline : isPlainName "inline" = true := by decide
  have hitems := Expression.itemsOf_written hinline hname.allNormal (List.forall_mem_nil _)
    (t.location r.file)
  have hbare : Expression.bareParam ("\"" ++ name ++ "\"") = .ok (Param.quote name) := by
    rw [Expression.bareParam, Literal.ofText_quoted hname.unescaped]
    rfl
  have hbegins : Expression.BeginsArgument [.quoted ("\"" ++ name ++ "\"")] := List.cons_ne_nil _ _
  have hread : Expression.ArgumentsRead (r.binding t) false false
      (Expression.itemsBehind [Param.quote name] [] []) { args := [Param.quote name] } [] :=
    .positional hbegins (.quoted hbare) .nil
  have hparse := Expression.parse_of_items hitems hread
  rw [inlineName, hvalue, hparse]
  rfl

/-- The tokens of a node are read as that node, in front of whatever is read behind them. -/
def ReadsBack (r : Reader) (n : Node) : Prop :=
  ∀ placed rest others last, placed.map Token.unplaced = n.tokens → NodesRead r rest others last →
    ∃ m, NodesRead r (placed ++ rest) (m :: others) last ∧ same m n.filled = true

/-- Nodes are read up to the token that ends them. -/
theorem reads_all {nodes : List Node} (h : ∀ n ∈ nodes, ReadsBack r n) {placed : List Token}
    (hplaced : placed.map Token.unplaced = tokensAll nodes) (hstop : Stops stopper.kind = true)
    (after : List Token) :
    ∃ found, NodesRead r (placed ++ stopper :: after) found (stopper :: after) ∧
      sameAll found (filledAll nodes) = true := by
  induction nodes generalizing placed with
  | nil =>
    rw [tokensAll, List.map_eq_nil_iff] at hplaced
    rw [hplaced, filledAll]
    exact ⟨[], .stop hstop, by rw [sameAll]⟩
  | cons n rest ih =>
    rw [tokensAll, List.map_eq_append_iff] at hplaced
    obtain ⟨front, back, rfl, hfront, hback⟩ := hplaced
    obtain ⟨others, hothers, hsameOthers⟩ := ih (fun m hm => h m (List.mem_cons_of_mem _ hm)) hback
    obtain ⟨m, hm, hsame⟩ := h n List.mem_cons_self front _ _ _ hfront hothers
    refine ⟨m :: others, ?_, ?_⟩
    · rw [List.append_assoc]
      exact hm
    · rw [filledAll, sameAll, hsame, hsameOthers]
      rfl

/-- A token by itself is read as its node. -/
theorem reads_leaf {n : Node} {kind : TokenKind} {value : String}
    (htokens : n.tokens = [.of kind value]) (hkind : IsLeaf kind = true)
    (h : ∀ t : Token, t.unplaced = .of kind value →
      ∃ m, r.leaf t = .ok [m] ∧ same m n.filled = true) : ReadsBack r n := by
  intro placed rest others last hplaced hrest
  rw [htokens] at hplaced
  obtain ⟨t, rfl, ht⟩ := List.map_eq_singleton_iff.1 hplaced
  obtain ⟨m, hleaf, hsame⟩ := h t ht
  refine ⟨m, .leaf ?_ hleaf hrest, hsame⟩
  rw [(eq_of_unplaced ht).1]
  exact hkind

/-- The head that is read says the same as the one that is written. -/
theorem sameHead_headOf {opener : Token} {args : Arguments} (hkind : opener.kind = openingKind head)
    (hmarks : opener.delimiters = head.delimiters)
    (hsaid : Expression.Says args head.call.args head.call.hash head.blockParams)
    (elsePlace : Option Location) :
    sameHead { headOf r opener (opener.kind == .inverted) head.call.name args with
      label := head.label, elsePlace } head = true := by
  have hinverted : (opener.kind == .inverted) = head.inverted := by
    rw [hkind, openingKind]
    cases head.inverted with
    | true => rfl
    | false => rfl
  simp only [sameHead, sameCall, headOf, invocation, hinverted, hmarks, hsaid.args, hsaid.hash,
    hsaid.names, beq_self_eq_true, Bool.and_self]

theorem filled_block (head : BlockHead) (body inverse : Option (List Node)) :
    filled (.block head body inverse) =
      .block head (some (filledAll (body.getD []))) (inverse.map filledAll) := by
  cases body <;> cases inverse <;> simp only [filled, filledAll, Option.getD, Option.map]

/-- A section is read where it is written. -/
theorem reads_block {body inverse : Option (List Node)} (hname : isPlainName head.call.name = true)
    (hargs : Param.AllNormal head.call.args head.call.hash)
    (hparams : ∀ name ∈ head.blockParams, isPlainName name = true)
    (hlabel : inverse = none → head.label = .word) (hmarks : head.delimiters = .standard)
    (hbody : ∀ n ∈ body.getD [], ReadsBack r n) (hinverse : ∀ n ∈ inverse.getD [], ReadsBack r n) :
    ReadsBack r (.block head body inverse) := by
  intro placed rest others last hplaced hrest
  rw [tokens_block, List.map_eq_cons_iff] at hplaced
  -- The tokens are taken apart as they are written: opening tag, body, else clause, closing tag.
  obtain ⟨opener, placed, rfl, hopener, hplaced⟩ := hplaced
  obtain ⟨bodyPlaced, placed, rfl, hbodyPlaced, hplaced⟩ := List.map_eq_append_iff.1 hplaced
  obtain ⟨inversePlaced, placed, rfl, hinversePlaced, hplaced⟩ := List.map_eq_append_iff.1 hplaced
  obtain ⟨closer, rfl, hcloser⟩ := List.map_eq_singleton_iff.1 hplaced
  obtain ⟨hkind, hvalue, hdelimiters⟩ := eq_of_unplaced hopener
  obtain ⟨hcloserKind, hcloserValue, -⟩ := eq_of_unplaced hcloser
  have hopening : opener.kind = .opening ∨ opener.kind = .inverted := by
    rw [hkind, openingKind]
    split
    · exact .inr rfl
    · exact .inl rfl
  obtain ⟨args, hparse, hsaid⟩ :=
    Expression.parse_written (b := r.binding opener) hname hargs hparams
  rw [← hvalue] at hparse
  have hstop : Stops closer.kind = true := by rw [hcloserKind]; rfl
  have hhead := sameHead_headOf (r := r) hkind (hdelimiters.trans hmarks.symm) hsaid
  cases inverse with
  | none =>
    obtain rfl := List.map_eq_nil_iff.1 hinversePlaced
    obtain ⟨found, hfound, hsame⟩ := reads_all hbody hbodyPlaced hstop rest
    refine ⟨.block (headOf r opener (opener.kind == .inverted) head.call.name args) found none,
      ?_, ?_⟩
    · simp only [List.cons_append, List.append_assoc, List.nil_append]
      exact .section hopening (.plain hparse hfound hcloserKind) hcloserKind hcloserValue hrest
    · have hplain := hhead none
      rw [hlabel rfl] at hplain
      have hplain : sameHead (headOf r opener (opener.kind == .inverted) head.call.name args) head =
          true := hplain
      rw [filled_block, same, hsame, hplain]
      rfl
  | some nodes =>
    rw [inverseTokens, Option.elim, List.map_eq_cons_iff] at hinversePlaced
    obtain ⟨between, inversePlaced, rfl, hbetween, hinversePlaced⟩ := hinversePlaced
    obtain ⟨hbetweenKind, hbetweenValue, -⟩ := eq_of_unplaced hbetween
    have hends : Stops between.kind = true := by rw [hbetweenKind]; rfl
    obtain ⟨found, hfound, hsame⟩ :=
      reads_all hbody hbodyPlaced hends (inversePlaced ++ closer :: rest)
    obtain ⟨others', hothers, hsameOthers⟩ := reads_all hinverse hinversePlaced hstop rest
    refine ⟨.block { headOf r opener (opener.kind == .inverted) head.call.name args with
      label := head.label, elsePlace := between.location r.file } found (some others'), ?_, ?_⟩
    · simp only [List.cons_append, List.append_assoc, List.nil_append]
      exact .section hopening
        (.otherwise hparse hfound hbetweenKind hbetweenValue hothers hcloserKind) hcloserKind
        hcloserValue hrest
    · rw [filled_block, same, hsame, hhead]
      exact hsameOthers

/-- The definition of an inline partial is read where it is written. -/
theorem reads_inlinePartial {place : Option Location} (hname : NormalInlineName name)
    (hbody : ∀ n ∈ body, ReadsBack r n) :
    ReadsBack r (.inlinePartial place name body .standard) := by
  intro placed rest others last hplaced hrest
  rw [tokens, List.map_eq_cons_iff] at hplaced
  obtain ⟨opener, placed, rfl, hopener, hplaced⟩ := hplaced
  obtain ⟨bodyPlaced, placed, rfl, hbodyPlaced, hplaced⟩ := List.map_eq_append_iff.1 hplaced
  obtain ⟨closer, rfl, hcloser⟩ := List.map_eq_singleton_iff.1 hplaced
  obtain ⟨hkind, -, hmarks⟩ := eq_of_unplaced hopener
  obtain ⟨hcloserKind, hcloserValue, -⟩ := eq_of_unplaced hcloser
  have hstop : Stops closer.kind = true := by rw [hcloserKind]; rfl
  obtain ⟨found, hfound, hsame⟩ := reads_all hbody hbodyPlaced hstop rest
  refine ⟨.inlinePartial (opener.location r.file) name found opener.delimiters, ?_, ?_⟩
  · simp only [List.cons_append, List.append_assoc, List.nil_append]
    exact .inline hkind (inlineName_written hopener hname) hfound hcloserKind hcloserValue hrest
  · simp only [filled, same, hsame, hmarks, beq_self_eq_true, Bool.and_self]

/-- A normal node is read where it is written. -/
theorem reads_of_normal {n : Node} (h : n.Normal) : ReadsBack r n := by
  induction h with
  | @text place content =>
    refine reads_leaf (by rw [tokens]) rfl fun t ht => ?_
    obtain ⟨hkind, hvalue, -⟩ := eq_of_unplaced ht
    refine ⟨.text (t.location r.file) content, ?_, ?_⟩
    · rw [leaf, hkind, hvalue]
      rfl
    · simp only [filled, same, beq_self_eq_true]
  | @comment place content =>
    refine reads_leaf (by rw [tokens]) rfl fun t ht => ?_
    obtain ⟨hkind, hvalue, hmarks⟩ := eq_of_unplaced ht
    refine ⟨.comment (t.location r.file) content .standard, ?_, ?_⟩
    · rw [leaf, hkind, hvalue, hmarks]
      rfl
    · simp only [filled, same, beq_self_eq_true, Bool.and_self]
  | @output place style call hname hargs =>
    refine reads_leaf (by rw [tokens]) (by cases style <;> rfl) fun t ht => ?_
    obtain ⟨found, hleaf, hsaid⟩ := leaf_output (r := r) ht hname hargs
    refine ⟨_, hleaf, ?_⟩
    simp only [filled, same, sameCall, invocation, hsaid.args, hsaid.hash, beq_self_eq_true,
      Bool.and_self]
  | block hname hargs hparams hlabel hmarks _ _ _ _ hbody hinverse =>
    exact reads_block hname hargs hparams hlabel hmarks hbody hinverse
  | inlinePartial hname _ _ hbody => exact reads_inlinePartial hname hbody
  | @inclusion place name args hash hname hargs hone =>
    refine reads_leaf (by rw [tokens]) rfl fun t ht => ?_
    obtain ⟨found, hleaf, hsaid⟩ := leaf_inclusion (r := r) ht hname hargs hone
    refine ⟨_, hleaf, ?_⟩
    simp only [filled, same, hsaid.args, hsaid.hash, beq_self_eq_true, Bool.and_self]

end Node.Reader

namespace Template

/-- Parsing undoes writing. What is written for a normal template parses under its name to a tree
that says the same, where a section without a body gets an empty one. -/
theorem ofSource_source (helperOf : String → Option Helper) {t : Template} (h : t.Normal) :
    ∃ u, ofSource helperOf .standard t.name t.source = .ok u ∧ u.name = t.name ∧
      u.same t.filled = true ∧ (Node.Every Node.HasBody t.root → u.same t = true) := by
  have hsource : t.source.toList = Token.writtenAll (Node.tokensAll t.root) :=
    Node.sources_toList fun n hn => (h.nodes n hn).source_toList
  obtain ⟨placed, htokens, hplaced⟩ := Token.ofSource_written t.name
    (Node.legible_tokensAll fun n hn => (h.nodes n hn).legible)
    (Node.apart_tokensAll (fun n hn => (h.nodes n hn).apart) h.apart) hsource
  obtain ⟨root, ⟨_, hroot⟩, hsame⟩ := Node.Reader.reads_all (r := ⟨t.name, helperOf⟩)
    (fun n hn => Node.Reader.reads_of_normal (h.nodes n hn)) hplaced
    (show Node.Reader.Stops (Token.ending t.source).kind = true from rfl) []
  refine ⟨⟨t.name, root, some ⟨t.name, 1, 1⟩⟩, ?_, rfl, hsame, ?_⟩
  · rw [ofSource, htokens]
    change (Node.Reader.whole ⟨t.name, helperOf⟩ (placed ++ [Token.ending t.source]) >>= _) = _
    rw [Node.Reader.whole, hroot]
    rfl
  · intro hbodies
    have hfilled := hsame
    rw [Node.filledAll_of_hasBody hbodies] at hfilled
    exact hfilled

/-- A letter with a section, an inline partial and a partial that it renders. -/
def letter : Template where
  name := "letter"
  root := [
    .text none "Dear",
    .block
      { place := none, inverted := false, call := { name := "with", args := [.reference "user"] },
        blockParams := ["u"], label := .caret, elsePlace := none, delimiters := .standard }
      (some [.output none .triple { name := "u.name" } .standard])
      (some [.comment none " nobody " .standard]),
    .inlinePartial none "side bar" [.text none "..."] .standard,
    .inclusion none "side" [] [("title", .quote "a b")] .standard]

theorem letter_normal : letter.Normal := by
  have hnone : Param.AllNormal [] [] :=
    ⟨List.forall_mem_nil _, List.forall_mem_nil _, List.forall_mem_nil _⟩
  have huser : Param.AllNormal [.reference "user"] [] :=
    ⟨List.forall_mem_singleton.2 (.reference rfl (by decide)), List.forall_mem_nil _,
      List.forall_mem_nil _⟩
  have hquoted : (Param.quote "a b").Normal :=
    Node.NormalInlineName.normal ⟨by decide, by decide, .of_isChain (by decide)⟩
  have htitle : Param.AllNormal [] [("title", .quote "a b")] :=
    ⟨List.forall_mem_nil _, List.forall_mem_singleton.2 (by decide),
      List.forall_mem_singleton.2 hquoted⟩
  refine ⟨List.forall_mem_cons.2 ⟨?_, List.forall_mem_cons.2 ⟨?_, List.forall_mem_cons.2 ⟨?_,
    List.forall_mem_singleton.2 ?_⟩⟩⟩, by decide⟩
  · refine .text ⟨by decide, by decide, ?_, ?_⟩
    · rintro _ ⟨⟩
      rfl
    · rintro _ ⟨⟩
      rfl
  · refine .block (by decide) huser (by decide) (by rintro ⟨⟩) rfl ?_ (by decide) ?_ (by decide)
    · exact List.forall_mem_singleton.2 (.output (by decide) hnone (by rintro ⟨⟩))
    · exact List.forall_mem_singleton.2 (.comment ⟨by decide, by decide, by decide, by decide⟩)
  · refine .inlinePartial ⟨by decide, by decide, .of_isChain (by decide)⟩ ?_ (by decide)
    refine List.forall_mem_singleton.2 (.text ⟨by decide, by decide, ?_, ?_⟩)
    · rintro _ ⟨⟩
      rfl
    · rintro _ ⟨⟩
      rfl
  · exact .inclusion (by decide) htitle (by decide)

theorem ofSource_source_letter :
    ∃ u, ofSource (fun _ => none) .standard "letter" letter.source = .ok u ∧ u.name = "letter" ∧
      u.same letter = true := by
  obtain ⟨u, hu, hname, -, hsame⟩ := ofSource_source (fun _ => none) letter_normal
  refine ⟨u, hu, hname, hsame ?_⟩
  simp [letter, Node.Every.cons_iff, Node.children, Node.HasBody]

end Template

end Stencil
