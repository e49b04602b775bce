import Stencil.Proofs.Source.RoundTrip

/-!
# Tags with nothing but an expression

A tag that begins with no mark holds an expression, whatever characters the expression is made of. A
source of one such tag is cut into this tag and the end, and compiled to one output node.
-/

namespace Stencil

namespace Tag

/-- The characters that make a tag another kind of tag when they come first. -/
def firstMarks : List Char := ['#', '^', '/', '>', '!', '&', '~', '\x7b', '=']

/-- The content of a tag that holds an expression and nothing else. -/
structure Plain (cs : List Char) : Prop where
  closable : Closable cs
  nonempty : cs ≠ []
  unmarked : ∀ c ∈ cs.head?, c ∉ firstMarks
  first : ∀ c ∈ cs.head?, Text.isBlank c = false
  last : ∀ c ∈ cs.getLast?, Text.isBlank c = false
  noElse : elseExpression? cs = none

namespace Plain

variable {cs : List Char}

theorem classify_eq (h : Plain cs) : classify cs = .ok (.plain, cs) := by
  have htrim := Text.trimBoth_eq_self h.first h.last
  obtain ⟨c, rest, rfl⟩ := List.exists_cons_of_ne_nil h.nonempty
  have hmarks := h.unmarked c rfl
  simp only [firstMarks, List.mem_cons, List.not_mem_nil, or_false, not_or] at hmarks
  obtain ⟨hsection, hcaret, hslash, harrow, hcomment, hampersand, -⟩ := hmarks
  have hkind : sigilKind? c = none := by
    unfold sigilKind?
    split
    all_goals first | rfl | contradiction
  have hbeq {d : Char} (hne : ¬c = d) : (c == d) = false := by simpa using hne
  unfold classify
  rw [htrim]
  simp only [hbeq hsection, hbeq hcaret, hbeq hcomment, hkind, h.noElse, Bool.false_and,
    Bool.false_eq_true, if_false]
  rfl

/-- The tag is read up to its closing delimiter. -/
theorem read_eq (h : Plain cs) (rest : List Char) :
    Tag.read .standard (cs ++ '\x7d' :: '\x7d' :: rest) =
      .ok (⟨.plain, cs, false, false⟩, rest) := by
  have hclassify := h.classify_eq
  have hclosable := h.closable
  obtain ⟨c, more, rfl⟩ := List.exists_cons_of_ne_nil h.nonempty
  have hmarks := h.unmarked c rfl
  simp only [firstMarks, List.mem_cons, List.not_mem_nil, or_false, not_or] at hmarks
  obtain ⟨-, -, -, -, hcomment, -, htilde, hbrace, hequals⟩ := hmarks
  have hdashes : ¬['!', '-', '-'] <+: c :: more := by
    intro hprefix
    exact hcomment (List.cons_prefix_cons.1 hprefix).1.symm
  exact read_content ⟨htilde, hbrace, hequals⟩ hdashes hclosable hclassify rest

end Plain

end Tag

/-- A source of one tag with an expression has this tag and the end for its tokens. -/
theorem Token.ofSource_plain {expression : String} (h : Tag.Plain expression.toList)
    (file : String) : ofSource file .standard (Delimiters.standard.enclose expression) =
      .ok [.of .plain expression, ending (Delimiters.standard.enclose expression)] := by
  have hsource : (Delimiters.standard.enclose expression).toList =
      [] ++ '\x7b' :: '\x7b' :: (expression.toList ++ '\x7d' :: '\x7d' :: []) := by
    simp [Delimiters.enclose, Delimiters.standard]
  have hcut := cut?_opening List.not_mem_nil (expression.toList ++ '\x7d' :: '\x7d' :: [])
  have hscan : scan file .standard (Delimiters.standard.enclose expression) =
      .ok [.of .plain expression] := by
    rw [scan, hsource, scanFrom_step hcut (h.read_eq []) (by simp),
      scanFrom_text file _ List.not_mem_nil]
    simp [Except.map, ofText, ofTag, of]
  rw [ofSource, hscan]
  rfl

namespace Template

/-- A tag whose expression is read as a name with arguments is compiled to one output node. -/
theorem ofSource_of_tokens {helperOf : String → Option Helper} {file expression name : String}
    {found : Location → Arguments} {t : Token} (hkind : t.kind = .plain)
    (hvalue : t.value = expression) (hmarks : t.delimiters = .standard)
    (htokens : Token.ofSource file .standard (Delimiters.standard.enclose expression) =
      .ok [t, Token.ending (Delimiters.standard.enclose expression)])
    (hparse : ∀ place, Expression.parse ⟨place, helperOf⟩ expression = .ok (name, found place))
    (hparams : ∀ place, (found place).blockParams = []) :
    ∃ place, ofSource helperOf .standard file (Delimiters.standard.enclose expression) = .ok {
      name := file, place := some ⟨file, 1, 1⟩,
      root := [.output (some place) .plain
        ⟨name, (found place).args, (found place).hash, helperOf name⟩ .standard] } := by
  have hleaf : Node.Reader.leaf ⟨file, helperOf⟩ t = .ok [.output (some (t.location file)) .plain
      ⟨name, (found (t.location file)).args, (found (t.location file)).hash, helperOf name⟩
      .standard] := by
    rw [Node.Reader.leaf, hkind]
    dsimp only
    rw [Node.Reader.outputNode, Node.Reader.binding, hvalue, hparse, hmarks]
    simp only [bind, Except.bind, hparams]
    rfl
  have hstop : Node.Reader.Stops
      (Token.ending (Delimiters.standard.enclose expression)).kind = true := rfl
  obtain ⟨hle, hread⟩ := Node.Reader.NodesRead.leaf (by rw [hkind]; rfl) hleaf
    (@Node.Reader.NodesRead.stop ⟨file, helperOf⟩ _ [] hstop)
  refine ⟨t.location file, ?_⟩
  rw [ofSource, htokens]
  change (Node.Reader.whole _ (t :: [_]) >>= _) = _
  rw [Node.Reader.whole, hread]
  rfl

/-- A source of one tag with an expression is compiled to one output node. -/
theorem ofSource_plain {helperOf : String → Option Helper} {expression name : String}
    {found : Location → Arguments} (h : Tag.Plain expression.toList) (file : String)
    (hparse : ∀ place, Expression.parse ⟨place, helperOf⟩ expression = .ok (name, found place))
    (hparams : ∀ place, (found place).blockParams = []) :
    ∃ place, ofSource helperOf .standard file (Delimiters.standard.enclose expression) = .ok {
      name := file, place := some ⟨file, 1, 1⟩,
      root := [.output (some place) .plain
        ⟨name, (found place).args, (found place).hash, helperOf name⟩ .standard] } := by
  exact ofSource_of_tokens rfl rfl rfl (Token.ofSource_plain h file) hparse hparams

end Template

end Stencil
