import Stencil.Proofs.Source.Arguments

/-!
# Any text in quotes

A text is written as a literal with a backslash before each of its quotes and backslashes. However
these follow each other, the scanner finds the closing quote where it was put, and reading takes
away the backslashes that writing has added: first those before quotes, which leaves the text with
its own backslashes doubled, and then one of each two.
-/

namespace Stencil

namespace Text

/-- How a character stands between quotes. -/
def escapedChar (quote c : Char) : List Char :=
  if c == quote || c == '\\' then ['\\', c] else [c]

/-- How a text stands between quotes. -/
def escaped (quote : Char) (cs : List Char) : List Char := cs.flatMap (escapedChar quote)

variable {quote c : Char} {cs : List Char}

@[simp] theorem escaped_nil (quote : Char) : escaped quote [] = [] := rfl

theorem escaped_cons_special (h : c = quote ∨ c = '\\') :
    escaped quote (c :: cs) = '\\' :: c :: escaped quote cs := by
  simp [escaped, escapedChar, h]

theorem escaped_cons_plain (hquote : c ≠ quote) (hescape : c ≠ '\\') :
    escaped quote (c :: cs) = c :: escaped quote cs := by
  simp [escaped, escapedChar, hquote, hescape]

/-- No quote stands first without a backslash. -/
theorem head?_escaped (hquote : quote ≠ '\\') : (escaped quote cs).head? ≠ some quote := by
  cases cs with
  | nil => exact fun h => by cases h
  | cons c cs =>
    by_cases h : c = quote ∨ c = '\\'
    · rw [escaped_cons_special h]
      exact fun heq => hquote (Option.some.inj heq).symm
    · rw [not_or] at h
      rw [escaped_cons_plain h.1 h.2]
      exact fun heq => h.1 (Option.some.inj heq)

/-! ### What writing adds, reading takes away -/

theorem dropEscapes_escape (x : Char) (cs : List Char) :
    dropEscapes x ('\\' :: x :: cs) = x :: dropEscapes x cs := by
  rw [dropEscapes, if_pos (by simp)]

theorem dropEscapes_cons {x : Char} (h : c = '\\' → cs.head? ≠ some x) :
    dropEscapes x (c :: cs) = c :: dropEscapes x cs := by
  cases cs with
  | nil => rfl
  | cons d rest =>
    rw [dropEscapes, if_neg]
    rw [Bool.and_eq_true, beq_iff_eq, beq_iff_eq]
    rintro ⟨hc, rfl⟩
    exact h hc rfl

/-- Without the backslashes before quotes, only the backslashes of the text are escaped. -/
theorem dropEscapes_escaped (hquote : quote ≠ '\\') (cs : List Char) :
    dropEscapes quote (escaped quote cs) = escaped '\\' cs := by
  induction cs with
  | nil => rfl
  | cons c cs ih =>
    by_cases hc : c = quote
    · subst hc
      rw [escaped_cons_special (.inl rfl), dropEscapes_escape, escaped_cons_plain hquote hquote, ih]
    · by_cases hescape : c = '\\'
      · subst hescape
        -- Neither backslash stands before a quote: a quote has one of its own before it.
        have hfirst : ('\\' :: escaped quote cs).head? ≠ some quote :=
          fun heq => hc (Option.some.inj heq)
        rw [escaped_cons_special (.inr rfl), escaped_cons_special (.inr rfl),
          dropEscapes_cons fun _ => hfirst, dropEscapes_cons fun _ => head?_escaped hquote, ih]
      · rw [escaped_cons_plain hc hescape, escaped_cons_plain hescape hescape,
          dropEscapes_cons fun h => absurd h hescape, ih]

theorem dropEscapes_doubled (cs : List Char) : dropEscapes '\\' (escaped '\\' cs) = cs := by
  induction cs with
  | nil => rfl
  | cons c cs ih =>
    by_cases hescape : c = '\\'
    · subst hescape
      rw [escaped_cons_special (.inl rfl), dropEscapes_escape, ih]
    · rw [escaped_cons_plain hescape hescape, dropEscapes_cons fun h => absurd h hescape, ih]

end Text

namespace Item

variable {quote c d : Char} {cs : List Char}

theorem closeQuote?_quote (quote : Char) (rest : List Char) :
    closeQuote? quote (quote :: rest) = some ([quote], rest) := by
  cases rest <;> simp [closeQuote?]

theorem closeQuote?_escape (hquote : quote ≠ '\\') (hd : d ≠ '\n') (rest : List Char) :
    closeQuote? quote ('\\' :: d :: rest) =
      (closeQuote? quote rest).map fun found => ('\\' :: d :: found.1, found.2) := by
  rw [closeQuote?, if_neg (by simpa using hquote.symm), if_pos (beq_self_eq_true _),
    if_neg (by simpa using hd)]

theorem closeQuote?_cons (hquote : c ≠ quote) (hescape : c ≠ '\\') (hne : cs ≠ []) :
    closeQuote? quote (c :: cs) =
      (closeQuote? quote cs).map fun found => (c :: found.1, found.2) := by
  cases cs with
  | nil => exact absurd rfl hne
  | cons d rest =>
    rw [closeQuote?, if_neg (by simpa using hquote), if_neg (by simpa using hescape)]

/-- An escaped text is closed by the quote behind it, and by none before. -/
theorem closeQuote?_escaped (hescape : quote ≠ '\\') (hfeed : quote ≠ '\n') (cs rest : List Char) :
    closeQuote? quote (Text.escaped quote cs ++ quote :: rest) =
      some (Text.escaped quote cs ++ [quote], rest) := by
  induction cs with
  | nil => exact closeQuote?_quote quote rest
  | cons c cs ih =>
    by_cases hc : c = quote ∨ c = '\\'
    · have hd : c ≠ '\n' := by
        rcases hc with rfl | rfl
        · exact hfeed
        · decide
      rw [Text.escaped_cons_special hc, List.cons_append, List.cons_append,
        closeQuote?_escape hescape hd, ih]
      rfl
    · rw [not_or] at hc
      rw [Text.escaped_cons_plain hc.1 hc.2, List.cons_append,
        closeQuote?_cons hc.1 hc.2 (by simp), ih]
      rfl

end Item

namespace Literal

/-- A text as a literal between the given quotes. -/
def enquoted (quote : Char) (s : String) : String :=
  String.ofList (quote :: (Text.escaped quote s.toList ++ [quote]))

/-- The characters that quotes are. -/
def IsQuote (quote : Char) : Prop := quote = '"' ∨ quote = '\''

variable {quote : Char}

theorem IsQuote.ne (h : IsQuote quote) : quote ≠ '\\' ∧ quote ≠ '\n' ∧ quote ≠ '\x7d' := by
  rcases h with rfl | rfl <;> decide

theorem IsQuote.beq (h : IsQuote quote) : (quote == '"' || quote == '\'') = true := by
  rcases h with rfl | rfl <;> rfl

theorem toList_enquoted (quote : Char) (s : String) :
    (enquoted quote s).toList = quote :: (Text.escaped quote s.toList ++ [quote]) :=
  String.toList_ofList

theorem unquote_escaped (h : IsQuote quote) (cs : List Char) :
    unquote quote (Text.escaped quote cs) = cs := by
  rw [unquote, Text.dropEscapes_escaped h.ne.1, Text.dropEscapes_doubled]

/-- Whatever a text holds, it is what its literal is read as. -/
theorem ofText_enquoted (h : IsQuote quote) (s : String) :
    Param.ofText (enquoted quote s) = .ok (.literal (enquoted quote s) (.text s)) := by
  have hlast : (quote :: (Text.escaped quote s.toList ++ [quote])).getLast? = some quote := by
    rw [← List.cons_append, List.getLast?_concat]
  have hread : ofText? (enquoted quote s) = .ok (some (.text s)) := by
    rw [ofText?, toList_enquoted, List.headD_cons, if_pos (by simp [hlast, h.beq]), List.drop_one,
      List.tail_cons, List.dropLast_concat, unquote_escaped h, String.ofList_toList]
    rfl
  rw [Param.ofText, hread]
  rfl

/-- A literal is one item of an expression. -/
theorem scan_enquoted (h : IsQuote quote) (s : String) :
    Item.scan (enquoted quote s).toList = .ok [.quoted (enquoted quote s)] := by
  have hread : Item.read? quote (Text.escaped quote s.toList ++ [quote]) =
      some (.quoted (enquoted quote s), []) := by
    rw [Item.read?, if_pos h.beq, Item.closeQuote?_escaped h.ne.1 h.ne.2.1]
    rfl
  have hblank : Text.isBlank quote = false := by rcases h with rfl | rfl <;> rfl
  rw [toList_enquoted, Item.scan_of_read? hblank hread, Item.scan_nil]
  rfl

/-- Neither backslashes nor quotes close a tag, so a literal closes it only where its text does. -/
theorem unclosed_enquoted (h : IsQuote quote) {s : String} (hs : Unclosed s) :
    Unclosed (enquoted quote s) := by
  have hescaped : ∀ cs : List Char, cs.IsChain (fun a b => ¬ (a = '\x7d' ∧ b = '\x7d')) →
      (Text.escaped quote cs ++ [quote]).IsChain (fun a b => ¬ (a = '\x7d' ∧ b = '\x7d')) := by
    intro cs hcs
    induction cs with
    | nil => exact .singleton quote
    | cons c cs ih =>
      have hrest := ih hcs.tail
      by_cases hc : c = quote ∨ c = '\\'
      · have hplain : c ≠ '\x7d' := by
          rcases hc with rfl | rfl
          · exact h.ne.2.2
          · decide
        rw [Text.escaped_cons_special hc, List.cons_append, List.cons_append]
        exact .cons_cons (by simp) (List.isChain_cons.2 ⟨fun _ _ hab => hplain hab.1, hrest⟩)
      · rw [not_or] at hc
        rw [Text.escaped_cons_plain hc.1 hc.2, List.cons_append]
        refine List.isChain_cons.2 ⟨?_, hrest⟩
        -- What follows is a backslash, the closing quote, or the next character of the text.
        rintro d hd ⟨hcd, rfl⟩
        cases cs with
        | nil => exact h.ne.2.2 (Option.some.inj hd)
        | cons b cs =>
          by_cases hb : b = quote ∨ b = '\\'
          · rw [Text.escaped_cons_special hb] at hd
            cases hd
          · rw [not_or] at hb
            rw [Text.escaped_cons_plain hb.1 hb.2] at hd
            exact (List.isChain_cons_cons.1 hcs).1 ⟨hcd, Option.some.inj hd⟩
  apply Unclosed.of_isChain
  rw [toList_enquoted]
  exact List.isChain_cons.2 ⟨fun _ _ hab => h.ne.2.2 hab.1, hescaped s.toList hs.isChain⟩

/-- A literal of any text that does not close the tag may stand as an argument. -/
theorem normal_enquoted (h : IsQuote quote) {s : String} (hs : Unclosed s) :
    Param.Normal (.literal (enquoted quote s) (.text s)) :=
  .quoted (ofText_enquoted h s) (scan_enquoted h s) (unclosed_enquoted h hs)

end Literal

end Stencil
