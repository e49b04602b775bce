import Stencil.Proofs.Source.Words
import Stencil.Token.Scan

/-!
# Tags in source

What the scanner makes of a tag that is written out: its kind and value, with nothing trimmed on
either side, and the source behind it untouched.
-/

namespace Stencil

namespace Text

/-- A search goes past characters at which no needle begins. -/
theorem cut?_append {needles : List (List Char)} {content tail : List Char}
    (h : ∀ before c after, content = before ++ c :: after →
      ∀ needle ∈ needles, ¬ needle <+: c :: (after ++ tail)) :
    cut? needles (content ++ tail) =
      (cut? needles tail).map fun (before, needle, after) =>
        (content ++ before, needle, after) := by
  induction content with
  | nil =>
    rw [List.nil_append]
    cases cut? needles tail with
    | none => rfl
    | some found => rfl
  | cons c content ih =>
    have hnone : needles.find? (·.isPrefixOf (c :: (content ++ tail))) = none := by
      rw [List.find?_eq_none]
      intro needle hneedle hprefix
      exact h [] c content rfl needle hneedle (List.isPrefixOf_iff_prefix.1 hprefix)
    rw [List.cons_append, cut?, hnone]
    dsimp only
    rw [ih fun before d after heq => h (c :: before) d after (by rw [heq]; rfl), Option.map_map]
    rfl

/-- A text that begins with the needle that is found first is cut there. -/
theorem cut?_of_find? {needles : List (List Char)} {needle after : List Char}
    (h : needles.find? (·.isPrefixOf (needle ++ after)) = some needle) :
    cut? needles (needle ++ after) = some ([], needle, after) := by
  have hdrop : (needle ++ after).drop needle.length = after := List.drop_left
  cases htext : needle ++ after with
  | nil =>
    rw [htext] at h
    rw [cut?, h, (List.append_eq_nil_iff.1 htext).2]
  | cons c rest =>
    rw [htext] at h hdrop
    rw [cut?, h, ← hdrop]

/-- A needle that holds none of the characters before it is found where it stands. -/
theorem cut?_of_not_mem {needle before : List Char} (hne : needle ≠ []) (h : ∀ c ∈ needle, c ∉ before)
    (after : List Char) :
    cut? [needle] (before ++ (needle ++ after)) = some (before, needle, after) := by
  rw [cut?_append, cut?_of_find? (by simp)]
  · simp
  · rintro front c back rfl _ hneedle hprefix
    rw [List.mem_singleton] at hneedle
    obtain ⟨d, ds, rfl⟩ := List.exists_cons_of_ne_nil hne
    rw [hneedle] at hprefix
    have hd := (List.cons_prefix_cons.1 hprefix).1
    exact h d List.mem_cons_self (by simp [hd])

/-- A needle is not found in a text that holds none of its characters. -/
theorem cut?_eq_none_of_not_mem {needle text : List Char} (hne : needle ≠ [])
    (h : ∀ c ∈ needle, c ∉ text) : cut? [needle] text = none := by
  obtain ⟨d, ds, rfl⟩ := List.exists_cons_of_ne_nil hne
  cases hcut : cut? [d :: ds] text with
  | none => rfl
  | some found =>
    obtain ⟨before, other, after⟩ := found
    obtain ⟨htext, hother⟩ := append_of_cut? hcut
    rw [List.mem_singleton.1 hother] at htext
    exact absurd (by simp [htext]) (h d List.mem_cons_self)

end Text

namespace Tag

/-- Content in which no closing delimiter begins, and none begins with its end. -/
structure Closable (cs : List Char) : Prop where
  unclosed : cs.IsChain fun a b => ¬ (a = '\x7d' ∧ b = '\x7d')
  last : ∀ c ∈ cs.getLast?, c ≠ '\x7d' ∧ c ≠ '~'

namespace Closable

variable {cs rest : List Char} {c : Char}

theorem tail (h : Closable (c :: cs)) : Closable cs := by
  refine ⟨h.unclosed.tail, fun d hd => h.last d ?_⟩
  cases cs with
  | nil => cases hd
  | cons _ _ => exact hd

theorem suffix {before : List Char} (h : Closable (before ++ c :: cs)) : Closable (c :: cs) := by
  induction before with
  | nil => exact h
  | cons b before ih => exact ih h.tail

/-- No closing delimiter begins inside. -/
theorem not_close (h : Closable (c :: cs)) (rest : List Char) :
    ¬ ['\x7d', '\x7d'] <+: c :: (cs ++ rest) := by
  intro hprefix
  obtain ⟨hc, hprefix⟩ := List.cons_prefix_cons.1 hprefix
  cases cs with
  | nil => exact (h.last c rfl).1 hc.symm
  | cons d cs =>
    obtain ⟨hd, -⟩ := List.cons_prefix_cons.1 hprefix
    exact (List.isChain_cons_cons.1 h.unclosed).1 ⟨hc.symm, hd.symm⟩

/-- No closing delimiter with a tilde before it begins inside. -/
theorem not_tildeClose (h : Closable (c :: cs)) (rest : List Char) :
    ¬ ['~', '\x7d', '\x7d'] <+: c :: (cs ++ rest) := by
  intro hprefix
  obtain ⟨hc, hprefix⟩ := List.cons_prefix_cons.1 hprefix
  cases cs with
  | nil => exact (h.last c rfl).2 hc.symm
  | cons d cs => exact h.tail.not_close rest hprefix

end Closable

/-- A tag body is cut where its content ends. -/
theorem enclosed_closable {cs : List Char} (h : Closable cs) (rest : List Char) :
    enclosed [] ['\x7d', '\x7d'] (cs ++ '\x7d' :: '\x7d' :: rest) = .ok (cs, false, rest) := by
  have hcut : Text.cut? [['~', '\x7d', '\x7d'], ['\x7d', '\x7d']] (cs ++ '\x7d' :: '\x7d' :: rest) =
      some (cs, ['\x7d', '\x7d'], rest) := by
    rw [Text.cut?_append]
    · simp [Text.cut?, List.isPrefixOf]
    · rintro before c after rfl needle hneedle
      simp only [List.mem_cons, List.not_mem_nil, or_false] at hneedle
      rcases hneedle with rfl | rfl
      · exact h.suffix.not_tildeClose _
      · exact h.suffix.not_close _
  unfold enclosed
  rw [List.nil_append, List.nil_append, hcut]
  rfl

/-- A tag body in braces is cut where its content ends. -/
theorem enclosed_braced {cs : List Char} (h : Closable cs) (rest : List Char) :
    enclosed ['\x7d'] ['\x7d', '\x7d'] (cs ++ '\x7d' :: '\x7d' :: '\x7d' :: rest) =
      .ok (cs, false, rest) := by
  have hcut : Text.cut? [['\x7d', '~', '\x7d', '\x7d'], ['\x7d', '\x7d', '\x7d']]
      (cs ++ '\x7d' :: '\x7d' :: '\x7d' :: rest) = some (cs, ['\x7d', '\x7d', '\x7d'], rest) := by
    rw [Text.cut?_append]
    · simp [Text.cut?, List.isPrefixOf]
    · rintro before c after rfl needle hneedle
      simp only [List.mem_cons, List.not_mem_nil, or_false] at hneedle
      rcases hneedle with rfl | rfl
      · intro hprefix
        obtain ⟨hc, hprefix⟩ := List.cons_prefix_cons.1 hprefix
        cases after with
        | nil => exact (h.suffix.last c rfl).1 hc.symm
        | cons d after => exact h.suffix.tail.not_tildeClose _ hprefix
      · intro hprefix
        exact h.suffix.not_close _ ((List.prefix_append _ ['\x7d']).trans hprefix)
  unfold enclosed
  rw [List.singleton_append, List.singleton_append, hcut]
  rfl

theorem Closable.of_settled {cs : List Char} (h : Settled cs) : Closable cs :=
  ⟨h.unclosed, fun c hc => ⟨(h.last c hc).1, (h.last c hc).2.1⟩⟩

/-- A tag without braces, dashes or an equals sign in front is read by its content. -/
theorem read_content {c : Char} {cs value : List Char} {kind : TokenKind}
    (hfirst : c ≠ '~' ∧ c ≠ '\x7b' ∧ c ≠ '=') (hdashes : ¬ ['!', '-', '-'] <+: c :: cs)
    (hclosable : Closable (c :: cs)) (hclassify : classify (c :: cs) = .ok (kind, value))
    (rest : List Char) :
    read .standard (c :: (cs ++ '\x7d' :: '\x7d' :: rest)) =
      .ok (⟨kind, value, false, false⟩, rest) := by
  obtain ⟨htilde, hbrace, hequals⟩ := hfirst
  have hdashes : ((c :: (cs ++ '\x7d' :: '\x7d' :: rest)).take 3 == ['!', '-', '-']) = false := by
    rw [beq_eq_false_iff_ne]
    intro htake
    have hprefix : ['!', '-', '-'] <+: c :: (cs ++ '\x7d' :: '\x7d' :: rest) :=
      htake ▸ List.take_prefix 3 _
    obtain ⟨hc, hprefix⟩ := List.cons_prefix_cons.1 hprefix
    cases cs with
    | nil => exact absurd (List.cons_prefix_cons.1 hprefix).1 (by decide)
    | cons d cs =>
      obtain ⟨hd, hprefix⟩ := List.cons_prefix_cons.1 hprefix
      cases cs with
      | nil => exact absurd (List.cons_prefix_cons.1 hprefix).1 (by decide)
      | cons e cs =>
        obtain ⟨he, -⟩ := List.cons_prefix_cons.1 hprefix
        rw [← hc, ← hd, ← he] at hdashes
        exact hdashes (List.prefix_append _ cs)
  have htilde' : (some c == some '~') = false := by simpa using htilde
  have hbrace' : (some c == some '\x7b') = false := by simpa using hbrace
  have hequals' : (some c == some '=') = false := by simpa using hequals
  unfold read
  simp only [List.head?_cons, htilde', hbrace', hequals', hdashes, Bool.and_false,
    Bool.false_eq_true, if_false]
  have henclosed := enclosed_closable hclosable rest
  rw [List.cons_append] at henclosed
  change (enclosed [] ['\x7d', '\x7d'] _ >>= _) = _
  rw [henclosed]
  change (classify (c :: cs) >>= _) = _
  rw [hclassify]
  rfl

/-- A tag in three braces is read by its content. -/
theorem read_braced {cs : List Char} (h : Settled cs)
    (hfirst : ∀ c ∈ cs.head?, Text.isBlank c = false) (rest : List Char) :
    read .standard ('\x7b' :: (cs ++ '\x7d' :: '\x7d' :: '\x7d' :: rest)) =
      .ok (⟨.triple, cs, false, false⟩, rest) := by
  unfold read
  change (enclosed ['\x7d'] ['\x7d', '\x7d'] (cs ++ '\x7d' :: '\x7d' :: '\x7d' :: rest) >>= _) = _
  rw [enclosed_braced (.of_settled h)]
  change Except.ok (Tag.mk .triple (Text.trimBoth Text.isBlank cs) false false, rest) = _
  rw [Text.trimBoth_eq_self hfirst fun c hc => (h.last c hc).2.2]

end Tag

namespace Token

/-- A tag that does not set delimiters is scanned with the text before it, and then what follows. -/
theorem scanFrom_step {marks : Delimiters} {file : String} {p : Position}
    {text before needle body rest : List Char} {tag : Tag}
    (hcut : Text.cut? [marks.opening.toList] text = some (before, needle, body))
    (hread : Tag.read marks body = .ok (tag, rest)) (hkind : tag.kind ≠ .delimiters) :
    scanFrom file marks p text =
      (scanFrom file marks (p.advance (text.take (text.length - rest.length))) rest).map fun others =>
        ofText marks p before ++ ofTag marks (p.advance before) tag :: others := by
  have hempty : ¬ text.isEmpty = true := by
    intro hempty
    obtain ⟨tokens, htag⟩ := Text.append_of_cut? hcut
    have hlength := Tag.length_read_lt hread
    have htext := congrArg List.length (tokens.symm.trans (List.isEmpty_iff.1 hempty))
    simp only [List.length_append, List.length_nil] at htext
    omega
  have hmarks : (tag.kind == .delimiters) = false := by simpa using hkind
  rw [scanFrom, if_neg hempty]
  -- Both the cut and the tag are known, so the other branches of the scan are closed.
  split
  · rename_i hnone
    rw [hcut] at hnone
    cases hnone
  · rename_i found _ body hsome
    rw [hcut] at hsome
    cases hsome
    split
    · rename_i hfail
      rw [hread] at hfail
      cases hfail
    · rename_i tag after hok
      rw [hread] at hok
      cases hok
      rw [hmarks]
      change (scanFrom file marks _ rest >>= fun others =>
        pure (ofText marks p before ++ ofTag marks (p.advance before) tag :: others)) = _
      cases scanFrom file marks (p.advance (text.take (text.length - rest.length))) rest with
      | error failure => rfl
      | ok others => rfl

/-- Without an opening delimiter there is only text. -/
theorem scanFrom_of_cut?_eq_none {marks : Delimiters} {file : String} {p : Position}
    {text : List Char} (hcut : Text.cut? [marks.opening.toList] text = none) :
    scanFrom file marks p text = .ok (ofText marks p text) := by
  rw [scanFrom]
  split
  · rename_i hempty
    rw [List.isEmpty_iff.1 hempty]
    rfl
  · split
    · rfl
    · rename_i hsome
      rw [hcut] at hsome
      cases hsome

end Token

end Stencil
