import Stencil.Proofs.Source.Normal

/-!
# Bare words

Words that stand in source without quotes: plain names, numbers, and the words for true, false and
null. No character of theirs ends an item or a tag.
-/

namespace Stencil

/-- The characters of words in source that need no quotes: they neither end an item nor a tag. -/
def isBareChar (c : Char) : Bool := Item.isWordChar c && c != '\x7d' && c != '~'

theorem isBareChar_iff {c : Char} :
    isBareChar c = true ↔ Item.isWordChar c = true ∧ c ≠ '\x7d' ∧ c ≠ '~' := by
  simp [isBareChar, and_assoc]

/-- White space ends a word. -/
theorem Item.not_isBlank_of_isWordChar {c : Char} (h : isWordChar c = true) :
    Text.isBlank c = false := by
  cases hblank : Text.isBlank c with
  | false => rfl
  | true => simp [isWordChar, hblank] at h

theorem isBareChar_of_isNameChar {c : Char} (h : isNameChar c = true) : isBareChar c = true := by
  -- Names are ASCII, so there are only finitely many characters to look at.
  have hascii : c.toNat < 128 := by
    delta isNameChar Char.isAlphanum Char.isAlpha Char.isUpper Char.isLower Char.isDigit at h
    simp only [Bool.or_eq_true, beq_iff_eq, Bool.and_eq_true, decide_eq_true_eq,
      UInt32.le_iff_toNat_le, ge_iff_le] at h
    have hletters : 'Z'.val.toNat < 128 ∧ 'z'.val.toNat < 128 ∧ '9'.val.toNat < 128 := by decide
    have hc : c.toNat = c.val.toNat := rfl
    rcases h with ((((((h | h) | h) | rfl) | rfl) | rfl) | rfl) | rfl
    all_goals first | decide | omega
  have hall : ∀ n < 128, isNameChar (Char.ofNat n) = true → isBareChar (Char.ofNat n) = true := by
    decide
  have hc := hall c.toNat hascii
  rw [Char.ofNat_toNat] at hc
  exact hc h

theorem not_isBlank_of_isNameChar {c : Char} (h : isNameChar c = true) :
    Text.isBlank c = false :=
  Item.not_isBlank_of_isWordChar (isBareChar_iff.1 (isBareChar_of_isNameChar h)).1

/-- No digit of any script ends an item or a tag. -/
theorem isBareChar_of_isDecimal {c : Char} (h : Text.isDecimal c = true) : isBareChar c = true := by
  have hzeros : ∀ first ∈ Text.digitZeros, first = 48 ∨
      (255 < first ∧ (first < 0x1670 ∨ 0x1680 < first) ∧ (first < 0x1FF0 ∨ 0x3000 < first)) := by
    decide
  unfold Text.isDecimal Text.digitValue? at h
  rw [Option.isSome_map, List.find?_isSome] at h
  obtain ⟨first, hfirst, hrange⟩ := h
  simp only [Bool.and_eq_true, decide_eq_true_eq] at hrange
  rcases hzeros first hfirst with rfl | hfar
  · have hall : ∀ k < 10, isBareChar (Char.ofNat (48 + k)) = true := by decide
    have hc := hall (c.toNat - 48) (by omega)
    rwa [Nat.add_sub_cancel' hrange.1, Char.ofNat_toNat] at hc
  · -- The digits of other scripts lie beyond ASCII, and none of them in a range of white space.
    have hne (d : Char) (hd : d.toNat < 128) : (c != d) = true := by
      rw [bne_iff_ne]
      rintro rfl
      omega
    have hblank : Text.isBlank c = false := by
      unfold Text.isBlank
      simp only [Bool.or_eq_false_iff, Bool.and_eq_false_iff, decide_eq_false_iff_not,
        beq_eq_false_iff_ne]
      omega
    simp only [isBareChar, Item.isWordChar, hblank, hne '(' (by decide), hne ')' (by decide),
      hne '=' (by decide), hne '|' (by decide), hne '"' (by decide), hne '\'' (by decide),
      hne '[' (by decide), hne ']' (by decide), hne '\x7d' (by decide), hne '~' (by decide),
      Bool.not_false, Bool.and_self]

/-- A word that needs no quotes. -/
def BareWord (s : String) : Prop := s.toList ≠ [] ∧ ∀ c ∈ s.toList, isBareChar c = true

/-- The characters of a plain name. -/
theorem exists_of_isPlainName {s : String} (h : isPlainName s = true) :
    ∃ c cs, s.toList = c :: cs ∧ isNameStart c = true ∧ ∀ d ∈ c :: cs, isNameChar d = true := by
  unfold isPlainName at h
  rw [Bool.and_eq_true, List.all_eq_true] at h
  cases hs : s.toList with
  | nil =>
    rw [hs] at h
    exact absurd h.1 Bool.false_ne_true
  | cons c cs =>
    rw [hs] at h
    exact ⟨c, cs, rfl, h⟩

theorem BareWord.of_isPlainName {s : String} (h : isPlainName s = true) : BareWord s := by
  obtain ⟨c, cs, hs, -, hchars⟩ := exists_of_isPlainName h
  unfold BareWord
  rw [hs]
  exact ⟨List.cons_ne_nil c cs, fun d hd => isBareChar_of_isNameChar (hchars d hd)⟩

/-- Without backslashes there is nothing to take away. -/
theorem Text.dropEscapes_eq_self {x : Char} {cs : List Char} (h : '\\' ∉ cs) :
    dropEscapes x cs = cs := by
  fun_induction dropEscapes x cs with
  | case1 => rfl
  | case2 => rfl
  | case3 c d rest hescape =>
    rw [Bool.and_eq_true, beq_iff_eq] at hescape
    exact absurd (hescape.1 ▸ List.mem_cons_self) h
  | case4 c d rest hescape ih => rw [ih fun hmem => h (List.mem_cons_of_mem _ hmem)]

/-- The characters of a text in quotes. -/
theorem Text.toList_inQuotes (s : String) :
    ("\"" ++ s ++ "\"").toList = '"' :: (s.toList ++ ['"']) := by
  rw [String.toList_append, String.toList_append]
  rfl

namespace Literal

/-- Text without quotes and backslashes is written in quotes as it is. -/
theorem ofText_quoted {s : String} (hescape : '\\' ∉ s.toList) :
    Param.ofText ("\"" ++ s ++ "\"") = .ok (.literal ("\"" ++ s ++ "\"") (.text s)) := by
  have hlast : ('"' :: (s.toList ++ ['"'])).getLast? = some '"' := by
    rw [← List.cons_append, List.getLast?_concat]
  have hread : ofText? ("\"" ++ s ++ "\"") = .ok (some (.text s)) := by
    rw [ofText?, Text.toList_inQuotes, if_pos (by simp [hlast]), List.drop_one, List.tail_cons,
      List.dropLast_concat, unquote, Text.dropEscapes_eq_self hescape,
      Text.dropEscapes_eq_self hescape, String.ofList_toList]
    rfl
  rw [Param.ofText, hread]
  rfl

/-- A number without its sign: digits, and digits behind a point if there is one. -/
theorem unsigned_bare {body : List Char} {pointed : Bool}
    (h : (match body.dropWhile Text.isDecimal with
      | [] => if (body.takeWhile Text.isDecimal).isEmpty then none else some false
      | c :: fraction =>
        if c == '.' && !(body.takeWhile Text.isDecimal).isEmpty && !fraction.isEmpty &&
            fraction.all Text.isDecimal then some true
        else none) = some pointed) :
    body ≠ [] ∧ ∀ c ∈ body, isBareChar c = true := by
  have hsplit := List.takeWhile_append_dropWhile (p := Text.isDecimal) (l := body)
  have hwhole : ∀ c ∈ body.takeWhile Text.isDecimal, isBareChar c = true :=
    fun c hc => isBareChar_of_isDecimal (List.all_eq_true.1 List.all_takeWhile c hc)
  split at h
  · rename_i hrest
    rw [hrest, List.append_nil] at hsplit
    rw [hsplit] at h hwhole
    split at h
    · cases h
    · rename_i hne
      refine ⟨?_, hwhole⟩
      rintro rfl
      exact hne rfl
  · rename_i c fraction hrest
    split at h
    · rename_i hpoint
      simp only [Bool.and_eq_true, beq_iff_eq, List.all_eq_true] at hpoint
      obtain ⟨⟨⟨rfl, -⟩, -⟩, hfraction⟩ := hpoint
      have hdigits : ∀ d ∈ fraction, isBareChar d = true :=
        fun d hd => isBareChar_of_isDecimal (hfraction d hd)
      refine ⟨?_, ?_⟩
      · rintro rfl
        cases hrest
      · rw [← hsplit, hrest, List.forall_mem_append, List.forall_mem_cons]
        exact ⟨hwhole, by decide, hdigits⟩
    · cases h

theorem numberShape?_bare {cs : List Char} {pointed : Bool} (h : numberShape? cs = some pointed) :
    cs ≠ [] ∧ ∀ c ∈ cs, isBareChar c = true := by
  have hbody := unsigned_bare h
  split at hbody
  · rename_i hminus
    cases cs with
    | nil => cases hminus
    | cons c cs =>
      obtain rfl : c = '-' := by simpa using hminus
      exact ⟨List.cons_ne_nil _ cs, List.forall_mem_cons.2 ⟨by decide, hbody.2⟩⟩
  · exact hbody

theorem ofText?_of_param {raw : String} {value : Literal}
    (h : Param.ofText raw = .ok (.literal raw value)) : ofText? raw = .ok (some value) := by
  obtain ⟨found, hfound, h⟩ := bind_eq_ok_iff.1 h
  cases found with
  | none => cases h
  | some found =>
    cases h
    exact hfound

end Literal

/-- A literal that is no text is written as a bare word. -/
theorem BareWord.of_literal {raw : String} {value : Literal}
    (h : Param.ofText raw = .ok (.literal raw value)) (hbare : ∀ s, value ≠ .text s) :
    BareWord raw := by
  have hread := Literal.ofText?_of_param h
  unfold Literal.ofText? at hread
  dsimp only at hread
  split at hread
  · cases hread
    exact absurd rfl (hbare _)
  · split at hread
    · rename_i hraw
      rw [beq_iff_eq.1 hraw]
      exact .of_isPlainName (by decide)
    · split at hread
      · rename_i hraw
        rw [beq_iff_eq.1 hraw]
        exact .of_isPlainName (by decide)
      · split at hread
        · rename_i hraw
          rw [Bool.or_eq_true, beq_iff_eq, beq_iff_eq] at hraw
          rcases hraw with rfl | rfl
          · exact .of_isPlainName (by decide)
          · exact .of_isPlainName (by decide)
        · split at hread
          · rename_i hshape
            exact Literal.numberShape?_bare hshape
          · rename_i hshape
            exact Literal.numberShape?_bare hshape
          · cases hread

/-- Text that may stand in a tag beside other such text: it holds no closing delimiter, makes none
with its neighbours, and leaves the end of the tag where it is. -/
structure Settled (cs : List Char) : Prop where
  unclosed : cs.IsChain fun a b => ¬ (a = '\x7d' ∧ b = '\x7d')
  first : ∀ c ∈ cs.head?, c ≠ '\x7d'
  last : ∀ c ∈ cs.getLast?, c ≠ '\x7d' ∧ c ≠ '~' ∧ Text.isBlank c = false

namespace Settled

variable {cs ds : List Char}

theorem nil : Settled [] := ⟨.nil, nofun, nofun⟩

theorem append (hc : Settled cs) (hd : Settled ds) : Settled (cs ++ ds) := by
  refine ⟨List.isChain_append.2 ⟨hc.unclosed, hd.unclosed, ?_⟩, ?_, ?_⟩
  · intro a ha b _ hab
    exact (hc.last a ha).1 hab.1
  · intro c h
    cases cs with
    | nil => exact hd.first c h
    | cons a cs => exact hc.first c h
  · intro c h
    rw [List.getLast?_append] at h
    cases hlast : ds.getLast? with
    | none =>
      rw [hlast] at h
      exact hc.last c h
    | some d =>
      rw [hlast] at h
      exact hd.last c (hlast.trans h)

/-- A character that closes nothing may stand before such a text. -/
theorem cons {c : Char} (hc : c ≠ '\x7d') (hne : cs ≠ []) (h : Settled cs) : Settled (c :: cs) := by
  refine ⟨List.isChain_cons.2 ⟨fun _ _ hab => hc hab.1, h.unclosed⟩, ?_, ?_⟩
  · intro d hd
    rw [← Option.mem_some.1 hd]
    exact hc
  · intro d hd
    rw [List.getLast?_cons_of_ne_nil hne] at hd
    exact h.last d hd

theorem singleton {c : Char} (hc : c ≠ '\x7d' ∧ c ≠ '~' ∧ Text.isBlank c = false) :
    Settled [c] := by
  refine ⟨.singleton c, ?_, ?_⟩
  · intro d hd
    rw [← Option.mem_some.1 hd]
    exact hc.1
  · intro d hd
    rw [← Option.mem_some.1 hd]
    exact hc

theorem of_bare (h : ∀ c ∈ cs, isBareChar c = true) : Settled cs := by
  induction cs with
  | nil => exact nil
  | cons c cs ih =>
    obtain ⟨hc, hcs⟩ := List.forall_mem_cons.1 h
    obtain ⟨hword, hclose, htilde⟩ := isBareChar_iff.1 hc
    exact (singleton ⟨hclose, htilde, Item.not_isBlank_of_isWordChar hword⟩).append (ih hcs)

end Settled

/-- Text without a closing delimiter has no two closing braces beside each other. -/
theorem Unclosed.isChain {s : String} (h : Unclosed s) :
    s.toList.IsChain fun a b => ¬ (a = '\x7d' ∧ b = '\x7d') := by
  unfold Unclosed at h
  generalize s.toList = cs at h
  induction cs with
  | nil => exact .nil
  | cons c cs ih =>
    have hrest : ¬ "\x7d\x7d".toList <:+: cs :=
      fun hclose => h (hclose.trans (List.suffix_cons c cs).isInfix)
    refine List.isChain_cons.2 ⟨?_, ih hrest⟩
    rintro d hd ⟨rfl, rfl⟩
    obtain ⟨rest, rfl⟩ := List.head?_eq_some_iff.1 hd
    exact h (List.prefix_append _ rest).isInfix

/-- Text in which no two closing braces stand beside each other has no closing delimiter. -/
theorem Unclosed.of_isChain {s : String}
    (h : s.toList.IsChain fun a b => ¬ (a = '\x7d' ∧ b = '\x7d')) : Unclosed s := by
  intro hclose
  have hpair := List.IsChain.infix h hclose
  exact (List.isChain_cons_cons.1 hpair).1 ⟨rfl, rfl⟩

/-- What is read as a text begins and ends with one quote. -/
theorem Literal.quote_of_text {raw s : String}
    (h : Param.ofText raw = .ok (.literal raw (.text s))) :
    ∃ quote, (quote = '"' ∨ quote = '\'') ∧ raw.toList.head? = some quote ∧
      raw.toList.getLast? = some quote := by
  have hread := Literal.ofText?_of_param h
  unfold Literal.ofText? at hread
  dsimp only at hread
  split at hread
  · rename_i hquote
    simp only [Bool.and_eq_true, decide_eq_true_eq, Bool.or_eq_true, beq_iff_eq] at hquote
    obtain ⟨⟨hlength, hquote⟩, hlast⟩ := hquote
    refine ⟨_, hquote, ?_, hlast⟩
    cases hraw : raw.toList with
    | nil =>
      rw [hraw] at hlength
      exact absurd hlength (by decide)
    | cons c cs => rfl
  · iterate 3
      split at hread
      · cases hread
    split at hread
    · obtain ⟨x, -, hx⟩ := Option.map_eq_some_iff.1 (Except.ok.inj hread)
      cases hx
    · obtain ⟨n, -, hn⟩ := bind_eq_ok_iff.1 hread
      cases hn
    · cases hread

/-- Quotes close nothing. -/
theorem Settled.of_quoted {raw s : String} (h : Param.ofText raw = .ok (.literal raw (.text s)))
    (hunclosed : Unclosed raw) : Settled raw.toList := by
  obtain ⟨quote, hquote, hfirst, hlast⟩ := Literal.quote_of_text h
  have hplain : quote ≠ '\x7d' ∧ quote ≠ '~' ∧ Text.isBlank quote = false := by
    rcases hquote with rfl | rfl <;> decide
  refine ⟨hunclosed.isChain, ?_, ?_⟩
  · intro c hc
    rw [hfirst] at hc
    rw [← Option.mem_some.1 hc]
    exact hplain.1
  · intro c hc
    rw [hlast] at hc
    rw [← Option.mem_some.1 hc]
    exact hplain

end Stencil
