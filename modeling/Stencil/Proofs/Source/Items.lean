import Stencil.Proofs.Source.Words

/-!
# Items in source

What the scanner makes of the pieces that expressions are written with. A piece is read as its items
wherever something follows that ends a word, so pieces can be put one behind the other.
-/

namespace Stencil

namespace Item

/-- Nothing that could belong to a word follows. -/
def EndsWord (rest : List Char) : Prop :=
  ∀ c ∈ rest.head?, isWordChar c = false ∧ c ≠ '['

theorem EndsWord.nil : EndsWord [] := fun _ h => nomatch h

theorem EndsWord.cons {c : Char} (h : isWordChar c = false ∧ c ≠ '[') (rest : List Char) :
    EndsWord (c :: rest) := by
  intro d hd
  rw [Option.mem_some.1 hd] at h
  exact h

/-- What follows a text that ends words ends words. -/
theorem EndsWord.append {cs rest : List Char} (h : EndsWord cs) (hrest : EndsWord rest) :
    EndsWord (cs ++ rest) := by
  cases cs with
  | nil => exact hrest
  | cons c cs => exact h

/-- One step of the scan: white space goes, and one item is read. -/
theorem scan_step (cs : List Char) :
    scan cs = match cs.dropWhile Text.isBlank with
      | [] => .ok []
      | c :: rest =>
        match read? c rest with
        | none => .error (.unexpectedCharacter c)
        | some (item, left) => (scan left).map (item :: ·) := by
  rw [scan]
  split
  · rename_i hcs
    rw [hcs]
    rfl
  · rename_i c rest hcs
    rw [hcs]
    dsimp only
    split
    · rename_i hread
      rw [hread]
      rfl
    · rename_i item left hread
      rw [hread]
      dsimp only
      cases scan left with
      | error cause => rfl
      | ok items => rfl

theorem scan_nil : scan [] = .ok [] := by
  rw [scan_step]
  rfl

theorem scan_of_read? {c : Char} {rest left : List Char} {item : Item}
    (hc : Text.isBlank c = false) (hread : read? c rest = some (item, left)) :
    scan (c :: rest) = (scan left).map (item :: ·) := by
  rw [scan_step, List.dropWhile_cons_of_neg (by simp [hc])]
  simp only [hread]

/-- White space before an item does not count. -/
theorem scan_blank {c : Char} (hc : Text.isBlank c = true) (cs : List Char) :
    scan (c :: cs) = scan cs := by
  rw [scan_step (c :: cs), scan_step cs, List.dropWhile_cons_of_pos hc]

/-- A word is read up to where it ends. -/
theorem takeWord_append {cs rest : List Char} (hcs : ∀ c ∈ cs, isWordChar c = true)
    (hrest : EndsWord rest) : takeWord false (cs ++ rest) = (cs, rest) := by
  induction cs with
  | nil =>
    cases rest with
    | nil => rfl
    | cons d rest =>
      obtain ⟨hword, hbracket⟩ := hrest d rfl
      have hb : (d == '[') = false := by simpa using hbracket
      simp only [List.nil_append, takeWord, hword, hb, Bool.false_and, Bool.or_self,
        Bool.false_eq_true, if_false]
  | cons c cs ih =>
    have hc : isWordChar c = true := hcs c List.mem_cons_self
    have hb : (c == '[') = false := by
      cases hopen : c == '[' with
      | false => rfl
      | true =>
        rw [beq_iff_eq.1 hopen] at hc
        exact absurd hc (by decide)
    have hrec := ih fun d hd => hcs d (List.mem_cons_of_mem _ hd)
    simp only [List.cons_append, takeWord, hc, hb, Bool.true_or, Bool.false_eq_true, if_false,
      if_true, hrec]

theorem read?_word {c : Char} {rest taken left : List Char} (hc : isWordChar c = true)
    (htake : takeWord false (c :: rest) = (taken, left)) (htaken : taken ≠ []) :
    read? c rest = some (.word (String.ofList taken), left) := by
  have hstart := hc
  simp only [isWordChar, Bool.and_eq_true, bne_iff_ne, ne_eq] at hstart
  obtain ⟨⟨⟨⟨⟨⟨⟨⟨-, hopen⟩, hclose⟩, hequals⟩, hpipe⟩, hdouble⟩, hsingle⟩, -⟩, -⟩ := hstart
  unfold read?
  rw [if_neg (by simp [hdouble, hsingle]), if_neg (by simp [hopen]), if_neg (by simp [hclose]),
    if_neg (by simp [hpipe]), if_neg (by simp [hequals]), htake]
  cases taken with
  | nil => exact absurd rfl htaken
  | cons d taken => rfl

/-- What a quoted item is read from. -/
theorem read?_eq_quoted {c : Char} {rest left : List Char} {raw : String}
    (h : read? c rest = some (.quoted raw, left)) :
    (c == '"' || c == '\'') = true ∧
      ∃ taken, closeQuote? c rest = some (taken, left) ∧ raw.toList = c :: taken := by
  unfold read? at h
  split at h
  · rename_i hquote
    obtain ⟨⟨taken, left'⟩, hclose, heq⟩ := Option.map_eq_some_iff.1 h
    simp only [Prod.mk.injEq, Item.quoted.injEq] at heq
    obtain ⟨rfl, rfl⟩ := heq
    exact ⟨hquote, taken, hclose, String.toList_ofList⟩
  · iterate 4
      split at h
      · cases h
    split at h
    · cases h
    · cases h

/-- A quoted text is read up to its closing quote, whatever follows. -/
theorem closeQuote?_append {quote : Char} {cs taken left : List Char}
    (h : closeQuote? quote cs = some (taken, left)) (rest : List Char) :
    closeQuote? quote (cs ++ rest) = some (taken, left ++ rest) := by
  fun_induction closeQuote? quote cs generalizing taken left with
  | case1 => cases h
  | case2 c hc =>
    cases h
    cases rest with
    | nil => simp only [List.append_nil, closeQuote?, hc, if_true]
    | cons d rest => simp only [List.cons_append, List.nil_append, closeQuote?, hc, if_true]
  | case3 => cases h
  | case4 c d more hc =>
    cases h
    simp only [List.cons_append, closeQuote?, hc, if_true]
  | case5 => cases h
  | case6 c d more hc hescape hd ih =>
    obtain ⟨⟨t, l⟩, hq, heq⟩ := Option.map_eq_some_iff.1 h
    cases heq
    simp only [List.cons_append, closeQuote?, hc, hescape, hd, Bool.false_eq_true, if_false,
      if_true, ih hq, Option.map_some]
  | case7 c d more hc hescape ih =>
    obtain ⟨⟨t, l⟩, hq, heq⟩ := Option.map_eq_some_iff.1 h
    cases heq
    have hrec := ih hq
    rw [List.cons_append] at hrec
    simp only [List.cons_append, closeQuote?, hc, hescape, Bool.false_eq_true, if_false, hrec,
      Option.map_some]

theorem closeQuote?_plain {quote : Char} {cs : List Char} (hquote : quote ∉ cs)
    (hescape : '\\' ∉ cs) : closeQuote? quote (cs ++ [quote]) = some (cs ++ [quote], []) := by
  induction cs with
  | nil => simp [closeQuote?]
  | cons c cs ih =>
    have hrec := ih (fun hmem => hquote (List.mem_cons_of_mem _ hmem))
      fun hmem => hescape (List.mem_cons_of_mem _ hmem)
    have hc : (c == quote) = false := by
      rw [beq_eq_false_iff_ne]
      rintro rfl
      exact hquote List.mem_cons_self
    have hbackslash : (c == '\\') = false := by
      rw [beq_eq_false_iff_ne]
      rintro rfl
      exact hescape List.mem_cons_self
    rw [List.cons_append]
    cases hmore : cs ++ [quote] with
    | nil => simp at hmore
    | cons d more =>
      rw [hmore] at hrec
      simp only [closeQuote?, hc, hbackslash, Bool.false_eq_true, if_false, hrec, Option.map_some]

/-- Text without quotes and backslashes is one item when it is written in quotes. -/
theorem scan_quoted {s : String} (hquote : '"' ∉ s.toList) (hescape : '\\' ∉ s.toList) :
    scan ("\"" ++ s ++ "\"").toList = .ok [.quoted ("\"" ++ s ++ "\"")] := by
  have hchars := Text.toList_inQuotes s
  have hread : read? '"' (s.toList ++ ['"']) = some (.quoted ("\"" ++ s ++ "\""), []) := by
    rw [read?, if_pos (by decide), closeQuote?_plain hquote hescape, Option.map_some]
    dsimp only
    rw [← hchars, String.ofList_toList]
  rw [hchars, scan_of_read? rfl hread, scan_nil]
  rfl

/-- The characters are read as these items wherever something follows that ends a word. -/
def Scans (cs : List Char) (items : List Item) : Prop :=
  ∀ rest, EndsWord rest → scan (cs ++ rest) = (scan rest).map (items ++ ·)

namespace Scans

variable {cs ds : List Char} {xs ys : List Item}

theorem scan_eq (h : Scans cs xs) : scan cs = .ok xs := by
  have hscan := h [] .nil
  rw [List.append_nil, scan_nil] at hscan
  rw [hscan]
  exact congrArg Except.ok (List.append_nil xs)

theorem nil : Scans [] [] := by
  intro rest _
  cases hscan : scan rest with
  | error cause => rw [List.nil_append, hscan]; rfl
  | ok items => rw [List.nil_append, hscan]; rfl

theorem append (h : Scans cs xs) (h' : Scans ds ys) (hds : EndsWord ds) :
    Scans (cs ++ ds) (xs ++ ys) := by
  intro rest hrest
  rw [List.append_assoc, h _ (hds.append hrest), h' rest hrest]
  cases scan rest with
  | error cause => rfl
  | ok items => exact congrArg Except.ok (List.append_assoc xs ys items).symm

theorem blank (h : Scans cs xs) : Scans (' ' :: cs) xs := by
  intro rest hrest
  rw [List.cons_append, scan_blank rfl, h rest hrest]

/-- An item that is read by itself may stand before any others. -/
theorem cons {c : Char} {item : Item} (hc : Text.isBlank c = false)
    (hread : ∀ rest, read? c rest = some (item, rest)) (h : Scans cs xs) :
    Scans (c :: cs) (item :: xs) := by
  intro rest hrest
  rw [List.cons_append, scan_of_read? hc (hread _), h rest hrest]
  cases scan rest with
  | error cause => rfl
  | ok items => rfl

theorem openParen (h : Scans cs xs) : Scans ('(' :: cs) (.openParen :: xs) :=
  h.cons rfl fun _ => rfl

theorem closeParen (h : Scans cs xs) : Scans (')' :: cs) (.closeParen :: xs) :=
  h.cons rfl fun _ => rfl

theorem pipe (h : Scans cs xs) : Scans ('|' :: cs) (.pipe :: xs) := h.cons rfl fun _ => rfl

theorem equals (h : Scans cs xs) : Scans ('=' :: cs) (.equals :: xs) := h.cons rfl fun _ => rfl

theorem word {s : String} (h : BareWord s) : Scans s.toList [.word s] := by
  intro rest hrest
  have hword : ∀ c ∈ s.toList, isWordChar c = true :=
    fun c hc => (isBareChar_iff.1 (h.2 c hc)).1
  have htake := takeWord_append hword hrest
  cases hs : s.toList with
  | nil => exact absurd hs h.1
  | cons c cs =>
    rw [hs] at hword htake
    have hc := hword c List.mem_cons_self
    rw [List.cons_append] at htake ⊢
    rw [scan_of_read? (not_isBlank_of_isWordChar hc) (read?_word hc htake (List.cons_ne_nil c cs)),
      ← hs, String.ofList_toList]
    rfl

/-- A text that is one quoted item by itself is one wherever it stands. -/
theorem quoted {raw : String} (h : scan raw.toList = .ok [.quoted raw]) :
    Scans raw.toList [.quoted raw] := by
  rw [scan_step] at h
  split at h
  · cases h
  · rename_i c more hdrop
    split at h
    · cases h
    · rename_i item left hread
      have hitem : item = .quoted raw := by
        cases hleft : scan left with
        | error cause => rw [hleft] at h; cases h
        | ok items =>
          rw [hleft] at h
          exact (List.cons.inj (Except.ok.inj h)).1
      rw [hitem] at hread
      obtain ⟨hquote, taken, hclose, hraw⟩ := read?_eq_quoted hread
      have hblank : Text.isBlank c = false := by
        rw [Bool.or_eq_true, beq_iff_eq, beq_iff_eq] at hquote
        rcases hquote with rfl | rfl <;> rfl
      -- The text begins with its quote, so it is the whole of what is read.
      rw [hraw, List.dropWhile_cons_of_neg (by simp [hblank])] at hdrop
      obtain ⟨-, rfl⟩ := List.cons.inj hdrop
      have hlength := length_closeQuote? hclose
      have hleft : left = [] := List.length_eq_zero_iff.1 (by omega)
      intro rest _
      have hagain : read? c (taken ++ rest) = some (.quoted raw, rest) := by
        unfold read?
        rw [if_pos hquote, closeQuote?_append hclose rest, hleft, Option.map_some]
        dsimp only
        rw [← hraw, String.ofList_toList]
        rfl
      rw [hraw, List.cons_append, scan_of_read? hblank hagain]
      rfl

end Scans

end Item

end Stencil
