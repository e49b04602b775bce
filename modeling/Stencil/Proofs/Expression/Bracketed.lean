import Stencil.Proofs.Source.Items

/-!
# Words with brackets

A word outside of brackets ends at the first character that no word may hold, but what stands in
brackets belongs to it whatever it is. So a text whose brackets are closed one after the other, and
which has none of those characters outside of them, is one word wherever it stands; and it stays one
with a key in brackets behind it.
-/

namespace Stencil

/-- The characters of a key in brackets, with a point in front. -/
def keyBehind (key : List Char) : List Char := '.' :: '[' :: (key ++ [']'])

namespace Item

/-- The rest of a word, from outside its brackets or from inside of one. -/
inductive WordFrom : Bool → List Char → Prop where
  | nil : WordFrom false []
  | plain {c : Char} {cs : List Char} : isWordChar c = true → WordFrom false cs →
      WordFrom false (c :: cs)
  | opening {cs : List Char} : WordFrom true cs → WordFrom false ('[' :: cs)
  | inside {c : Char} {cs : List Char} : c ≠ ']' → WordFrom true cs → WordFrom true (c :: cs)
  | closing {cs : List Char} : WordFrom false cs → WordFrom true (']' :: cs)

namespace WordFrom

variable {inside : Bool} {cs ds key : List Char} {c : Char}

theorem closed (h : WordFrom true cs) : ']' ∈ cs := by
  generalize hinside : true = inside at h
  induction h with
  | nil | plain | opening => cases hinside
  | inside _ _ ih => exact List.mem_cons_of_mem _ (ih hinside)
  | closing => exact List.mem_cons_self

theorem append (h : WordFrom inside cs) (hds : WordFrom false ds) : WordFrom inside (cs ++ ds) := by
  induction h with
  | nil => exact hds
  | plain hc _ ih => exact .plain hc ih
  | opening _ ih => exact .opening ih
  | inside hc _ ih => exact .inside hc ih
  | closing _ ih => exact .closing ih

theorem of_key (hkey : ']' ∉ key) (h : WordFrom false cs) : WordFrom true (key ++ ']' :: cs) := by
  induction key with
  | nil => exact .closing h
  | cons c key ih =>
    obtain ⟨hc, hkey⟩ := not_or.1 (List.mem_cons.not.1 hkey)
    exact .inside (Ne.symm hc) (ih hkey)

/-- A key in brackets may hold every character but the closing one. -/
theorem keyBehind (hkey : ']' ∉ key) : WordFrom false (keyBehind key) :=
  .plain rfl (.opening (of_key hkey .nil))

/-- What follows a character of a word outside of brackets. -/
theorem tail (h : WordFrom false (c :: cs)) (hc : isWordChar c = true) : WordFrom false cs := by
  cases h with
  | plain _ h => exact h
  | opening => cases hc

theorem takeWord_eq (h : WordFrom inside cs) {rest : List Char} (hrest : EndsWord rest) :
    takeWord inside (cs ++ rest) = (cs, rest) := by
  induction h with
  | nil => exact takeWord_append (List.forall_mem_nil _) hrest
  | @plain c cs hc _ ih =>
    have hb : (c == '[') = false := by
      rw [beq_eq_false_iff_ne]
      rintro rfl
      cases hc
    simp only [List.cons_append, takeWord, hc, hb, Bool.true_or, Bool.false_eq_true, if_false,
      if_true, ih]
  | @opening cs hcs ih =>
    have hclosed : (cs ++ rest).contains ']' = true := by simp [hcs.closed]
    simp only [List.cons_append, takeWord, hclosed, beq_self_eq_true, Bool.and_self, Bool.or_true,
      Bool.false_eq_true, if_false, if_true, ih]
  | @inside c cs hc _ ih =>
    have hc' : (c != ']') = true := by simpa using hc
    simp only [List.cons_append, takeWord, hc', if_true, ih]
  | @closing cs _ ih =>
    have hc' : (']' != ']') = false := rfl
    simp only [List.cons_append, takeWord, hc', if_true, ih]

/-- No quote and no mark begins a word. -/
theorem first_ne (h : WordFrom false (c :: cs)) :
    Text.isBlank c = false ∧ c ≠ '"' ∧ c ≠ '\'' ∧ c ≠ '(' ∧ c ≠ ')' ∧ c ≠ '|' ∧ c ≠ '=' := by
  cases h with
  | plain hc _ =>
    simp only [isWordChar, Bool.and_eq_true, bne_iff_ne, ne_eq, Bool.not_eq_true'] at hc
    obtain ⟨⟨⟨⟨⟨⟨⟨⟨hblank, hopen⟩, hclose⟩, hequals⟩, hpipe⟩, hdouble⟩, hsingle⟩, -⟩, -⟩ := hc
    exact ⟨hblank, hdouble, hsingle, hopen, hclose, hpipe, hequals⟩
  | opening _ => decide

/-- A word ends with a character that is no white space. -/
theorem last_not_blank (h : WordFrom inside cs) : ∀ c ∈ cs.getLast?, Text.isBlank c = false := by
  induction h with
  | nil => exact fun _ h => by cases h
  | @plain c cs hc _ ih =>
    intro d hd
    cases cs with
    | nil =>
      rw [← Option.mem_some.1 hd]
      exact not_isBlank_of_isWordChar hc
    | cons _ _ => exact ih d hd
  | @opening cs hcs ih =>
    intro d hd
    rw [List.getLast?_cons_of_ne_nil (List.ne_nil_of_mem hcs.closed)] at hd
    exact ih d hd
  | @inside c cs _ hcs ih =>
    intro d hd
    rw [List.getLast?_cons_of_ne_nil (List.ne_nil_of_mem hcs.closed)] at hd
    exact ih d hd
  | @closing cs _ ih =>
    intro d hd
    cases cs with
    | nil =>
      rw [← Option.mem_some.1 hd]
      rfl
    | cons _ _ => exact ih d hd

end WordFrom

/-- A word is one item wherever something follows that ends it. -/
theorem Scans.of_wordFrom {s : String} (hs : WordFrom false s.toList) (hne : s ≠ "") :
    Scans s.toList [.word s] := by
  intro rest hrest
  have htake := hs.takeWord_eq hrest
  cases hchars : s.toList with
  | nil => exact absurd (String.toList_eq_nil_iff.1 hchars) hne
  | cons c cs =>
    rw [hchars] at hs htake
    obtain ⟨hblank, hdouble, hsingle, hopen, hclose, hpipe, hequals⟩ := hs.first_ne
    have hread : read? c (cs ++ rest) = some (.word s, rest) := by
      unfold read?
      rw [List.cons_append] at htake
      rw [if_neg (by simp [hdouble, hsingle]), if_neg (by simp [hopen]), if_neg (by simp [hclose]),
        if_neg (by simp [hpipe]), if_neg (by simp [hequals]), htake]
      simp only [← hchars, String.ofList_toList]
    rw [List.cons_append, scan_of_read? hblank hread]
    rfl

end Item

end Stencil
