import Stencil.Proofs.Node.Rereading
import Stencil.Proofs.Source.Tags
import Stencil.Proofs.Token.Partition
import Stencil.Token.Trim

/-!
# Other delimiters

The delimiters of a source exchanged for others that hold none of its characters: the tags that the
scanner finds between them say what they said before. Two marks of the scanner's own can come about
where a new closing delimiter meets what follows it, a tilde that belongs to the tag and the dashes of
a long comment; where neither does, the scan is the same.
-/

namespace Stencil

namespace Text

/-- A text that begins with some characters and then one that another text does not hold reaches
beyond the other text. -/
theorem length_le_of_prefix {front behind held rest : List Char} {c : Char}
    (h : front ++ c :: behind <+: held ++ rest) (hc : c ∉ held) : held.length ≤ front.length := by
  obtain ⟨more, h⟩ := h
  rw [List.append_assoc] at h
  rcases List.append_eq_append_iff.1 h with ⟨between, hheld, hbehind⟩ | ⟨between, hfront, -⟩
  · cases between with
    | nil => simp [hheld]
    | cons d between =>
      have hd := (List.cons.inj hbehind).1
      exact absurd (by simp [hheld, hd]) hc
  · simp [hfront]

end Text

namespace Tag

/-! ## How a tag is read -/

/-- The body of a tag behind the tilde that may stand at its front. -/
def behindTilde (body : List Char) : List Char :=
  if body.head? == some '~' then body.drop 1 else body

/-- How a tag is read that is neither in braces nor sets delimiters: as a comment in dashes, or by
what it holds. -/
inductive Reads (marks : Delimiters) (body : List Char) : Tag → List Char → Prop where
  | dashes {content rest : List Char} {trims : Bool} :
      (behindTilde body).take 3 = ['!', '-', '-'] →
      enclosed ['-', '-'] marks.closing.toList ((behindTilde body).drop 3) =
        .ok (content, trims, rest) →
      Reads marks body
        ⟨.comment, ['-', '-'] ++ content ++ ['-', '-'], body.head? == some '~', trims⟩ rest
  | content {content value rest : List Char} {kind : TokenKind} {trims : Bool} :
      (behindTilde body).take 3 ≠ ['!', '-', '-'] → (behindTilde body).head? ≠ some '=' →
      enclosed [] marks.closing.toList (behindTilde body) = .ok (content, trims, rest) →
      classify content = .ok (kind, value) →
      Reads marks body ⟨kind, value, body.head? == some '~', trims⟩ rest

variable {marks : Delimiters} {body rest : List Char} {tag : Tag}

/-- A tag that is neither in braces nor sets delimiters has been read in one of the two ways. -/
theorem reads_of_read (h : read marks body = .ok (tag, rest)) (hbraces : tag.kind ≠ .triple)
    (hmarks : tag.kind ≠ .delimiters) : Reads marks body tag rest := by
  unfold read at h
  dsimp only at h
  rw [← behindTilde] at h
  split at h
  · obtain ⟨⟨content, trims, after⟩, henclosed, h⟩ := bind_eq_ok_iff.1 h
    cases h
    exact absurd rfl hbraces
  · split at h
    · rename_i hdashes
      obtain ⟨⟨content, trims, after⟩, henclosed, h⟩ := bind_eq_ok_iff.1 h
      cases h
      exact .dashes (beq_iff_eq.1 hdashes) henclosed
    · rename_i hdashes
      split at h
      · split at h
        · cases h
          exact absurd rfl hmarks
        · cases h
      · rename_i hequals
        obtain ⟨⟨content, trims, after⟩, henclosed, h⟩ := bind_eq_ok_iff.1 h
        obtain ⟨⟨kind, value⟩, hclassify, h⟩ := bind_eq_ok_iff.1 h
        cases h
        exact .content (by simpa using hdashes) (by simpa using hequals) henclosed hclassify

theorem read_of_reads (h : Reads marks body tag rest)
    (hbraces : ¬(marks.opening = Delimiters.standard.opening ∧
      (behindTilde body).head? = some '\x7b')) : read marks body = .ok (tag, rest) := by
  have hbraces : (marks.opening == Delimiters.standard.opening &&
      (behindTilde body).head? == some '\x7b') = false := by
    rw [Bool.and_eq_false_iff, beq_eq_false_iff_ne, beq_eq_false_iff_ne]
    exact Decidable.not_and_iff_or_not.1 hbraces
  unfold read
  dsimp only
  rw [← behindTilde, if_neg (by simp [hbraces])]
  cases h with
  | dashes hdashes henclosed =>
    rw [if_pos (by simp [hdashes]), henclosed]
    rfl
  | content hdashes hequals henclosed hclassify =>
    rw [if_neg (by simpa using hdashes), if_neg (by simpa using hequals), henclosed]
    change (classify _ >>= _) = _
    rw [hclassify]
    rfl

/-! ## Another closing delimiter -/

/-- The tilde that a tag may end with. -/
def tilde (trims : Bool) : List Char := if trims then ['~'] else []

/-- What an enclosed body is made of, tilde and closing delimiter included. -/
theorem eq_of_enclosed {lead closing body content rest : List Char} {trims : Bool}
    (h : enclosed lead closing body = .ok (content, trims, rest)) :
    body = content ++ (lead ++ tilde trims ++ closing ++ rest) ∧
      ∀ c, content.getLast? = some c → trims = false → c :: lead ≠ lead ++ ['~'] := by
  unfold enclosed at h
  split at h
  · rename_i b needle a hcut
    cases h
    obtain ⟨hbody, hmem⟩ := Text.append_of_cut? hcut
    simp only [List.mem_cons, List.not_mem_nil, or_false] at hmem
    refine ⟨?_, fun c hlast htrims hshift => ?_⟩
    · rcases hmem with rfl | rfl
      · simp [hbody, tilde]
      · simp [hbody, tilde]
    · -- With the character before it, the closing text would have been found earlier.
      obtain ⟨front, rfl⟩ := List.getLast?_eq_some_iff.1 hlast
      have hmissed := Text.not_prefix_of_cut? hcut rfl (by simp : [c] ≠ [])
        (n := lead ++ '~' :: closing) (by simp)
      rcases hmem with rfl | rfl
      · simp at htrims
      · refine hmissed ⟨rest, ?_⟩
        have hpair : lead ++ '~' :: closing = c :: lead ++ closing := by
          rw [hshift]
          simp
        rw [hpair]
        simp
  · cases h

/-- A tag body is cut at the same place when its closing delimiter is another one that it does not
hold, unless that delimiter and what follows it begin like a tilde and the delimiter. -/
theorem enclosed_respelled (lead content : List Char) {trims : Bool} {closing : List Char}
    (hne : closing ≠ [])
    (hheld : ∀ c ∈ closing, c ∉ content ++ (lead ++ tilde trims))
    (hlast : ∀ c, content.getLast? = some c → trims = false → c :: lead ≠ lead ++ ['~'])
    {after : List Char} (hclear : ¬ '~' :: closing <+: closing ++ after) :
    enclosed lead closing (content ++ (lead ++ tilde trims ++ closing ++ after)) =
      .ok (content, trims, after) := by
  -- At the end of the content the closing text is found.
  have hfound : Text.cut? [lead ++ '~' :: closing, lead ++ closing]
      (lead ++ tilde trims ++ closing ++ after) =
        some ([], lead ++ tilde trims ++ closing, after) := by
    refine Text.cut?_of_find? ?_
    cases trims with
    | true => simp [tilde]
    | false =>
      have hmissed : (lead ++ '~' :: closing).isPrefixOf (lead ++ (closing ++ after)) = false := by
        rw [← Bool.not_eq_true, List.isPrefixOf_iff_prefix, List.prefix_append_right_inj]
        exact hclear
      simp [tilde, hmissed]
  -- Before it there is no room for a closing text.
  have hcut : Text.cut? [lead ++ '~' :: closing, lead ++ closing]
      (content ++ (lead ++ tilde trims ++ closing ++ after)) =
        some (content, lead ++ tilde trims ++ closing, after) := by
    rw [Text.cut?_append, hfound]
    · simp
    rintro front d back rfl needle hneedle hprefix
    obtain ⟨c, cs, rfl⟩ := List.exists_cons_of_ne_nil hne
    have hc : c ∉ d :: back ++ (lead ++ tilde trims) := fun hmem =>
      hheld c List.mem_cons_self (by
        rw [List.append_assoc]
        exact List.mem_append_right front hmem)
    have hroom (mark : List Char) (hneedle : needle = lead ++ mark ++ c :: cs) :
        back.length + 1 + (tilde trims).length ≤ mark.length := by
      have hbegins : lead ++ mark ++ c :: cs <+:
          d :: back ++ (lead ++ tilde trims) ++ (c :: cs ++ after) := by
        rw [hneedle] at hprefix
        simpa using hprefix
      have hlength := Text.length_le_of_prefix hbegins hc
      simp only [List.length_append, List.length_cons] at hlength
      omega
    simp only [List.mem_cons, List.not_mem_nil, or_false] at hneedle
    rcases hneedle with rfl | rfl
    · have hshort := hroom ['~'] (by simp)
      simp only [List.length_cons, List.length_nil] at hshort
      have hback : back = [] := List.length_eq_zero_iff.1 (by omega)
      have htilde : trims = false := by
        cases trims with
        | false => rfl
        | true =>
          simp only [tilde, if_true, List.length_cons] at hshort
          omega
      subst hback htilde
      obtain ⟨more, hmore⟩ := hprefix
      have hshift : lead ++ ['~'] ++ (c :: cs ++ more) = d :: lead ++ (c :: cs ++ after) := by
        simpa [tilde] using hmore
      exact hlast d (by simp) rfl (List.append_inj hshift (by simp)).1.symm
    · have hshort := hroom [] (by simp)
      simp only [List.length_nil] at hshort
      omega
  unfold enclosed
  rw [hcut]
  cases trims <;> simp [tilde, pure, Except.pure]

theorem behindTilde_append {inner : List Char} (hne : inner ≠ []) (cs : List Char) :
    behindTilde (inner ++ cs) = behindTilde inner ++ cs := by
  obtain ⟨c, inner, rfl⟩ := List.exists_cons_of_ne_nil hne
  by_cases hc : c = '~'
  · simp [behindTilde, hc]
  · simp [behindTilde, hc]

theorem mem_of_mem_behindTilde {inner : List Char} {c : Char} (h : c ∈ behindTilde inner) :
    c ∈ inner := by
  unfold behindTilde at h
  split at h
  · exact List.mem_of_mem_drop h
  · exact h

/-- What can follow a tag with other delimiters: neither does its closing delimiter turn into a tilde
and a closing delimiter, nor an empty comment into one in dashes. -/
structure Clear (closing inner after : List Char) : Prop where
  tilde : ¬ '~' :: closing <+: closing ++ after
  dashes : behindTilde inner = ['!'] → ¬['-', '-'] <+: closing ++ after

/-- No comment in dashes comes about, if there was none and an empty comment is followed by none. -/
theorem take_ne_dashes {own closing after before : List Char} (hown : own ≠ [])
    (hheld : ∀ c ∈ closing, c ∉ own) (hne : closing ≠ [])
    (hbefore : (own ++ before).take 3 ≠ ['!', '-', '-'])
    (hempty : own = ['!'] → ¬['-', '-'] <+: closing ++ after) :
    (own ++ (closing ++ after)).take 3 ≠ ['!', '-', '-'] := by
  obtain ⟨c, cs, rfl⟩ := List.exists_cons_of_ne_nil hne
  have hc := hheld c List.mem_cons_self
  intro htake
  match own with
  | [a] =>
    simp only [List.singleton_append, List.take_succ_cons, List.cons.injEq] at htake
    obtain ⟨rfl, htake⟩ := htake
    refine hempty rfl ⟨(c :: cs ++ after).drop 2, ?_⟩
    rw [← htake, List.take_append_drop]
  | [a, b] =>
    simp only [List.cons_append, List.take_succ_cons, List.cons.injEq] at htake
    obtain ⟨rfl, rfl, rfl, -⟩ := htake
    simp at hc
  | a :: b :: d :: own =>
    refine hbefore ?_
    simpa using htake

/-- A tag says the same between other delimiters that hold none of its characters. -/
theorem read_respelled {marks d : Delimiters} {inner rest after : List Char} {tag : Tag}
    (hinner : inner ≠ []) (h : Reads marks (inner ++ (marks.closing.toList ++ rest)) tag rest)
    (hopening : ∀ c ∈ d.opening.toList, c ∉ inner) (hclosing : ∀ c ∈ d.closing.toList, c ∉ inner)
    (hne : d.closing.toList ≠ []) (hclear : Clear d.closing.toList inner after) :
    read d (inner ++ (d.closing.toList ++ after)) = .ok (tag, after) := by
  have htilde (cs : List Char) : (inner ++ cs).head? = inner.head? := by
    rw [List.head?_append_of_ne_nil _ hinner]
  have hbehind := behindTilde_append hinner
  have hheld : ∀ c ∈ d.closing.toList, c ∉ behindTilde inner :=
    fun c hc hmem => hclosing c hc (mem_of_mem_behindTilde hmem)
  generalize hown : behindTilde inner = own at hbehind hheld
  have hnew : own ≠ [] ∧ Reads d (inner ++ (d.closing.toList ++ after)) tag after := by
    cases h with
    | @dashes content _ trims hdashes henclosed =>
      rw [hbehind] at hdashes henclosed
      obtain ⟨hbody, hlast⟩ := eq_of_enclosed henclosed
      have hwhole : own = ['!', '-', '-'] ++ (content ++ (['-', '-'] ++ tilde trims)) := by
        have heq := List.take_append_drop 3 (own ++ (marks.closing.toList ++ rest))
        rw [hdashes, hbody] at heq
        have hends : own ++ (marks.closing.toList ++ rest) =
            ['!', '-', '-'] ++ (content ++ (['-', '-'] ++ tilde trims)) ++
              (marks.closing.toList ++ rest) := by
          rw [← heq]
          simp
        exact List.append_cancel_right hends
      refine ⟨by simp [hwhole], ?_⟩
      rw [htilde, ← htilde (d.closing.toList ++ after)]
      refine .dashes ?_ ?_
      · rw [hbehind, hwhole]
        simp
      · rw [hbehind, hwhole]
        have hcut := enclosed_respelled ['-', '-'] content hne
          (fun c hc hmem => hheld c hc (by rw [hwhole]; exact List.mem_append_right _ hmem)) hlast
          hclear.tilde
        simpa using hcut
    | @content content _ _ _ trims hdashes hequals henclosed hclassify =>
      rw [hbehind] at hdashes hequals henclosed
      obtain ⟨hbody, hlast⟩ := eq_of_enclosed henclosed
      have hwhole : own = content ++ tilde trims := by
        have hends : own ++ (marks.closing.toList ++ rest) =
            content ++ tilde trims ++ (marks.closing.toList ++ rest) := by
          rw [hbody]
          simp
        exact List.append_cancel_right hends
      have hfilled : own ≠ [] := by simp [hwhole, classify_ne_nil hclassify]
      refine ⟨hfilled, ?_⟩
      rw [htilde, ← htilde (d.closing.toList ++ after)]
      refine .content ?_ ?_ ?_ hclassify
      · rw [hbehind]
        exact take_ne_dashes hfilled hheld hne hdashes fun hempty =>
          hclear.dashes (hown.trans hempty)
      · rw [hbehind, List.head?_append_of_ne_nil _ hfilled]
        rwa [List.head?_append_of_ne_nil _ hfilled] at hequals
      · rw [hbehind, hwhole]
        have hcut := enclosed_respelled [] content hne
          (fun c hc hmem => hheld c hc (by rw [hwhole]; simpa using hmem)) hlast hclear.tilde
        simpa using hcut
  refine read_of_reads hnew.2 ?_
  rintro ⟨hstandard, hbrace⟩
  rw [hbehind, List.head?_append_of_ne_nil _ hnew.1] at hbrace
  refine hopening '\x7b' (by rw [hstandard]; decide) ?_
  exact mem_of_mem_behindTilde (hown ▸ List.mem_of_mem_head? hbrace)

end Tag

end Stencil
