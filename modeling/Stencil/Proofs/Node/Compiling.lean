import Stencil.Proofs.Node.Binding
import Stencil.Proofs.Source.RoundTrip
import Stencil.Proofs.Token.Inside

/-!
# How compiling ends

A text compiles to a template, or it is blamed for not scanning or not parsing at one of its places.
One thing else can go wrong: an integer in it may have more digits than a conversion admits, and this
is a fault of the conversion and no error of the source.
-/

namespace Stencil

/-! ## Items stand in the expression -/

namespace Item

/-- A quoted text and what follows it make up the source. -/
theorem append_closeQuote? {quote : Char} {cs taken left : List Char}
    (h : closeQuote? quote cs = some (taken, left)) : taken ++ left = cs := by
  fun_induction closeQuote? quote cs generalizing taken left with
  | case1 | case3 | case5 => cases h
  | case2 | case4 =>
    cases h
    rfl
  | case6 c d rest _ _ _ ih | case7 c d rest _ _ ih =>
    obtain ⟨⟨taken', left'⟩, hclose, heq⟩ := Option.map_eq_some_iff.1 h
    cases heq
    simp [ih hclose]

/-- An item and what follows it make up the source. -/
theorem append_read? {c : Char} {rest left : List Char} {item : Item}
    (h : read? c rest = some (item, left)) : item.text.toList ++ left = c :: rest := by
  unfold read? at h
  split at h
  · obtain ⟨⟨taken, left'⟩, hclose, heq⟩ := Option.map_eq_some_iff.1 h
    cases heq
    simp [text, append_closeQuote? hclose]
  · iterate 4
      split at h
      · rename_i hmark
        cases h
        simp [text, beq_iff_eq.1 hmark]
    have hword := append_takeWord false (c :: rest)
    split at h
    · cases h
    · rename_i htaken
      cases h
      rw [htaken] at hword
      simpa [text] using hword

/-- Every item stands in the expression, by induction on what is left of it. -/
theorem infix_of_scan {cs : List Char} {items : List Item} (h : scan cs = .ok items) :
    ∀ item ∈ items, item.text.toList <:+: cs := by
  induction hn : cs.length using Nat.strongRecOn generalizing cs items with
  | ind n ih =>
    subst hn
    rw [scan_step] at h
    have hdropped : cs.dropWhile Text.isBlank <:+: cs :=
      (List.dropWhile_suffix Text.isBlank).isInfix
    split at h
    · cases h
      exact List.forall_mem_nil _
    · rename_i c rest hcs
      split at h
      · cases h
      · rename_i item left hread
        obtain ⟨others, hothers, h⟩ := bind_eq_ok_iff.1 h
        cases h
        rw [hcs] at hdropped
        have hwhole := append_read? hread
        have hitem : item.text.toList <:+: c :: rest := ⟨[], left, by simpa using hwhole⟩
        have hleft : left <:+: c :: rest := ⟨item.text.toList, [], by simpa using hwhole⟩
        have hshorter : left.length < cs.length :=
          Nat.lt_of_lt_of_le (length_read?_lt hread) hdropped.length_le
        exact List.forall_mem_cons.2 ⟨hitem.trans hdropped,
          fun other hother => (ih _ hshorter hothers rfl other hother).trans
            (hleft.trans hdropped)⟩

end Item

/-! ## Literals -/

/-- A fault for an integer, in `cs`, with more digits than a conversion admits. -/
def Fault.OfDigits (cs : List Char) (cause : Fault) : Prop :=
  ∃ digits, digits <:+: cs ∧ (∀ d ∈ digits, Text.isDecimal d = true) ∧
    digitLimit < digits.length ∧ cause = longInteger (some digits.length)

theorem takeWhile_of_digits {digits : List Char} (h : ∀ d ∈ digits, Text.isDecimal d = true) :
    digits.takeWhile Text.isDecimal = digits := by
  rw [← List.append_nil digits, List.takeWhile_append_of_pos h]
  simp

/-- A number without a point is a row of digits, with or without a minus sign. -/
theorem Literal.digits_of_numberShape? {cs : List Char} (h : numberShape? cs = some false) :
    ∃ digits, digits ≠ [] ∧ (∀ d ∈ digits, Text.isDecimal d = true) ∧
      (cs = digits ∨ cs = '-' :: digits) := by
  unfold numberShape? at h
  dsimp only at h
  generalize hbody : (if cs.head? == some '-' then cs.drop 1 else cs) = body at h
  split at h
  · rename_i hdrop
    split at h
    · cases h
    · rename_i hwhole
      -- Nothing stands behind the digits, so they are the body.
      have hdigits := List.takeWhile_append_dropWhile (p := Text.isDecimal) (l := body)
      rw [hdrop, List.append_nil] at hdigits
      rw [hdigits] at hwhole
      refine ⟨body, by simpa using hwhole, ?_, ?_⟩
      · rw [← hdigits]
        exact List.all_eq_true.1 List.all_takeWhile
      · split at hbody
        · rename_i hminus
          obtain ⟨rest, rfl⟩ := List.head?_eq_some_iff.1 (beq_iff_eq.1 hminus)
          exact .inr (by rw [← hbody]; rfl)
        · exact .inl hbody
  · split at h
    · cases h
    · cases h

/-- Reading digits faults only where there are too many of them. -/
theorem Decimal.readInteger_digits {text : String} {digits : List Char} (hne : digits ≠ [])
    (hdigits : ∀ d ∈ digits, Text.isDecimal d = true)
    (htext : text.toList = digits ∨ text.toList = '-' :: digits) :
    Meets (Fault.OfDigits text.toList) (fun _ => True) (readInteger text) := by
  have hcount := takeWhile_of_digits hdigits
  have hpos := List.length_pos_iff.2 hne
  unfold readInteger
  split
  rename_i negative found hfound
  -- The sign has been taken off, and no digit has been taken for it.
  have heq : found = digits := by
    split at hfound
    · rename_i rest hminus
      cases hfound
      rcases htext with htext | htext
      · rw [hminus] at htext
        exact absurd (hdigits '-' (htext ▸ List.mem_cons_self)) (by decide)
      · rw [hminus] at htext
        exact (List.cons.inj htext).2
    · rename_i hnot
      cases hfound
      exact htext.resolve_right fun h => hnot digits h
  subst heq
  rw [hcount]
  refine Meets.ite (fun hlong => Meets.throw ⟨found, ?_, hdigits, hlong, rfl⟩) fun _ => ?_
  · rcases htext with htext | htext
    · exact htext ▸ List.infix_rfl
    · rw [htext]
      exact (List.suffix_cons _ _).isInfix
  · rw [if_neg (by simp; omega)]
    exact Meets.pure trivial

/-- A bare text faults only as an integer with too many digits. -/
theorem Param.ofText_digits (raw : String) :
    Meets (Fault.OfDigits raw.toList) (fun _ => True) (ofText raw) := by
  have hliteral : Meets (Fault.OfDigits raw.toList) (fun _ => True) (Literal.ofText? raw) := by
    unfold Literal.ofText?
    refine Meets.ite (fun _ => Meets.pure trivial) fun _ => ?_
    refine Meets.ite (fun _ => Meets.pure trivial) fun _ => ?_
    refine Meets.ite (fun _ => Meets.pure trivial) fun _ => ?_
    refine Meets.ite (fun _ => Meets.pure trivial) fun _ => ?_
    split
    · exact Meets.pure trivial
    · rename_i hshape
      obtain ⟨digits, hne, hdigits, htext⟩ := Literal.digits_of_numberShape? hshape
      exact (Decimal.readInteger_digits hne hdigits htext).bind fun _ _ => Meets.pure trivial
    · exact Meets.pure trivial
  refine hliteral.bind fun value? _ => ?_
  cases value? with
  | none => exact Meets.pure trivial
  | some value => exact Meets.pure trivial

theorem Fault.OfDigits.mono {cs more : List Char} {cause : Fault} (h : cause.OfDigits cs)
    (hmore : cs <:+: more) : cause.OfDigits more := by
  obtain ⟨digits, hinfix, hdigits, hlong, rfl⟩ := h
  exact ⟨digits, hinfix.trans hmore, hdigits, hlong, rfl⟩

/-! ## Sources -/

/-- How a text under a name can fail to compile: by errors of scanning and parsing at its places, and
by integers with too many digits. -/
inductive Failure.OfText (name : String) (text : List Char) : Failure → Prop where
  | scan {place : Location} {cause : ScanError} : place.file = name →
      OfText name text (.scan place cause)
  | parse {place : Location} {cause : ParseError} : place.file = name →
      OfText name text (.parse place cause)
  | fault {cause : Fault} : cause.OfDigits text → OfText name text (.fault cause)

/-- A token that stands in a text fails as the text does. -/
theorem Token.StandsIn.failsAt {r : Node.Reader} {text : List Char} {t : Token}
    (h : t.StandsIn text) : r.FailsAt (Failure.OfText r.file text) t where
  place _ := .parse rfl
  faults _ hscan item hitem _ hcause :=
    .fault (((Param.ofText_digits item.text).of_error hcause).mono
      ((Item.infix_of_scan hscan item hitem).trans h))

/-- Every text, whatever the delimiters and the helpers, compiles to a template or is blamed for an
error of scanning or parsing at one of its places; the only fault is that of an integer in it with
more digits than a conversion admits. -/
theorem Template.ofSource_compiles_or_blamed (helperOf : String → Option Helper)
    (marks : Delimiters) (name source : String) :
    Meets (Failure.OfText name source.toList) (fun _ => True)
      (ofSource helperOf marks name source) := by
  have htokens : Meets (Failure.OfText name source.toList)
      (fun tokens => ∀ t ∈ tokens, t.StandsIn source.toList)
      (Token.ofSource name marks source) := by
    refine (Token.ofSource_standsIn name marks source).mono ?_ fun _ h => h
    rintro f ⟨place, cause, rfl, hfile⟩
    exact .scan hfile
  refine htokens.bind fun tokens hstand => ?_
  have hwhole : Meets (Failure.OfText name source.toList) (Node.Every (Node.TagBinds fun _ => True))
      (Node.Reader.whole ⟨name, helperOf⟩ tokens) :=
    Node.Reader.whole_meets (fun _ _ _ => trivial) fun t ht => (hstand t ht).failsAt
  exact hwhole.bind fun _ _ => Meets.pure trivial

/-! ## Integers with too many digits -/

section

variable {raw : String} {d : Char} {rest : List Char} (hraw : raw.toList = d :: rest)
variable (hdigits : ∀ c ∈ d :: rest, Text.isDecimal c = true)

include hdigits in
theorem ne_of_isDecimal {c : Char} (hc : Text.isDecimal c = false) : d ≠ c := by
  rintro rfl
  rw [hdigits d List.mem_cons_self] at hc
  cases hc

include hdigits in
theorem Literal.numberShape?_of_digits : numberShape? (d :: rest) = some false := by
  have hsign : ((d :: rest).head? == some '-') = false := by
    simpa using ne_of_isDecimal hdigits (c := '-') (by decide)
  have hwhole : (d :: rest).takeWhile Text.isDecimal = d :: rest :=
    takeWhile_of_digits hdigits
  have hbehind : (d :: rest).dropWhile Text.isDecimal = [] := by
    rw [← List.append_nil (d :: rest), List.dropWhile_append_of_pos hdigits]
    rfl
  unfold numberShape?
  simp only [hsign, Bool.false_eq_true, if_false, hwhole, hbehind, List.isEmpty_cons]

include hraw hdigits in
theorem Decimal.readInteger_of_digits (hlong : Fault.digitLimit < (d :: rest).length) :
    readInteger raw = .error (.longInteger (some (d :: rest).length)) := by
  unfold readInteger
  split
  rename_i negative found hfound
  split at hfound
  · rename_i hminus
    rw [hraw] at hminus
    exact absurd (List.cons.inj hminus).1 (ne_of_isDecimal hdigits (by decide))
  · cases hfound
    rw [hraw, takeWhile_of_digits hdigits]
    exact if_pos hlong

include hraw hdigits in
/-- A row of digits is neither a quoted text nor a word for another literal. -/
theorem Param.ofText_of_digits (hlong : Fault.digitLimit < (d :: rest).length) :
    ofText raw = .error (.longInteger (some (d :: rest).length)) := by
  have hword (s : String) (c : Char) (hs : s.toList.head? = some c)
      (hc : Text.isDecimal c = false) : (raw == s) = false := by
    rw [beq_eq_false_iff_ne]
    rintro rfl
    rw [hraw] at hs
    exact ne_of_isDecimal hdigits hc (Option.some.inj hs)
  have hquote : (d == '"' || d == '\'') = false := by
    have hdouble := ne_of_isDecimal hdigits (c := '"') (by decide)
    have hsingle := ne_of_isDecimal hdigits (c := '\'') (by decide)
    simp [hdouble, hsingle]
  have hliteral : Literal.ofText? raw = .error (.longInteger (some (d :: rest).length)) := by
    unfold Literal.ofText?
    simp only [hraw, List.headD_cons, hquote, hword "true" 't' rfl (by decide),
      hword "false" 'f' rfl (by decide), hword "null" 'n' rfl (by decide),
      hword "undefined" 'u' rfl (by decide), Literal.numberShape?_of_digits hdigits,
      Decimal.readInteger_of_digits hraw hdigits hlong, Bool.and_false, Bool.false_and,
      Bool.or_self, Bool.false_eq_true, if_false]
    rfl
  rw [ofText, hliteral]
  rfl

end

/-- The tag of a helper with a row of digits as its argument. -/
def Token.digitsTag (digits : List Char) : Token := .of .plain (String.ofList ('a' :: ' ' :: digits))

theorem Token.digitsTag_legible {digits : List Char} (hne : digits ≠ [])
    (hdigits : ∀ d ∈ digits, Text.isDecimal d = true) : Legible (digitsTag digits) := by
  have hsettled : Settled (String.ofList ('a' :: ' ' :: digits)).toList := by
    rw [String.toList_ofList]
    have hbare := Settled.of_bare fun d hd => isBareChar_of_isDecimal (hdigits d hd)
    exact (hbare.cons (by decide) hne).cons (by decide) (List.cons_ne_nil _ _)
  refine .expression rfl hsettled ⟨'a', ' ' :: digits, String.toList_ofList, by decide⟩ fun _ => ?_
  rw [String.toList_ofList]
  rfl

/-- An output tag is not read whose argument is a row of too many digits. -/
theorem Node.Reader.leaf_of_digits {r : Node.Reader} {t : Token} {d : Char} {rest : List Char}
    (ht : t.unplaced = Token.digitsTag (d :: rest))
    (hdigits : ∀ c ∈ d :: rest, Text.isDecimal c = true)
    (hlong : Fault.digitLimit < (d :: rest).length) :
    r.leaf t = .error (.fault (.longInteger (some (d :: rest).length))) := by
  obtain ⟨hkind, hvalue, -⟩ := eq_of_unplaced ht
  have hbare : BareWord (String.ofList (d :: rest)) := by
    refine ⟨by simp, fun c hc => isBareChar_of_isDecimal (hdigits c ?_)⟩
    rwa [String.toList_ofList] at hc
  have hitems : Item.Scans t.value.toList [.word "a", .word (String.ofList (d :: rest))] := by
    have hname : Item.Scans "a".toList [.word "a"] := .word (.of_isPlainName (by decide))
    have hchars : t.value.toList = "a".toList ++ ' ' :: (String.ofList (d :: rest)).toList := by
      simp [hvalue]
    rw [hchars]
    exact hname.append (Item.Scans.word hbare).blank (.cons ⟨rfl, by decide⟩ _)
  have hparse : Expression.parse (r.binding t) t.value =
      .error (.fault (.longInteger (some (d :: rest).length))) := by
    rw [Expression.parse, Expression.itemsOf, hitems.scan_eq]
    change (Expression.arguments (r.binding t) false false [_] >>= _) = _
    rw [Expression.arguments, if_neg (by simp), Expression.positional, if_neg Bool.false_ne_true,
      Expression.param, Expression.bareParam,
      Param.ofText_of_digits String.toList_ofList hdigits hlong]
    · rfl
    · rintro _ _ _ ⟨⟩
    · rintro _ _ ⟨⟩
  rw [leaf, hkind]
  dsimp only
  rw [outputNode, hparse]
  rfl

/-- A row of too many digits is a fault wherever it stands alone as an argument. -/
theorem Template.ofSource_of_digits (helperOf : String → Option Helper) (name : String) {d : Char}
    {rest : List Char} (hdigits : ∀ c ∈ d :: rest, Text.isDecimal c = true)
    (hlong : Fault.digitLimit < (d :: rest).length) :
    ofSource helperOf .standard name (String.ofList (Token.digitsTag (d :: rest)).written) =
      .error (.fault (.longInteger (some (d :: rest).length))) := by
  have hlegible : ∀ t ∈ [Token.digitsTag (d :: rest)], t.Legible :=
    List.forall_mem_singleton.2 (Token.digitsTag_legible (List.cons_ne_nil d rest) hdigits)
  obtain ⟨found, hfound, hmap⟩ := Token.ofSource_written name hlegible (by simp [Token.Apart])
    (String.toList_ofList.trans (List.append_nil _).symm)
  obtain ⟨t, rfl, ht⟩ := List.map_eq_singleton_iff.1 hmap
  have hleaf := Node.Reader.leaf_of_digits (r := ⟨name, helperOf⟩) ht hdigits hlong
  have hkind := (Node.Reader.eq_of_unplaced ht).1
  have hwhole (u : Token) : Node.Reader.whole ⟨name, helperOf⟩ ([t] ++ [u]) =
      .error (.fault (.longInteger (some (d :: rest).length))) := by
    rw [Node.Reader.whole, List.singleton_append, Node.Reader.nodes, hkind]
    dsimp only
    rw [hleaf]
    rfl
  rw [ofSource, hfound]
  change (Node.Reader.whole _ _ >>= _) = _
  rw [hwhole]
  rfl

/-- The fault of 4301 ones, in a source that scans and parses. -/
theorem Template.ofSource_ones_fault :
    ofSource (fun _ => none) .standard ""
        (String.ofList ("\x7b\x7ba ".toList ++ (List.replicate 4301 '1' ++ "\x7d\x7d".toList))) =
      .error (.fault (.longInteger (some 4301))) := by
  have hones : ∀ c ∈ '1' :: List.replicate 4300 '1', Text.isDecimal c = true := by
    rw [← List.replicate_succ]
    intro c hc
    rw [List.eq_of_mem_replicate hc]
    decide
  have hlength : ('1' :: List.replicate 4300 '1').length = 4301 := by
    rw [List.length_cons, List.length_replicate]
  have hwritten (digits : List Char) : (Token.digitsTag digits).written =
      "\x7b\x7ba ".toList ++ (digits ++ "\x7d\x7d".toList) := by
    simp [Token.digitsTag, Token.of, Token.written, Token.inner, TokenKind.sigil,
      TokenKind.trailer]
  rw [List.replicate_succ, ← hwritten, ofSource_of_digits _ _ hones (by rw [hlength]; decide),
    hlength]

end Stencil
