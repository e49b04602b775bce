import Stencil.Proofs.Node.Binding
import Stencil.Proofs.Node.Grammar
import Stencil.Proofs.Token.Openings

/-!
# Compile errors point at tags

An error of compiling names the place of a tag: where the opening delimiter stands that is in force
there. It is the tag that cannot be scanned, the tag whose expression cannot be parsed, or the tag that
stands where it must not. A section or an inline partial that is not closed is blamed on its opening
tag, and then nothing but what it holds stands between that tag and the end of the source.
-/

namespace Stencil

/-- The failures of a tag at a place: its own errors there, and faults. -/
inductive Failure.OfTag (place : Location) : Failure → Prop where
  | parse {cause : ParseError} (h : cause.IsOfTag) : OfTag place (.parse place cause)
  | fault (cause : Fault) : OfTag place (.fault cause)

namespace Node.Reader

/-- What a tag opens that has a closing tag: a section with its clauses, or an inline partial with its
nodes. -/
inductive BeginsPart (t : Token) : Part → Prop where
  | block : t.kind = .opening ∨ t.kind = .inverted → BeginsPart t .clauses
  | inline : t.kind = .inline → BeginsPart t .nodes

/-- A tag that opens something which is not closed in some tokens: balanced tokens stand behind it, and
nothing else. -/
def LeftOpen (r : Reader) (tokens : List Token) (t : Token) : Prop :=
  ∃ front part inner, tokens = front ++ t :: inner ∧ BeginsPart t part ∧ Derives r part inner

/-- How some tokens can fail to be read: at a tag of theirs, or where they end, for a tag that is not
closed up to there. -/
inductive Blames (r : Reader) (tokens : List Token) : Failure → Prop where
  | tag {t : Token} {f : Failure} (hmem : t ∈ tokens) (htag : t.isTag = true)
      (h : f.OfTag (t.location r.file)) : Blames r tokens f
  | unterminated {t : Token} {held rest : List Token} {name : String}
      (htokens : tokens = held ++ rest) (hopen : r.LeftOpen held t)
      (hends : ∀ u ∈ rest.head?, u.kind = .ending) :
      Blames r tokens (.parse (t.location r.file) (.unterminated name))

variable {r : Reader} {t opener : Token} {tokens front left last rest : List Token} {f : Failure}

theorem BeginsPart.isTag {part : Part} (h : BeginsPart t part) : t.isTag = true := by
  cases h with
  | block h => rcases h with h | h <;> simp [Token.isTag, h]
  | inline h => simp [Token.isTag, h]

/-- What is blamed in the end of some tokens is blamed in them. -/
theorem Blames.behind (h : r.Blames tokens f) (front : List Token) :
    r.Blames (front ++ tokens) f := by
  cases h with
  | tag hmem htag h => exact .tag (List.mem_append_right _ hmem) htag h
  | @unterminated t held rest _ htokens hopen hends =>
    obtain ⟨before, part, inner, rfl, hpart, hinner⟩ := hopen
    have hopen : r.LeftOpen (front ++ (before ++ t :: inner)) t :=
      ⟨front ++ before, part, inner, by rw [List.append_assoc], hpart, hinner⟩
    refine .unterminated ?_ hopen hends
    rw [htokens, List.append_assoc front, List.append_assoc before]

theorem Blames.of_suffix (h : r.Blames left f) (hsuffix : left <:+ tokens) : r.Blames tokens f := by
  obtain ⟨front, rfl⟩ := hsuffix
  exact h.behind front

theorem failAt_blames {α : Type} {V : α → Prop} {cause : ParseError} (hmem : t ∈ tokens)
    (htag : t.isTag = true) (h : cause.IsOfTag) :
    Meets (r.Blames tokens) V (r.failAt t cause) :=
  Meets.throw (.tag hmem htag (.parse h))

/-! ## Tags by themselves -/

/-- A tag by itself fails at its place. -/
theorem failsAlone_ofTag (r : Reader) (t : Token) :
    r.FailsAlone (Failure.OfTag (t.location r.file)) t where
  place _ h := .parse h
  faults _ _ _ _ cause _ := .fault cause

theorem parse_ofTag (r : Reader) (t : Token) :
    Meets (Failure.OfTag (t.location r.file)) (fun _ => True)
      (Expression.parse (r.binding t) t.value) := by
  have ht := r.failsAlone_ofTag t
  have hparse := Expression.parse_meets (b := r.binding t) (P := fun _ => True) ht.place
    (fun _ _ _ => trivial) ht.faults
  exact hparse.mono (fun _ h => h) fun _ _ => trivial

theorem inlineName_ofTag (r : Reader) (t : Token) :
    Meets (Failure.OfTag (t.location r.file)) (fun _ => True) (r.inlineName t) :=
  inlineName_meets (r.failsAlone_ofTag t)

/-- Only tags fail, and each at its place. -/
theorem leaf_ofTag (r : Reader) (t : Token) :
    Meets (fun f => t.isTag = true ∧ f.OfTag (t.location r.file)) (fun _ => True) (r.leaf t) := by
  by_cases htag : t.isTag = true
  · have hleaf := leaf_meets (P := fun _ => True) (fun _ _ _ => trivial) (r.failsAlone_ofTag t)
    exact hleaf.mono (fun _ h => ⟨htag, h⟩) fun _ _ => trivial
  · have hplain : t.kind = .text ∨ t.kind = .ending := by
      cases hkind : t.kind <;> simp_all [Token.isTag]
    unfold leaf
    rcases hplain with hkind | hkind
    · rw [hkind]
      exact Meets.pure trivial
    · rw [hkind]
      exact Meets.pure trivial

/-! ## Where reading ends -/

theorem NodesRead.suffix {found : List Node} (h : NodesRead r tokens found rest) :
    rest <:+ tokens := by
  obtain ⟨⟨front, rfl, -⟩, -⟩ := (accounted r tokens).1 found rest h
  exact List.suffix_append front rest

theorem NodesRead.ends {found : List Node} (h : NodesRead r tokens found rest) : Ends rest :=
  ((accounted r tokens).1 found rest h).2

/-- A section is read up to a token that is no else tag, by induction on the number of tokens. -/
theorem BlockRead.ends {expression : String} {inverted : Bool} {head : BlockHead} {node : Node}
    (h : BlockRead r opener expression inverted tokens head node last) :
    Ends last ∧ NoElse last := by
  induction hn : tokens.length using Nat.strongRecOn
    generalizing tokens opener expression inverted head node with
  | ind n ih =>
    subst hn
    obtain ⟨name, args, body, left, -, hbody, hclauses⟩ := h.cases
    rcases hclauses with ⟨helse, rfl, -⟩ | ⟨t, behind, label, rfl, -, -, hinverse⟩
    · exact ⟨hbody.ends, helse⟩
    · rcases hinverse with ⟨-, inverse, hread, helse, -⟩ | ⟨-, inner, nested, hread, -⟩
      · exact ⟨hread.ends, helse⟩
      · have hlength := hbody.suffix.length_le
        rw [List.length_cons] at hlength
        exact ih behind.length (by omega) hread rfl

/-! ## Lists and sections -/

/-- What is to be shown of a list of nodes at the front of some tokens. -/
def NodesBlame (r : Reader) (tokens : List Token) : Prop :=
  Meets (r.Blames tokens) (fun _ => True) (r.nodes tokens)

/-- What is to be shown of a section whose opening tag stands before some tokens. -/
def BlockBlames (r : Reader) (tokens : List Token) : Prop :=
  ∀ opener inverted, opener.isTag = true →
    Meets (r.Blames (opener :: tokens)) (fun _ => True) (r.block opener opener.value inverted tokens)

/-- Behind what a tag has opened there is its closing tag, or else one of the two is blamed. -/
theorem closed_blames {part : Part} {inner : List Token} (name : String)
    (hpart : BeginsPart opener part) (hinner : Derives r part inner) (hends : Ends left)
    (helse : NoElse left) :
    Meets (r.Blames (opener :: (inner ++ left))) (fun after => after.1 <:+ left)
      (r.closed opener name left) := by
  have hopen : r.LeftOpen (opener :: inner) opener := ⟨[], part, inner, rfl, hpart, hinner⟩
  unfold closed
  split
  · rename_i t rest
    split
    · rename_i hkind
      have hending : t.kind = .ending :=
        ending_of_stops (hends t rfl) (by simpa using hkind) (helse t rfl)
      refine Meets.throw (.unterminated rfl hopen fun u hu => ?_)
      cases hu
      exact hending
    · rename_i hkind
      have hkind : t.kind = .closing := by simpa using hkind
      split
      · exact failAt_blames (by simp) (by simp [Token.isTag, hkind]) trivial
      · exact Meets.pure (List.suffix_cons t rest)
  · exact Meets.throw (.unterminated rfl hopen fun u hu => by cases hu)

/-- Where nodes are read that stand further on, they are blamed as they are by themselves. -/
theorem rest_blames {α : Type} {k : List Node × { last : List Token // last.length ≤ rest.length } → α}
    (h : NodesBlame r rest) (hsuffix : rest <:+ tokens) :
    Meets (r.Blames tokens) (fun _ => True) (r.nodes rest >>= fun found => pure (k found)) :=
  (h.mono (fun _ hf => hf.of_suffix hsuffix) fun _ hv => hv).bind fun _ _ => Meets.pure trivial

/-- A tag where none of its kind may stand is blamed. -/
theorem stray_blames {α : Type} {V : α → Prop} {cause : ParseError} {label : ElseLabel}
    (hsuffix : left <:+ tokens) (hhead : left.head? = some t) (hkind : t.kind = .otherwise label)
    (h : cause.IsOfTag) : Meets (r.Blames tokens) V (r.failAt t cause) :=
  failAt_blames (hsuffix.subset (List.mem_of_mem_head? hhead)) (by simp [Token.isTag, hkind]) h

theorem block_blames_of_shorter (hnodes : NodesBlame r tokens)
    (shorterNodes : ∀ left : List Token, left.length < tokens.length → NodesBlame r left)
    (shorterBlock : ∀ left : List Token, left.length < tokens.length → BlockBlames r left) :
    BlockBlames r tokens := by
  intro opener inverted hopener
  unfold block
  refine Meets.bind_eq (fun f h => ?_) ?_
  · exact .tag List.mem_cons_self hopener ((parse_ofTag r opener).of_error h)
  rintro ⟨name, found⟩ -
  refine Meets.bind_eq (fun f h => (hnodes.of_error h).behind [opener]) ?_
  rintro ⟨body, left, hleft⟩ hbody
  have hsuffix : left <:+ opener :: tokens :=
    (NodesRead.suffix ⟨hleft, hbody⟩).trans (List.suffix_cons opener tokens)
  dsimp only
  split
  · exact Meets.pure trivial
  · rename_i t rest
    have hmore : rest <:+ opener :: tokens := (List.suffix_cons t rest).trans hsuffix
    have hshort : rest.length < tokens.length := by
      simp only [List.length_cons] at hleft
      omega
    split
    · rename_i label hkind
      split
      · have hnested := shorterBlock rest hshort t false (by simp [Token.isTag, hkind])
        exact (hnested.mono (fun f h => h.of_suffix hsuffix) fun _ h => h).bind
          fun _ _ => Meets.pure trivial
      · refine Meets.bind_eq (fun f h => ((shorterNodes rest hshort).of_error h).of_suffix hmore) ?_
        rintro ⟨inverse, last, hlast⟩ hinverse
        have hend : last <:+ opener :: tokens := (NodesRead.suffix ⟨hlast, hinverse⟩).trans hmore
        dsimp only
        split
        · rename_i stop hhead
          split
          · rename_i hstop
            exact stray_blames hend hhead hstop trivial
          · exact Meets.pure trivial
        · exact Meets.pure trivial
    · exact Meets.pure trivial

/-- What a tag has opened is closed, and further nodes are read behind it. -/
theorem opened_blames {α : Type} {part : Part} {inner : List Token} (name : String)
    {k : ∀ after : { after : List Token // after.length ≤ left.length },
      List Node × { last : List Token // last.length ≤ after.1.length } → α}
    (hpart : BeginsPart opener part) (hinner : Derives r part inner) (hends : Ends left)
    (helse : NoElse left) (hnodes : ∀ after, after <:+ left → NodesBlame r after) :
    Meets (r.Blames (opener :: (inner ++ left))) (fun _ => True)
      (r.closed opener name left >>= fun after =>
        r.nodes after.1 >>= fun found => pure (k after found)) := by
  refine (closed_blames name hpart hinner hends helse).bind fun after hafter => ?_
  have hleft : left <:+ opener :: (inner ++ left) :=
    (List.suffix_append inner left).trans (List.suffix_cons opener _)
  exact rest_blames (hnodes after.1 hafter) (hafter.trans hleft)

/-- A section, its closing tag and the nodes behind it. -/
theorem section_blames {α : Type}
    {k : ∀ found : BlockHead × Node × { left : List Token // left.length ≤ rest.length },
      ∀ after : { after : List Token // after.length ≤ found.2.2.1.length },
      List Node × { last : List Token // last.length ≤ after.1.length } → α}
    (hkind : opener.kind = .opening ∨ opener.kind = .inverted) (hblock : BlockBlames r rest)
    (hnodes : ∀ after, after <:+ rest → NodesBlame r after) :
    Meets (r.Blames (opener :: rest)) (fun _ => True)
      (r.block opener opener.value (opener.kind == .inverted) rest >>= fun found =>
        r.closed opener found.1.call.name found.2.2.1 >>= fun after =>
          r.nodes after.1 >>= fun others => pure (k found after others)) := by
  have hopener : BeginsSection opener.kind = true := by
    rcases hkind with hkind | hkind <;> rw [hkind] <;> rfl
  have hread := hblock opener (opener.kind == .inverted) (BeginsPart.block hkind).isTag
  refine Meets.bind_eq (fun f h => hread.of_error h) ?_
  rintro ⟨head, node, left, hleft⟩ hfound
  obtain ⟨hends, helse⟩ := BlockRead.ends ⟨hleft, hfound⟩
  obtain ⟨-, -, inner, rfl, hinner, -⟩ :=
    (accounted r rest).2 opener head node left hopener ⟨hleft, hfound⟩
  exact opened_blames head.call.name (.block hkind) hinner hends helse fun after hafter =>
    hnodes after (hafter.trans (List.suffix_append inner left))

theorem nodes_blame_of_shorter
    (shorterNodes : ∀ left : List Token, left.length < tokens.length → NodesBlame r left)
    (shorterBlock : ∀ left : List Token, left.length < tokens.length → BlockBlames r left) :
    NodesBlame r tokens := by
  unfold NodesBlame nodes
  split
  · exact Meets.pure trivial
  · rename_i t rest
    have hmore : rest <:+ t :: rest := List.suffix_cons t rest
    have hnodes (after : List Token) (h : after <:+ rest) : NodesBlame r after :=
      shorterNodes after (Nat.lt_succ_of_le h.length_le)
    have hblock : BlockBlames r rest := shorterBlock rest (Nat.lt_succ_self _)
    have hrest : NodesBlame r rest := hnodes rest List.suffix_rfl
    split
    · exact Meets.pure trivial
    · exact Meets.pure trivial
    · exact Meets.pure trivial
    · rename_i hkind
      exact section_blames (.inl hkind) hblock hnodes
    · rename_i hkind
      exact section_blames (.inr hkind) hblock hnodes
    · rename_i hkind
      refine Meets.bind_eq (fun f h => ?_) fun name _ => ?_
      · exact .tag List.mem_cons_self (BeginsPart.inline hkind).isTag
          ((inlineName_ofTag r t).of_error h)
      refine Meets.bind_eq (fun f h => (hrest.of_error h).of_suffix hmore) ?_
      rintro ⟨body, left, hleft⟩ hbody
      obtain ⟨⟨inner, rfl, hinner, -⟩, hends⟩ := (accounted r rest).1 body left ⟨hleft, hbody⟩
      have hsuffix : left <:+ inner ++ left := List.suffix_append inner left
      dsimp only
      split
      · rename_i stop hhead
        split
        · rename_i hstop
          exact stray_blames (hsuffix.trans hmore) hhead hstop trivial
        · rename_i hstop
          refine opened_blames "inline" (.inline hkind) hinner hends (fun u hu label hlabel => ?_)
            fun after hafter => hnodes after (hafter.trans hsuffix)
          rw [Option.mem_def, hhead] at hu
          cases hu
          exact hstop label hlabel
      · rename_i hhead
        refine opened_blames "inline" (.inline hkind) hinner hends (fun u hu => ?_)
          fun after hafter => hnodes after (hafter.trans hsuffix)
        rw [Option.mem_def, hhead] at hu
        cases hu
    · refine Meets.bind_eq (fun f h => ?_) fun first _ => rest_blames hrest hmore
      obtain ⟨ht, hf⟩ := (leaf_ofTag r t).of_error h
      exact .tag List.mem_cons_self ht hf

/-- Reading blames a tag for its failure, by induction on the number of tokens. -/
theorem nodes_and_block_blame (r : Reader) (tokens : List Token) :
    NodesBlame r tokens ∧ BlockBlames r tokens := by
  induction hn : tokens.length using Nat.strongRecOn generalizing tokens with
  | ind n ih =>
    subst hn
    have shorterNodes (left : List Token) (h : left.length < tokens.length) :=
      (ih left.length h left rfl).1
    have shorterBlock (left : List Token) (h : left.length < tokens.length) :=
      (ih left.length h left rfl).2
    have hnodes := nodes_blame_of_shorter shorterNodes shorterBlock
    exact ⟨hnodes, block_blames_of_shorter hnodes shorterNodes shorterBlock⟩

/-- So does reading a whole source. -/
theorem whole_blames (r : Reader) (tokens : List Token) :
    Meets (r.Blames tokens) (fun _ => True) (r.whole tokens) := by
  refine Meets.bind_eq (fun f h => (nodes_and_block_blame r tokens).1.of_error h) ?_
  rintro ⟨found, left, hleft⟩ hread
  have hsuffix : left <:+ tokens := NodesRead.suffix ⟨hleft, hread⟩
  dsimp only
  split
  · exact Meets.pure trivial
  · rename_i t rest
    have hmem : t ∈ tokens := hsuffix.subset List.mem_cons_self
    split
    · rename_i hkind
      exact failAt_blames hmem (by simp [Token.isTag, hkind]) trivial
    · rename_i hkind
      exact failAt_blames hmem (by simp [Token.isTag, hkind]) trivial
    · exact Meets.pure trivial

/-- What is not closed does not end in an end: neither its opening tag is one, nor what it holds. -/
theorem LeftOpen.getLast_ne_ending (h : r.LeftOpen front t) :
    ∀ u ∈ front.getLast?, u.kind ≠ .ending := by
  obtain ⟨before, part, inner, rfl, hpart, hinner⟩ := h
  intro u hu
  rw [List.getLast?_append_of_ne_nil _ (List.cons_ne_nil t inner)] at hu
  rcases List.mem_cons.1 (List.mem_of_getLast? hu) with rfl | hmem
  · rintro hending
    have htag := hpart.isTag
    simp [Token.isTag, hending] at htag
  · exact hinner.ne_ending u hmem

end Node.Reader

/-! ## Compiling -/

/-- A place of a named source where a tag begins: the opening delimiter in force stands there. Its line
is one more than the line feeds before it, and its column one more than the characters before it on its
line. -/
def Location.BeginsTag (marks : Delimiters) (name source : String) (place : Location) : Prop :=
  ∃ before d after, source.toList = before ++ d.opening.toList ++ after ∧
    Token.Opens marks source.toList before d ∧
    place = ⟨name, 1 + before.count '\n', 1 + (Text.lastLine before).length⟩

namespace Template

/-- What a failure to compile a source points at. -/
inductive Blames (helperOf : String → Option Helper) (marks : Delimiters) (name source : String) :
    Failure → Prop where
  /-- A tag that cannot be scanned. -/
  | scan {place : Location} {cause : ScanError} (hplace : place.BeginsTag marks name source) :
      Blames helperOf marks name source (.scan place cause)
  /-- A tag whose expression cannot be parsed, or that stands where it must not. -/
  | tag {place : Location} {cause : ParseError} (hplace : place.BeginsTag marks name source)
      (hcause : cause.IsOfTag) : Blames helperOf marks name source (.parse place cause)
  /-- The opening tag of a section or an inline partial that nothing but balanced tokens follow. -/
  | unterminated {t : Token} {tokens : List Token} {opened : String}
      (hplace : (t.location name).BeginsTag marks name source)
      (htokens : Token.ofSource name marks source = .ok (tokens ++ [Token.ending source]))
      (hopen : Node.Reader.LeftOpen ⟨name, helperOf⟩ tokens t) :
      Blames helperOf marks name source (.parse (t.location name) (.unterminated opened))
  /-- A literal that cannot be converted is no error of a tag. -/
  | fault (cause : Fault) : Blames helperOf marks name source (.fault cause)

variable {helperOf : String → Option Helper} {marks d : Delimiters} {name source : String}
  {before : List Char} {t : Token} {f : Failure}

theorem beginsTag_of_opens (h : Token.Opens marks source.toList before d) :
    Location.BeginsTag marks name source ⟨name, (Position.start.advance before).line,
      (Position.start.advance before).column⟩ := by
  obtain ⟨after, hsource⟩ := h.append
  refine ⟨before, d, after, hsource, h, ?_⟩
  rw [Position.line_advance, Position.column_advance]
  rfl

theorem beginsTag_of_isPlacedFrom (htag : t.isTag = true)
    (h : Token.IsPlacedFrom marks .start source.toList t) :
    (t.location name).BeginsTag marks name source := by
  rcases h with htext | ⟨-, before, hopens, hposition⟩
  · simp [Token.isTag, htext] at htag
  · rw [Token.location, hposition]
    exact beginsTag_of_opens hopens

/-- Compile errors point at tags. For every source, name and delimiters, an error of compiling names
the source and the place of a tag in it; and what is reported as unterminated is the opening tag of
a section or an inline partial that is still open when the source ends. -/
theorem blames_of_ofSource (h : ofSource helperOf marks name source = .error f) :
    Blames helperOf marks name source f := by
  have hblames : Meets (Blames helperOf marks name source) (fun _ => True)
      (ofSource helperOf marks name source) := by
    have hscan := Token.ofSource_isPlaced name marks source
    refine Meets.bind_eq (fun f hf => ?_) fun tokens htokens => ?_
    · obtain ⟨before, d, cause, hopens, rfl⟩ := hscan.of_error hf
      exact .scan (beginsTag_of_opens hopens)
    obtain ⟨kept, rfl, hkept⟩ := hscan.of_ok htokens
    refine ((Node.Reader.whole_blames ⟨name, helperOf⟩ _).mono (fun f hf => ?_) fun _ h => h).bind
      fun _ _ => Meets.pure trivial
    have hplace (u : Token) (hmem : u ∈ kept ++ [Token.ending source]) (htag : u.isTag = true) :
        (u.location name).BeginsTag marks name source := by
      rcases List.mem_append.1 hmem with hmem | hmem
      · exact beginsTag_of_isPlacedFrom htag (hkept u hmem)
      · rw [List.mem_singleton.1 hmem] at htag
        cases htag
    cases hf with
    | tag hmem htag hf =>
      cases hf with
      | parse hcause => exact .tag (hplace _ hmem htag) hcause
      | fault cause => exact .fault cause
    | unterminated hsplit hopen hends =>
      obtain rfl := Node.Reader.eq_of_append_ending hsplit rfl
        (fun u hu => (hkept u hu).kind_ne_ending) hopen.getLast_ne_ending hends
      refine .unterminated (hplace _ ?_ ?_) htokens hopen
      · obtain ⟨front, part, inner, rfl, -⟩ := hopen
        simp
      · obtain ⟨front, part, inner, -, hpart, -⟩ := hopen
        exact hpart.isTag
  exact hblames.of_error h

/-- A section that is not closed, behind a change of delimiters on a line before it, with a section in
it that is. -/
def halfOpen : String :=
  "a\x7b\x7b=<% %>=\x7d\x7d\n <%#if b%>\n\x7b\x7b<%#c%>x<%else%>y<%/c%>"

theorem blames_of_ofSource_halfOpen :
    ofSource (fun _ => none) .standard "page" halfOpen =
        .error (.parse ⟨"page", 2, 2⟩ (.unterminated "if")) ∧
      Blames (fun _ => none) .standard "page" halfOpen
        (.parse ⟨"page", 2, 2⟩ (.unterminated "if")) := by
  have hfails : (ofSource (fun _ => none) .standard "page" halfOpen).map (fun _ => ()) =
      .error (.parse ⟨"page", 2, 2⟩ (.unterminated "if")) := by decide +kernel
  cases h : ofSource (fun _ => none) .standard "page" halfOpen with
  | ok t =>
    rw [h] at hfails
    cases hfails
  | error f =>
    rw [h] at hfails
    obtain rfl := Except.error.inj hfails
    exact ⟨rfl, blames_of_ofSource h⟩

end Template

end Stencil
