import Stencil.Proofs.Token.Lines
import Stencil.Proofs.Token.Lossless

/-!
# Where tags begin

A tag begins where the opening delimiter stands that is in force there. The delimiters in force are
those that a scan began with, or those that the last tag to set delimiters has set. Every tag that is
scanned begins at such a place, and so does every one that is not: a scan fails nowhere else.
-/

namespace Stencil

namespace Position

/-- Columns count from the last line feed. -/
theorem column_advance (cs : List Char) :
    (start.advance cs).column = 1 + (Text.lastLine cs).length := by
  induction cs using List.reverseRecOn with
  | nil => rfl
  | append_singleton cs c ih =>
    rw [advance_append, advance_cons, advance_nil, Text.lastLine_append]
    by_cases hc : c = '\n'
    · subst hc
      rfl
    · have hstep : (start.advance cs).step c = ⟨(start.advance cs).offset + 1,
          (start.advance cs).line, (start.advance cs).column + 1⟩ := if_neg (by simpa using hc)
      rw [hstep, if_neg (by simpa using Ne.symm hc), List.length_append, ih]
      rfl

end Position

namespace Token

/-- In what is left of a source, read with the delimiters `marks`, a tag begins behind `before`,
with the delimiters `d` in force. -/
inductive Opens : Delimiters → List Char → List Char → Delimiters → Prop where
  /-- The next tag begins where its opening delimiter first stands. -/
  | next {marks : Delimiters} {text before needle body : List Char}
      (hcut : Text.cut? [marks.opening.toList] text = some (before, needle, body)) :
      Opens marks text before marks
  /-- Further tags begin behind the next one, with the delimiters that it hands on. -/
  | further {marks next d : Delimiters} {text before needle body rest behind : List Char} {tag : Tag}
      {p : Position} (hcut : Text.cut? [marks.opening.toList] text = some (before, needle, body))
      (hread : Tag.read marks body = .ok (tag, rest)) (hnext : (ofTag marks p tag).Hands next)
      (h : Opens next rest behind d) :
      Opens marks text (text.take (text.length - rest.length) ++ behind) d

variable {marks d : Delimiters} {text before needle body rest : List Char} {p : Position}
  {file : String}

/-- What is left behind a tag is the end of what was left before it. -/
theorem append_of_read {tag : Tag}
    (hcut : Text.cut? [marks.opening.toList] text = some (before, needle, body))
    (hread : Tag.read marks body = .ok (tag, rest)) :
    text = text.take (text.length - rest.length) ++ rest := by
  obtain ⟨-, -, inner, -, hbody⟩ := Tag.shape_of_read hread
  have hsuffix : rest <:+ text := by
    rw [(Text.append_of_cut? hcut).1, hbody]
    exact (List.suffix_append _ rest).trans (List.suffix_append _ _)
  calc
    text = text.take (text.length - rest.length) ++ text.drop (text.length - rest.length) :=
      (List.take_append_drop _ text).symm
    _ = _ := by rw [← List.suffix_iff_eq_drop.1 hsuffix]

/-- Where a tag begins the opening delimiter in force stands. -/
theorem Opens.append (h : Opens marks text before d) :
    ∃ after, text = before ++ d.opening.toList ++ after := by
  induction h with
  | next hcut =>
    obtain ⟨happend, hneedle⟩ := Text.append_of_cut? hcut
    rw [List.mem_singleton.1 hneedle] at happend
    exact ⟨_, happend⟩
  | further hcut hread _ _ ih =>
    obtain ⟨after, hrest⟩ := ih
    refine ⟨after, ?_⟩
    rw [List.append_assoc, List.append_assoc, ← List.append_assoc _ _ after, ← hrest]
    exact append_of_read hcut hread

/-- A token that is a text, or a tag that begins where one can in what is left at `p`. -/
def IsPlacedFrom (marks : Delimiters) (p : Position) (text : List Char) (t : Token) : Prop :=
  t.kind = .text ∨ t.isTag = true ∧
    ∃ before, Opens marks text before t.delimiters ∧ t.position = p.advance before

theorem isPlacedFrom_ofText (p q : Position) (cs : List Char) :
    ∀ t ∈ ofText marks q cs, IsPlacedFrom d p text t := by
  unfold ofText
  split
  · exact List.forall_mem_nil _
  · exact List.forall_mem_singleton.2 (.inl rfl)

/-- The next tag and the text before it are placed, and so are the tokens behind it. -/
theorem isPlacedFrom_tag {tag : Tag} {next : Delimiters} {others : List Token}
    (hcut : Text.cut? [marks.opening.toList] text = some (before, needle, body))
    (hread : Tag.read marks body = .ok (tag, rest))
    (hnext : (ofTag marks (p.advance before) tag).Hands next)
    (h : ∀ t ∈ others,
      IsPlacedFrom next (p.advance (text.take (text.length - rest.length))) rest t) :
    ∀ t ∈ ofText marks p before ++ ofTag marks (p.advance before) tag :: others,
      IsPlacedFrom marks p text t := by
  obtain ⟨htext, hending, -⟩ := Tag.shape_of_read hread
  refine List.forall_mem_append.2 ⟨isPlacedFrom_ofText p p before, List.forall_mem_cons.2 ⟨?_, ?_⟩⟩
  · exact .inr ⟨by simp [isTag, ofTag, htext, hending], before, .next hcut, rfl⟩
  · intro t ht
    rcases h t ht with htext | ⟨htag, behind, hopens, hposition⟩
    · exact .inl htext
    · refine .inr ⟨htag, _, .further hcut hread hnext hopens, ?_⟩
      rw [hposition, Position.advance_append]

/-- A scan of what is left takes its tags where they begin, or fails where one does, by induction on
what is left. -/
theorem scanFrom_isPlacedFrom (file : String) (marks : Delimiters) (p : Position)
    (text : List Char) :
    Meets (fun f => ∃ before d cause, Opens marks text before d ∧
        f = scanFailure file (p.advance before) cause)
      (fun tokens => ∀ t ∈ tokens, IsPlacedFrom marks p text t) (scanFrom file marks p text) := by
  fun_induction scanFrom file marks p text with
  | case1 => exact Meets.pure (List.forall_mem_nil _)
  | case2 marks p text => exact Meets.pure (isPlacedFrom_ofText p p text)
  | case3 marks p text _ before needle body hcut at_ cause =>
    exact Meets.throw ⟨before, marks, cause, .next hcut, rfl⟩
  | case4 marks p text _ before needle body hcut at_ tag rest hread _ hkind next hnext ih =>
    have hhands : (ofTag marks (p.advance before) tag).Hands next := by
      rw [Hands, if_pos (by simpa [ofTag] using hkind)]
      simpa [ofTag] using hnext
    refine ((ih next).mono ?_ fun _ h => h).bind fun others hothers =>
      Meets.pure (isPlacedFrom_tag hcut hread hhands hothers)
    rintro f ⟨behind, d, cause, hopens, rfl⟩
    exact ⟨_, d, cause, .further hcut hread hhands hopens, by rw [Position.advance_append]⟩
  | case5 marks p text _ before needle body hcut at_ tag rest hread _ hkind cause =>
    exact Meets.throw ⟨before, marks, cause, .next hcut, rfl⟩
  | case6 marks p text _ before needle body hcut at_ tag rest hread _ hkind ih =>
    have hhands : (ofTag marks (p.advance before) tag).Hands marks := by
      rw [Hands, if_neg (by simpa [ofTag] using hkind)]
      rfl
    refine ((ih marks).mono ?_ fun _ h => h).bind fun others hothers =>
      Meets.pure (isPlacedFrom_tag hcut hread hhands hothers)
    rintro f ⟨behind, d, cause, hopens, rfl⟩
    exact ⟨_, d, cause, .further hcut hread hhands hopens, by rw [Position.advance_append]⟩

/-- White-space control leaves the tags where they are. -/
theorem Trimmed.isPlacedFrom {tokens kept : List Token} (h : Trimmed tokens kept)
    (htokens : ∀ t ∈ tokens, IsPlacedFrom marks p text t) :
    ∀ t ∈ kept, IsPlacedFrom marks p text t := by
  induction h with
  | nil => exact List.forall_mem_nil _
  | tag _ _ ih =>
    obtain ⟨ht, hrest⟩ := List.forall_mem_cons.1 htokens
    exact List.forall_mem_cons.2 ⟨ht, ih hrest⟩
  | text htext _ _ _ ih =>
    exact List.forall_mem_cons.2 ⟨.inl htext, ih (List.forall_mem_cons.1 htokens).2⟩
  | blank _ _ _ ih => exact ih (List.forall_mem_cons.1 htokens).2

/-- The tokens of a source are texts and tags at places where tags begin, and its end behind them;
or it fails to scan where a tag begins. -/
theorem ofSource_isPlaced (file : String) (marks : Delimiters) (source : String) :
    Meets (fun f => ∃ before d cause, Opens marks source.toList before d ∧
        f = scanFailure file (Position.start.advance before) cause)
      (fun tokens => ∃ kept, tokens = kept ++ [ending source] ∧
        ∀ t ∈ kept, IsPlacedFrom marks .start source.toList t)
      (ofSource file marks source) := by
  refine (scanFrom_isPlacedFrom file marks .start source.toList).bind fun scanned hscanned => ?_
  exact Meets.pure ⟨_, rfl, (trimmed_trimFrom [] scanned).isPlacedFrom hscanned⟩

theorem IsPlacedFrom.kind_ne_ending {t : Token} (h : IsPlacedFrom marks p text t) :
    t.kind ≠ .ending := by
  rcases h with htext | ⟨htag, -⟩
  · simp [htext]
  · rintro hending
    simp [isTag, hending] at htag

end Token

end Stencil
