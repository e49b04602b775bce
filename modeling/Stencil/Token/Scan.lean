import Stencil.Text.Blank
import Stencil.Text.Search
import Stencil.Token.Basic

/-!
# Scanning

Source cut into text runs and tags. From where it stands, the scanner looks for the opening
delimiter in force; what precedes it is a run of text, and the tag reaches to the first place where
its closing text begins. A tag that sets delimiters puts them in force for what follows. Every tag
takes at least one character, so the scan ends whatever the delimiters are.
-/

namespace Stencil

/-- What a tag says, without its place. -/
structure Tag where
  kind : TokenKind
  value : List Char
  trimsBefore : Bool
  trimsAfter : Bool
deriving DecidableEq, Repr

namespace Tag

/-- The kinds that a sigil in front of a tag stands for. -/
def sigilKind? : Char → Option TokenKind
  | '#' => some .opening
  | '^' => some .inverted
  | '/' => some .closing
  | '>' => some .inclusion
  | '!' => some .comment
  | '&' => some .ampersand
  | _ => none

/-- A tag body up to `lead` and the closing delimiter, where a `~` may stand between the two: what
comes before, whether the `~` is there, and what follows the delimiter. -/
def enclosed (lead closing body : List Char) : Except ScanError (List Char × Bool × List Char) :=
  match Text.cut? [lead ++ '~' :: closing, lead ++ closing] body with
  | some (before, needle, after) => pure (before, needle.length != lead.length + closing.length, after)
  | none => throw (.unclosedTag (String.ofList (lead ++ closing)))

/-- The expression behind an else tag, which may be empty; nothing when the tag is no else tag. -/
def elseExpression? (content : List Char) : Option (List Char) :=
  if content.take 4 == "else".toList then
    match content.drop 4 with
    | [] => some []
    | c :: rest => if Text.isBlank c then some (Text.trimBoth Text.isBlank rest) else none
  else none

/-- The kind and value of a tag without braces, dashes or an equals sign of its own, from what
stands between its delimiters. -/
def classify (content : List Char) : Except ScanError (TokenKind × List Char) :=
  match Text.trimBoth Text.isBlank content with
  | [] => throw .emptyTag
  | sigil :: rest =>
    let value := Text.trimBoth Text.isBlank rest
    if sigil == '#' && rest.head? == some '*' then
      pure (.inline, Text.trimBoth Text.isBlank (rest.drop 1))
    else if sigil == '!' then
      pure (.comment, (Text.trimFront Text.isBlank content).drop 1)
    else if sigil == '^' && value.isEmpty then pure (.otherwise .caret, [])
    else
      match sigilKind? sigil with
      | some kind => if value.isEmpty then throw (.missingName sigil) else pure (kind, value)
      | none =>
        match elseExpression? (sigil :: rest) with
        | some expression => pure (.otherwise .word, expression)
        | none => pure (.plain, sigil :: rest)

/-- The tag whose body follows its opening delimiter, and the source after it. -/
def read (marks : Delimiters) (body : List Char) : Except ScanError (Tag × List Char) :=
  let closing := marks.closing.toList
  let trimsBefore := body.head? == some '~'
  let body := if trimsBefore then body.drop 1 else body
  if marks.opening == Delimiters.standard.opening && body.head? == some '\x7b' then do
    let (content, trimsAfter, rest) ← enclosed ['\x7d'] closing (body.drop 1)
    pure (⟨.triple, Text.trimBoth Text.isBlank content, trimsBefore, trimsAfter⟩, rest)
  else if body.take 3 == ['!', '-', '-'] then do
    let (content, trimsAfter, rest) ← enclosed ['-', '-'] closing (body.drop 3)
    pure (⟨.comment, ['-', '-'] ++ content ++ ['-', '-'], trimsBefore, trimsAfter⟩, rest)
  else if body.head? == some '=' then
    match Text.cut? ['=' :: closing] (body.drop 1) with
    | some (content, _, rest) =>
      pure (⟨.delimiters, Text.trimBoth Text.isBlank content, trimsBefore, false⟩, rest)
    | none => throw (.unclosedTag (String.ofList ('=' :: closing)))
  else do
    let (content, trimsAfter, rest) ← enclosed [] closing body
    let (kind, value) ← classify content
    pure (⟨kind, value, trimsBefore, trimsAfter⟩, rest)

/-! ### A tag takes at least one character -/

theorem length_enclosed {lead closing body before after : List Char} {trims : Bool}
    (h : enclosed lead closing body = .ok (before, trims, after)) :
    before.length + lead.length + after.length ≤ body.length := by
  unfold enclosed at h
  split at h
  · rename_i b needle a hcut
    simp only [pure, Except.pure, Except.ok.injEq, Prod.mk.injEq] at h
    obtain ⟨rfl, -, rfl⟩ := h
    have hlen := Text.length_after_cut? hcut
    have hmem := (Text.append_of_cut? hcut).2
    simp only [List.mem_cons, List.not_mem_nil, or_false] at hmem
    rcases hmem with rfl | rfl <;> simp only [List.length_append, List.length_cons] at hlen <;> omega
  · simp [throw, throwThe, MonadExceptOf.throw] at h

theorem classify_ne_nil {content value : List Char} {kind : TokenKind}
    (h : classify content = .ok (kind, value)) : content ≠ [] := by
  rintro rfl
  simp [classify, Text.trimBoth, Text.trimFront, Text.trimBack, throw, throwThe,
    MonadExceptOf.throw] at h

/-- Whatever the delimiters, the source after a tag is shorter than the tag's body was. -/
theorem length_read_lt {marks : Delimiters} {body rest : List Char} {tag : Tag}
    (h : read marks body = .ok (tag, rest)) : rest.length < body.length := by
  have hdrop : (if body.head? == some '~' then body.drop 1 else body).length ≤ body.length := by
    split <;> simp
  unfold read at h
  simp only at h
  generalize hb : (if body.head? == some '~' then body.drop 1 else body) = inner at h hdrop
  split at h
  · obtain ⟨⟨content, trims, after⟩, he, h⟩ := bind_eq_ok_iff.1 h
    dsimp only at h
    cases h
    have := length_enclosed he
    simp only [List.length_drop, List.length_cons, List.length_nil] at this
    omega
  · split at h
    · obtain ⟨⟨content, trims, after⟩, he, h⟩ := bind_eq_ok_iff.1 h
      dsimp only at h
      cases h
      have := length_enclosed he
      simp only [List.length_drop, List.length_cons, List.length_nil] at this
      omega
    · split at h
      · split at h
        · rename_i content needle after hcut
          cases h
          have hlen := Text.length_after_cut? hcut
          have hmem := (Text.append_of_cut? hcut).2
          simp only [List.mem_cons, List.not_mem_nil, or_false] at hmem
          subst hmem
          simp only [List.length_drop, List.length_cons] at hlen
          omega
        · cases h
      · obtain ⟨⟨content, trims, after⟩, he, h⟩ := bind_eq_ok_iff.1 h
        obtain ⟨⟨kind, value⟩, hc, h⟩ := bind_eq_ok_iff.1 h
        dsimp only at hc h
        cases h
        have hpos := List.length_pos_iff.2 (classify_ne_nil hc)
        have := length_enclosed he
        simp only [List.length_nil] at this
        omega

/-- The delimiters that a tag sets: two words without an equals sign. -/
def newDelimiters (value : List Char) : Except ScanError Delimiters :=
  match Text.wordsFrom [] value with
  | [opening, closing] =>
    if opening.contains '=' || closing.contains '=' then
      throw (.badDelimiters (String.ofList value))
    else pure ⟨String.ofList opening, String.ofList closing⟩
  | _ => throw (.badDelimiters (String.ofList value))

end Tag

namespace Token

/-- A run of text as a token; there is none for the empty run. -/
def ofText (marks : Delimiters) (position : Position) (cs : List Char) : List Token :=
  if cs.isEmpty then [] else [⟨.text, String.ofList cs, position, marks, false, false⟩]

/-- A tag as a token. -/
def ofTag (marks : Delimiters) (position : Position) (tag : Tag) : Token :=
  ⟨tag.kind, String.ofList tag.value, position, marks, tag.trimsBefore, tag.trimsAfter⟩

/-- A scan error at a place of a source. -/
def scanFailure (file : String) (position : Position) (cause : ScanError) : Failure :=
  .scan ⟨file, position.line, position.column⟩ cause

/-- The tokens of the source from `position` on, `text` being what is left of it. -/
def scanFrom (file : String) (marks : Delimiters) (position : Position) (text : List Char) :
    Except Failure (List Token) :=
  if text.isEmpty then pure []
  else
    match _hcut : Text.cut? [marks.opening.toList] text with
    | none => pure (ofText marks position text)
    | some (before, _, body) =>
      let at_ := position.advance before
      match _hread : Tag.read marks body with
      | .error cause => throw (scanFailure file at_ cause)
      | .ok (tag, rest) => do
        let next ←
          if tag.kind == .delimiters then
            match Tag.newDelimiters tag.value with
            | .ok next => pure next
            | .error cause => throw (scanFailure file at_ cause)
          else pure marks
        let after := position.advance (text.take (text.length - rest.length))
        let others ← scanFrom file next after rest
        pure (ofText marks position before ++ ofTag marks at_ tag :: others)
termination_by text.length
decreasing_by
  have h1 := Tag.length_read_lt _hread
  have h2 := Text.length_after_cut? _hcut
  omega

/-- The tokens of a source, white space untouched. -/
def scan (file : String) (marks : Delimiters) (text : String) : Except Failure (List Token) :=
  scanFrom file marks .start text.toList

end Token

end Stencil
