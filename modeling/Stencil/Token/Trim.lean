import Stencil.Token.Scan

/-!
# White-space control

What tags do to the text beside them. A tag of a kind that stands alone, with nothing but blanks
around it on its line, takes the whole line with it; a tag marked with `~` takes all the white space
on that side. Whether a tag stands alone is judged on the source as it was, before anything is cut.
-/

namespace Stencil.Token

/-- Spaces and tabs: what may stand before a tag that is alone on its line. -/
def isIndent (c : Char) : Bool := c == ' ' || c == '\t'

/-- What may stand after a tag that is alone on its line. -/
def isLineRest (c : Char) : Bool := isIndent c || c == '\r'

/-- The line is blank up to a tag; `before` holds the tokens before the tag, the nearest first. -/
def blankBefore : List Token → Bool
  | [] => true
  | t :: further =>
    let cs := t.value.toList
    t.kind == .text && (cs.contains '\n' || further.isEmpty) && (Text.lastLine cs).all isIndent

/-- The line is blank after a tag; `after` holds the tokens after the tag. -/
def blankAfter : List Token → Bool
  | [] => true
  | t :: further =>
    t.kind == .text &&
      match Text.splitAt? '\n' t.value.toList with
      | some (line, _) => line.all isLineRest
      | none => further.isEmpty && t.value.toList.all isLineRest

/-- A tag that takes its line with it. -/
def isAlone (before : List Token) (t : Token) (after : List Token) : Bool :=
  t.kind.standsAlone && blankBefore before && blankAfter after

/-- The number of characters that a tag alone on its line takes from the front of the text after
it. -/
def headCut (cs : List Char) : Nat :=
  match Text.splitAt? '\n' cs with
  | some (line, _) => line.length + 1
  | none => cs.length

/-- The number of characters that a tag alone on its line leaves of the text before it. -/
def tailCut (cs : List Char) : Nat := cs.length - (Text.lastLine cs).length

/-- A run of text after the tags beside it have taken their share. -/
def trimmed (before : List Token) (t : Token) (after : List Token) : List Char :=
  let cs := t.value.toList
  let head := match before with
    | tag :: further => if isAlone further tag (t :: after) then headCut cs else 0
    | [] => 0
  let tail := match after with
    | tag :: further => if isAlone (t :: before) tag further then tailCut cs else cs.length
    | [] => cs.length
  let cut := (cs.take tail).drop head
  let cut := match before with
    | tag :: _ => if tag.trimsAfter then Text.trimFront Text.isBlank cut else cut
    | [] => cut
  match after with
  | tag :: _ => if tag.trimsBefore then Text.trimBack Text.isBlank cut else cut
  | [] => cut

/-- White-space control over the tokens that follow those in `before`, the nearest first. A run of
which nothing is left goes. -/
def trimFrom (before : List Token) : List Token → List Token
  | [] => []
  | t :: after =>
    let others := trimFrom (t :: before) after
    if t.kind == .text then
      let left := trimmed before t after
      if left.isEmpty then others else { t with value := String.ofList left } :: others
    else t :: others

/-- The token at the end of a source. -/
def ending (text : String) : Token :=
  ⟨.ending, "", Position.start.advance text.toList, .standard, false, false⟩

/-- The tokens of a source: scanned, with white-space control, and with the end behind them. -/
def ofSource (file : String) (marks : Delimiters) (text : String) : Except Failure (List Token) :=
  do
  let tokens ← scan file marks text
  pure (trimFrom [] tokens ++ [ending text])

end Stencil.Token
