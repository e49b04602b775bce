import Stencil.Loader.Basic
import Stencil.Text.Search

/-!
# Ignore patterns

Patterns in the form of ignore files: they select files by their paths, the last pattern that fits a
path decides, and a pattern behind an exclamation mark takes the selection back. A pattern with a
slash inside is held against the whole path, one without against the last part of any directory; what
fits a directory fits everything below it. A pattern is read into a list of pieces, each of which
takes some characters from the front of a path.
-/

namespace Stencil.Glob

/-- A piece of a pattern. -/
inductive Piece where
  /-- Exactly this character. -/
  | char (c : Char)
  /-- One character, of those in the ranges or, when `negated`, of all others. -/
  | range (negated : Bool) (ranges : List (Char × Char))
  /-- One character that is no slash. -/
  | one
  /-- Characters that are no slashes, at least so many. -/
  | run (least : Nat)
  /-- Nothing, or some characters and a slash. -/
  | directories
  /-- Nothing, or a slash and more characters, at least so many. -/
  | below (least : Nat)
  /-- A slash and any characters. -/
  | inside
  /-- Some characters, a slash and any characters. -/
  | nested
deriving DecidableEq, Repr

/-- A pattern: does it select, and what it is made of. -/
structure Pattern where
  selects : Bool
  pieces : List Piece
deriving DecidableEq, Repr

/-! ## Matching -/

/-- What can be left after taking characters that satisfy `p`, at least `least` of them. -/
def afterRun (p : Char → Bool) : Nat → List Char → List (List Char)
  | 0, [] => [[]]
  | _ + 1, [] => []
  | 0, c :: rest => (c :: rest) :: if p c then afterRun p 0 rest else []
  | least + 1, c :: rest => if p c then afterRun p least rest else []

/-- Anything but a line feed. -/
def isAny (c : Char) : Bool := c != '\n'

/-- Anything but a slash. -/
def isPart (c : Char) : Bool := c != '/'

/-- What follows a slash at the front. -/
def afterSlash : List Char → List (List Char)
  | '/' :: rest => [rest]
  | _ => []

/-- What can be left of a path after a piece has taken its share. -/
def Piece.after (cs : List Char) : Piece → List (List Char)
  | char c =>
    match cs with
    | d :: rest => if d == c then [rest] else []
    | [] => []
  | range negated ranges =>
    match cs with
    | d :: rest =>
      if (ranges.any fun (low, high) => low ≤ d && d ≤ high) != negated then [rest] else []
    | [] => []
  | one =>
    match cs with
    | d :: rest => if isPart d then [rest] else []
    | [] => []
  | run least => afterRun isPart least cs
  | directories => cs :: (afterRun isAny 1 cs).flatMap afterSlash
  | below least => cs :: (afterSlash cs).flatMap (afterRun isAny least)
  | inside => (afterSlash cs).flatMap (afterRun isAny 0)
  | nested => ((afterRun isAny 1 cs).flatMap afterSlash).flatMap (afterRun isAny 0)

/-- The pieces take a whole path, one after the other. -/
def fits : List Piece → List Char → Bool
  | [], cs => cs.isEmpty
  | piece :: rest, cs => (piece.after cs).any (fits rest)

/-- The last pattern that fits a path decides whether it is selected. -/
def selected (patterns : List Pattern) (path : String) : Bool :=
  match patterns.reverse.find? fun p => fits p.pieces path.toList with
  | some p => p.selects
  | none => false

/-! ## Reading -/

/-- The ranges between brackets, single characters counting as ranges of one. -/
def rangesOf : List Char → List (Char × Char)
  | a :: '-' :: b :: rest => (a, b) :: rangesOf rest
  | c :: rest => (c, c) :: rangesOf rest
  | [] => []

/-- What stands between brackets up to the closing one, and what follows; a closing bracket that
comes first stands for itself. -/
def bracket? (cs : List Char) : Option (Piece × List Char) :=
  let negated := cs.head? == some '!' || cs.head? == some '^'
  let body := if negated then cs.drop 1 else cs
  let (own, more) : List Char × List Char := match body with
    | ']' :: rest => ([']'], rest)
    | _ => ([], body)
  (Text.splitAt? ']' more).map fun (inside, after) =>
    (.range negated (rangesOf (own ++ inside)), after)

/-- The pieces of one part of a pattern; `fuel` bounds their number. A backslash at the end stands
before nothing, which is no pattern. -/
def partPieces : Nat → List Char → Option (List Piece)
  | _, [] => some []
  | 0, _ => none
  | fuel + 1, c :: rest =>
    if c == '\\' then
      match rest with
      | d :: more => (partPieces fuel more).map (.char d :: ·)
      | [] => none
    else if c == '*' then (partPieces fuel rest).map (.run 0 :: ·)
    else if c == '?' then (partPieces fuel rest).map (.one :: ·)
    else if c == '[' then
      match bracket? rest with
      | some (piece, after) => (partPieces fuel after).map (piece :: ·)
      | none => (partPieces fuel rest).map (.char '[' :: ·)
    else (partPieces fuel rest).map (.char c :: ·)

/-- A part that stands for any number of directories. -/
def anyDepth : List Char := ['*', '*']

/-- Repeated parts for any depth count once. -/
def collapse : List (List Char) → List (List Char)
  | a :: b :: rest =>
    if a == anyDepth && b == anyDepth then collapse (b :: rest) else a :: collapse (b :: rest)
  | parts => parts

/-- The pieces of the parts of a path, `first` holding for those at its front; `slash` holds when a
slash stands before the next part. -/
def pathPieces (first slash : Bool) : List (List Char) → Option (List Piece)
  | [] => some []
  | part :: rest =>
    if part == anyDepth then
      if first && rest.isEmpty then some [.run 1, .below 0]
      else if first then
        (pathPieces false false rest).map (.directories :: ·)
      else if rest.isEmpty then some [.inside]
      else (pathPieces false true rest).map (.below 1 :: ·)
    else do
      let own ← if part == ['*'] then some [.run 1] else partPieces part.length part
      let tail := if rest.isEmpty then [Piece.below 0] else []
      let others ← pathPieces false true rest
      pure ((if slash then [.char '/'] else []) ++ own ++ tail ++ others)

/-- The pieces of a pattern without its exclamation mark. -/
def bodyPieces (body : List Char) : Option (List Piece) :=
  let parts := collapse (Text.splitOn '/' body)
  if parts == [anyDepth, []] then some [.nested]
  else
    let parts := match parts with
      | [] :: rest => rest
      | [only] => if only == anyDepth then [only] else [anyDepth, only]
      | [only, []] => if only == anyDepth then [only, []] else [anyDepth, only, []]
      | parts => parts
    if parts.isEmpty then none
    else
      let parts :=
        if parts.getLast? == some [] && parts.length > 1 then parts.dropLast ++ [anyDepth] else parts
      pathPieces true false parts

/-- The fault of a line that is no pattern. -/
def badPattern (line : String) : Fault :=
  .raised .value s!"Invalid git pattern: {Text.quoted line}"

/-- The pattern of a line. White space around it does not count, unless a backslash keeps the last
space; comments and a lone slash are no patterns. -/
def Pattern.ofLine (line : String) : Except Fault (Option Pattern) :=
  let cs := line.toList
  let cs := Text.trimFront Text.isBlank cs
  let cs :=
    if cs.reverse.take 2 == [' ', '\\'] then cs else Text.trimBack Text.isBlank cs
  match cs with
  | [] => pure none
  | '#' :: _ => pure none
  | ['/'] => pure none
  | '!' :: body =>
    match bodyPieces body with
    | some pieces => pure (some ⟨false, pieces⟩)
    | none => throw (badPattern line)
  | body =>
    match bodyPieces body with
    | some pieces => pure (some ⟨true, pieces⟩)
    | none => throw (badPattern line)

/-- The patterns of some lines, in order. -/
def ofLines (lines : List String) : Except Fault (List Pattern) :=
  (lines.filter (· != "")).foldlM (fun found line => do
    match ← Pattern.ofLine line with
    | some p => pure (found ++ [p])
    | none => pure found) []

/-- What patterns of this form select. -/
def selection : Selection := fun lines => do pure (selected (← ofLines lines))

end Stencil.Glob
