/-!
# Blanks

Where a reader of documents stands, and what becomes of spaces and line breaks inside a scalar. A run
of blanks without a break stays as it is. In a run with breaks the spaces go: one line feed becomes a
space, and of several the first goes.
-/

namespace Stencil.Document

/-- A place in a text: the characters before it, the lines before it, and the characters before it
in its line. -/
structure Mark where
  index : Nat := 0
  line : Nat := 0
  column : Nat := 0
deriving DecidableEq, Repr

/-- Spaces and tabs. -/
def isSpace (c : Char) : Bool := c == ' ' || c == '\t'

/-- The characters that end a line: line feed, next line, line separator and paragraph separator. -/
def isBreak (c : Char) : Bool :=
  c == '\n' || c == '\u0085' || c == '\u2028' || c == '\u2029'

/-- Nothing follows, or something that is no part of a word. -/
def isOpen (cs : List Char) : Bool := cs.head?.all fun c => isSpace c || isBreak c

/-- Three dashes or three points, with no word behind them: at the front of a line they would bound a
document. -/
def isBoundary : List Char → Bool
  | a :: b :: c :: rest => (a == '-' || a == '.') && a == b && b == c && isOpen rest
  | _ => false

namespace Mark

/-- The place after one more character. -/
def step (m : Mark) (c : Char) : Mark :=
  if isBreak c then ⟨m.index + 1, m.line + 1, 0⟩ else ⟨m.index + 1, m.line, m.column + 1⟩

/-- The place after more characters. -/
def advance (m : Mark) (cs : List Char) : Mark := cs.foldl step m

end Mark

/-- A run of blanks inside a scalar. -/
structure Blanks where
  /-- The spaces of a run without breaks. -/
  spaces : List Char := []
  /-- There is a break in the run. -/
  broken : Bool := false
  /-- The first break, unless a backslash took it back. -/
  first : Option Char := none
  /-- The breaks after the first. -/
  others : List Char := []
deriving DecidableEq, Repr

namespace Blanks

/-- There are blanks. -/
def some? (b : Blanks) : Bool := b.broken || !b.spaces.isEmpty

/-- A break as it is kept: next line counts as a line feed. -/
def kept (c : Char) : Char := if c == '\u0085' then '\n' else c

/-- The run with one more blank. -/
def add (b : Blanks) (c : Char) : Blanks :=
  if isBreak c then
    if b.broken then { b with others := b.others ++ [kept c] }
    else { broken := true, first := some (kept c) }
  else if b.broken then b
  else { b with spaces := b.spaces ++ [c] }

/-- What a scalar keeps of the run. -/
def text (b : Blanks) : List Char :=
  if b.broken then
    match b.first with
    | some c => if c != '\n' then c :: b.others else if b.others.isEmpty then [' '] else b.others
    | none => b.others
  else b.spaces

/-- The run that a break behind a backslash begins. -/
def escaped : Blanks := { broken := true }

end Blanks

example : ((" \n ".toList.foldl Blanks.add {}).text, ("\n\n".toList.foldl Blanks.add {}).text) =
    ([' '], ['\n']) := by decide

end Stencil.Document
