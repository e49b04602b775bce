import Stencil.Failure

/-!
# Tokens

Source is cut into runs of text and tags. A token keeps what stands between the delimiters, the
delimiters that were in force, its place in the source, and whether its tag asks for the white space
beside it to go.
-/

namespace Stencil

/-- The texts that open and close a tag. -/
structure Delimiters where
  opening : String
  closing : String
deriving DecidableEq, Repr

/-- The delimiters that are in force unless others are asked for. -/
def Delimiters.standard : Delimiters := ⟨"\x7b\x7b", "\x7d\x7d"⟩

/-- How an else tag is spelled. -/
inductive ElseLabel where
  | word
  | caret
deriving DecidableEq, Repr

/-- The spelling of an else tag in source. -/
def ElseLabel.text : ElseLabel → String
  | word => "else"
  | caret => "^"

/-- The kinds of token. -/
inductive TokenKind where
  /-- Text outside tags. -/
  | text
  /-- A tag whose output is escaped. -/
  | plain
  /-- A tag in three braces, whose output is not escaped. -/
  | triple
  /-- A tag behind an ampersand, whose output is not escaped. -/
  | ampersand
  /-- The opening tag of a section. -/
  | opening
  /-- The opening tag of an inverted section. -/
  | inverted
  /-- The closing tag of a section or an inline partial. -/
  | closing
  /-- An else tag, with or without an expression of its own. -/
  | otherwise (label : ElseLabel)
  /-- A tag that renders a partial. -/
  | inclusion
  | comment
  /-- The opening tag of an inline partial. -/
  | inline
  /-- A tag that changes the delimiters. -/
  | delimiters
  /-- The end of the source. -/
  | ending
deriving DecidableEq, Repr

/-- Tags that take their line with them when nothing else stands on it. -/
def TokenKind.standsAlone : TokenKind → Bool
  | opening | inverted | closing | otherwise _ | inclusion | comment | inline | delimiters => true
  | text | plain | triple | ampersand | ending => false

/-- The name of a kind in token listings. -/
def TokenKind.name : TokenKind → String
  | text => "TEXT"
  | plain => "VARIABLE"
  | triple => "TRIPLE"
  | ampersand => "AMPERSAND"
  | opening => "SECTION"
  | inverted => "INVERTED"
  | closing => "CLOSE"
  | otherwise _ => "ELSE"
  | inclusion => "PARTIAL"
  | comment => "COMMENT"
  | inline => "INLINE"
  | delimiters => "DELIMITERS"
  | ending => "EOF"

/-- A place in the source: characters before it, and line and column counted from one. -/
structure Position where
  offset : Nat
  line : Nat
  column : Nat
deriving DecidableEq, Repr

namespace Position

/-- The place before the first character. -/
def start : Position := ⟨0, 1, 1⟩

/-- The place after one more character. -/
def step (p : Position) (c : Char) : Position :=
  if c == '\n' then ⟨p.offset + 1, p.line + 1, 1⟩ else ⟨p.offset + 1, p.line, p.column + 1⟩

/-- The place after more characters. -/
def advance (p : Position) (cs : List Char) : Position := cs.foldl step p

@[simp] theorem advance_nil (p : Position) : p.advance [] = p := rfl

@[simp] theorem advance_cons (p : Position) (c : Char) (cs : List Char) :
    p.advance (c :: cs) = (p.step c).advance cs := rfl

theorem advance_append (p : Position) (cs ds : List Char) :
    p.advance (cs ++ ds) = (p.advance cs).advance ds := by
  simp [advance]

/-- Offsets count characters. -/
theorem offset_advance (p : Position) (cs : List Char) :
    (p.advance cs).offset = p.offset + cs.length := by
  induction cs generalizing p with
  | nil => rfl
  | cons c cs ih =>
    have hs : (p.step c).offset = p.offset + 1 := by unfold step; split <;> rfl
    rw [advance_cons, ih, hs]
    simp only [List.length_cons]
    omega

/-- Lines count line feeds. -/
theorem line_advance (p : Position) (cs : List Char) :
    (p.advance cs).line = p.line + cs.count '\n' := by
  induction cs generalizing p with
  | nil => rfl
  | cons c cs ih =>
    rw [advance_cons, ih]
    by_cases hc : c = '\n'
    · subst hc
      simp [step]
      omega
    · simp [step, hc]

end Position

/-- A token. -/
structure Token where
  kind : TokenKind
  /-- The text of a run, or what a tag holds without its sigil and the white space around. -/
  value : String
  position : Position
  delimiters : Delimiters
  /-- The white space before the tag goes. -/
  trimsBefore : Bool := false
  /-- The white space after the tag goes. -/
  trimsAfter : Bool := false
deriving DecidableEq, Repr

namespace Token

/-- Tags are all tokens but the runs of text and the end. -/
def isTag (t : Token) : Bool := t.kind != .text && t.kind != .ending

/-- The place of a token in a named source. -/
def location (file : String) (t : Token) : Location := ⟨file, t.position.line, t.position.column⟩

/-- A token as listings show it. -/
def show_ (t : Token) : String :=
  s!"Token({t.kind.name}, {Text.quoted t.value}, {t.position.line}:{t.position.column})"

end Token

end Stencil
