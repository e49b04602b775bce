import Stencil.Document.Basic
import Stencil.Text.Quoted
import Stencil.Value.Display

/-!
# Writing documents

A document as text, a part on each line, each level two columns further in than the one around it.
Characters stand as they are, but for quotes, backslashes and control characters.
-/

namespace Stencil.Document

/-- A character inside a quoted text. -/
def writeChar (c : Char) : List Char :=
  match c with
  | '"' => ['\\', '"']
  | '\\' => ['\\', '\\']
  | '\n' => ['\\', 'n']
  | '\r' => ['\\', 'r']
  | '\t' => ['\\', 't']
  | '\x08' => ['\\', 'b']
  | '\x0c' => ['\\', 'f']
  | c => if c.toNat < 32 then '\\' :: 'u' :: Text.hex 4 c.toNat else [c]

/-- A quoted text. -/
def writeText (s : String) : String :=
  "\"" ++ String.ofList (s.toList.flatMap writeChar) ++ "\""

/-- Doubles are written as values write them, with other words for the infinite ones. -/
def floatLayout : Decimal.Layout :=
  { Value.floatLayout with infinity := "Infinity", notANumber := "NaN" }

/-- The start of a line at a depth. -/
def lineStart (depth : Nat) : String := "\n" ++ String.ofList (List.replicate (2 * depth) ' ')

/-- Parts between brackets, each on a line of its own. -/
def bracketed (opening closing : String) (depth : Nat) : List String → String
  | [] => opening ++ closing
  | parts =>
    opening ++ lineStart (depth + 1) ++ ("," ++ lineStart (depth + 1)).intercalate parts ++
      lineStart depth ++ closing

/-- A scalar as text. -/
def Scalar.write : Scalar → String
  | null => "null"
  | bool b => if b then "true" else "false"
  | int n => toString n
  | float x => floatLayout.text x
  | text s => writeText s

/-- A key as text: whatever it is, it is quoted. -/
def Scalar.writeKey : Scalar → String
  | text s => writeText s
  | key => writeText key.write

mutual

/-- A document as text at a depth. -/
def write (depth : Nat) : Document → String
  | scalar s => s.write
  | list items => bracketed "[" "]" depth (writeAll (depth + 1) items)
  | map entries => bracketed "\x7b" "\x7d" depth (writeEntries (depth + 1) entries)

/-- Documents as texts at a depth. -/
def writeAll (depth : Nat) : List Document → List String
  | [] => []
  | d :: rest => write depth d :: writeAll depth rest

/-- The entries of a mapping as texts at a depth. -/
def writeEntries (depth : Nat) : List (Scalar × Document) → List String
  | [] => []
  | (key, d) :: rest => (key.writeKey ++ ": " ++ write depth d) :: writeEntries depth rest

end

end Stencil.Document
