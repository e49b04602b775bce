import Stencil.Text.Printable

/-!
# Quoted text

The quoted form in which error messages, token listings and mappings show a text, and the like form
for bytes. Single quotes stand around it, or double quotes when the text holds single quotes and no
double ones; the quote, the backslash and every unprintable character are escaped.
-/

namespace Stencil.Text

/-- The lowercase digit of base sixteen. -/
def hexDigit (n : Nat) : Char := if n < 10 then Char.ofNat (48 + n) else Char.ofNat (87 + n)

/-- The last `width` digits of `n` in base sixteen. -/
def hex : Nat → Nat → List Char
  | 0, _ => []
  | width + 1, n => hex width (n / 16) ++ [hexDigit (n % 16)]

/-- Double quotes for a text with single quotes and without double ones, else single quotes. -/
def quoteFor (cs : List Char) : Char := if cs.contains '\'' && !cs.contains '"' then '"' else '\''

/-- The number of a character behind a backslash, in the shortest of the three escapes. -/
def escapedCode (n : Nat) : List Char :=
  if n < 0x100 then '\\' :: 'x' :: hex 2 n
  else if n < 0x10000 then '\\' :: 'u' :: hex 4 n
  else '\\' :: 'U' :: hex 8 n

/-- How one character stands between the quotes `quote`, when `plain` says which may stand as they
are. -/
def quotedChar (plain : Char → Bool) (quote c : Char) : List Char :=
  if c == quote || c == '\\' then ['\\', c]
  else if c == '\n' then ['\\', 'n']
  else if c == '\r' then ['\\', 'r']
  else if c == '\t' then ['\\', 't']
  else if plain c then [c]
  else escapedCode c.toNat

/-- Characters between quotes. -/
def quotedChars (plain : Char → Bool) (cs : List Char) : List Char :=
  let quote := quoteFor cs
  quote :: cs.flatMap (quotedChar plain quote) ++ [quote]

/-- The quoted form of a text. -/
def quoted (s : String) : String := String.ofList (quotedChars isPrintable s.toList)

/-- The quoted form of bytes: a `b`, then the bytes read as characters, those outside printable
ASCII escaped. -/
def quotedBytes (bytes : List UInt8) : String :=
  let cs := bytes.map fun b => Char.ofNat b.toNat
  String.ofList ('b' :: quotedChars (fun c => 32 ≤ c.toNat && c.toNat < 127) cs)

/-- A list of texts as messages show it. -/
def quotedList (names : List String) : String := "[" ++ ", ".intercalate (names.map quoted) ++ "]"

example : quoted "a'b\n" = "\"a'b\\n\"" := by decide +kernel
example : quoted "\u200b\"" = "'\\u200b\"'" := by decide +kernel

end Stencil.Text
