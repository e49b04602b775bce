import Stencil.Document.Blanks

/-!
# Quoted scalars

Texts between quotes. Between single quotes a quote is written twice, and nothing else is special;
between double quotes a backslash begins an escape. Lines are folded in both, and no line may begin
with what bounds a document.
-/

namespace Stencil.Document

/-- The value of a digit in base sixteen. -/
def hexValue? (c : Char) : Option Nat :=
  if '0' ≤ c && c ≤ '9' then some (c.toNat - 48)
  else if 'a' ≤ c && c ≤ 'f' then some (c.toNat - 87)
  else if 'A' ≤ c && c ≤ 'F' then some (c.toNat - 55)
  else none

/-- The character that a letter behind a backslash stands for. -/
def escaped? : Char → Option Char
  | '0' => some '\x00'
  | 'a' => some '\x07'
  | 'b' => some '\x08'
  | 't' | '\t' => some '\t'
  | 'n' => some '\n'
  | 'v' => some '\x0b'
  | 'f' => some '\x0c'
  | 'r' => some '\r'
  | 'e' => some '\x1b'
  | ' ' => some ' '
  | '"' => some '"'
  | '/' => some '/'
  | '\\' => some '\\'
  | 'N' => some '\u0085'
  | '_' => some '\u00a0'
  | 'L' => some '\u2028'
  | 'P' => some '\u2029'
  | _ => none

/-- The number of digits behind a letter that begins the code of a character. -/
def codeLength? : Char → Option Nat
  | 'x' => some 2
  | 'u' => some 4
  | 'U' => some 8
  | _ => none

/-- The character that digits in base sixteen are the code of. Half of a pair of units is none. -/
def coded? (digits : List Char) : Option Char :=
  match digits.foldlM (fun n c => (hexValue? c).map (16 * n + ·)) 0 with
  | some n => if n < 0xD800 || (0xDFFF < n && n ≤ 0x10FFFF) then some (Char.ofNat n) else none
  | none => none

/-- A scalar that has been read, the place behind it, and what follows there. -/
structure Scanned where
  content : List Char
  mark : Mark
  left : List Char

/-- The scalar with characters before it. -/
def Scanned.behind (cs : List Char) (s : Scanned) : Scanned := { s with content := cs ++ s.content }

/-- A quoted text up to its closing quote, `blanks` being the blanks right before. -/
def quoted? (single : Bool) (mark : Mark) (blanks : Blanks) (cs : List Char) : Option Scanned :=
  match cs with
  | [] => none
  | c :: rest =>
    if isSpace c || isBreak c then quoted? single (mark.step c) (blanks.add c) rest
    else if mark.column == 0 && isBoundary (c :: rest) then none
    else if single && c == '\'' && rest.head? == some '\'' then
      (quoted? single (mark.advance [c, c]) {} (rest.drop 1)).map (·.behind (blanks.text ++ [c]))
    else if c == (if single then '\'' else '"') then some ⟨blanks.text, mark.step c, rest⟩
    else if !single && c == '\\' then
      match rest with
      | [] => none
      | d :: more =>
        if isBreak d then
          (quoted? single (mark.advance [c, d]) .escaped more).map (·.behind blanks.text)
        else
          match codeLength? d with
          | some n =>
            match coded? (more.take n) with
            | some x =>
              if more.length < n then none
              else
                (quoted? single (mark.advance (c :: d :: more.take n)) {} (more.drop n)).map
                  (·.behind (blanks.text ++ [x]))
            | none => none
          | none =>
            match escaped? d with
            | some x =>
              (quoted? single (mark.advance [c, d]) {} more).map (·.behind (blanks.text ++ [x]))
            | none => none
    else (quoted? single (mark.step c) {} rest).map (·.behind (blanks.text ++ [c]))
termination_by cs.length
decreasing_by all_goals simp only [List.length_cons, List.length_drop]; omega

/-- What follows a quoted text is shorter than the text from its first character on. -/
theorem length_quoted? {single : Bool} {mark : Mark} {blanks : Blanks} {cs : List Char}
    {s : Scanned} (h : quoted? single mark blanks cs = some s) : s.left.length < cs.length := by
  fun_induction quoted? single mark blanks cs generalizing s <;>
    grind [Scanned.behind, Option.map_eq_some_iff, List.length_drop, List.length_cons]

example : ((quoted? false {} {} "a \\x41\n b\"c".toList).map fun s => (s.content, s.left)) =
    some ("a A b".toList, ['c']) := by decide +kernel

end Stencil.Document
