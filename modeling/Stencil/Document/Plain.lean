import Stencil.Decimal.Integer
import Stencil.Decimal.Read
import Stencil.Document.Basic
import Stencil.Document.Quoted

/-!
# Plain scalars

Scalars without quotes. A plain scalar goes on over spaces and lines until a colon behind which no
word begins, a comment, or inside brackets one of the marks. What it is is read off its characters:
one of the words for null, true and false, a number, or else a text.
-/

namespace Stencil.Document

/-- The marks that end a plain scalar inside brackets. -/
def isMark (c : Char) : Bool := c == ',' || c == '[' || c == ']' || c == '\x7b' || c == '\x7d'

/-- A plain scalar from behind its first character on, and whether blanks with a break follow it.
`blanks` are the blanks right before. -/
def plain? (inside : Bool) (mark : Mark) (blanks : Blanks) : List Char → Option (Scanned × Bool)
  | [] => some (⟨[], mark, []⟩, blanks.broken)
  | c :: rest =>
    if isSpace c || isBreak c then plain? inside (mark.step c) (blanks.add c) rest
    else if (mark.column == 0 && isBoundary (c :: rest)) || (c == '#' && blanks.some?) then
      some (⟨[], mark, c :: rest⟩, blanks.broken)
    else if inside && c == ':' && rest.head?.any (fun d => isMark d || d == '?') then none
    else if (c == ':' && isOpen rest) || (inside && isMark c) then
      some (⟨[], mark, c :: rest⟩, blanks.broken)
    else
      (plain? inside (mark.step c) {} rest).map fun (s, broken) =>
        (s.behind (blanks.text ++ [c]), broken)

/-- What follows a plain scalar is no longer than what followed its first character. -/
theorem length_plain? {inside : Bool} {mark : Mark} {blanks : Blanks} {cs : List Char}
    {s : Scanned} {broken : Bool} (h : plain? inside mark blanks cs = some (s, broken)) :
    s.left.length ≤ cs.length := by
  induction cs generalizing mark blanks s broken with
  | nil =>
    cases h
    exact Nat.le_refl _
  | cons c rest ih =>
    unfold plain? at h
    split at h
    · exact Nat.le_succ_of_le (ih h)
    · split at h
      · cases h
        exact Nat.le_refl _
      · split at h
        · cases h
        · split at h
          · cases h
            exact Nat.le_refl _
          · simp only [Option.map_eq_some_iff, Prod.exists, Prod.mk.injEq] at h
            obtain ⟨t, b, hp, rfl, rfl⟩ := h
            have shorter := ih hp
            exact Nat.le_succ_of_le shorter

namespace Scalar

/-- The words for null. -/
def nullWords : List String := ["", "~", "null", "Null", "NULL"]

/-- The words for true. -/
def trueWords : List String := ["true", "True", "TRUE"]

/-- The words for false. -/
def falseWords : List String := ["false", "False", "FALSE"]

/-- The words for infinity, without a sign. -/
def infinityWords : List String := [".inf", ".Inf", ".INF"]

/-- The words for no number. -/
def nanWords : List String := [".nan", ".NaN", ".NAN"]

/-- Digits, with underscores among them that do not count. -/
def isFiller (c : Char) : Bool := c.isDigit || c == '_'

/-- A power of ten: the letter, a sign that may have to be there, and digits. -/
def isPower (signed : Bool) : List Char → Bool
  | e :: rest =>
    let digits := if rest.head?.any (fun c => c == '-' || c == '+') then rest.drop 1 else rest
    (e == 'e' || e == 'E') && !digits.isEmpty && digits.all Char.isDigit &&
      (!signed || digits.length < rest.length)
  | [] => false

/-- A decimal number with a point or a power of ten, without its sign. -/
def isDecimalBody (body : List Char) : Bool :=
  let whole := body.takeWhile isFiller
  let leads := whole.head?.any Char.isDigit
  match body.dropWhile isFiller with
  | '.' :: more =>
    let tail := more.dropWhile isFiller
    if whole.isEmpty then
      more.head?.any isFiller && (tail.isEmpty || isPower true tail)
    else leads && (tail.isEmpty || isPower false tail)
  | tail => leads && isPower false tail

/-- The number that digits in a base write. -/
def digitsIn (base : Nat) (digits : List Char) : Option Int :=
  if digits.isEmpty then none
  else
    let step (n : Nat) (c : Char) : Option Nat :=
      (hexValue? c).bind fun d => if d < base then some (base * n + d) else none
    (digits.foldlM step 0).map fun n => (n : Int)

/-- An integer in base two, eight or sixteen, without its sign. -/
def based? : List Char → Option Int
  | '0' :: 'b' :: digits => digitsIn 2 digits
  | '0' :: 'o' :: digits => digitsIn 8 digits
  | '0' :: 'x' :: digits => digitsIn 16 digits
  | _ => none

/-- What a sign in front of a number and the number are. -/
def signed (cs : List Char) : Bool × List Char :=
  match cs with
  | '-' :: body => (true, body)
  | '+' :: body => (false, body)
  | body => (false, body)

/-- The scalar that plain characters are. -/
def ofPlain (cs : List Char) : Except Fault Scalar := do
  let written := String.ofList cs
  let (negative, body) := signed cs
  let digits := body.filter (· != '_')
  let turned {α : Type} [Neg α] (x : α) : α := if negative then -x else x
  if nullWords.contains written then pure null
  else if trueWords.contains written then pure (bool true)
  else if falseWords.contains written then pure (bool false)
  else if infinityWords.contains (String.ofList body) then pure (float (turned (1.0 / 0.0)))
  else if nanWords.contains written then pure (float (0.0 / 0.0))
  else if isDecimalBody body then
    match Decimal.readScientific? digits with
    | some x => pure (float (turned x.toFloat))
    | none => pure (text written)
  else if !body.isEmpty && body.all isFiller && cs.head? != some '_' then
    pure (int (turned (← Decimal.readInteger (String.ofList digits))))
  else
    match based? digits with
    | some n => pure (int (turned n))
    | none => pure (text written)

end Scalar

end Stencil.Document
