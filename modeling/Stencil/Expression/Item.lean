import Stencil.Failure
import Stencil.Text.Blank
import Stencil.Text.Search

/-!
# Expression items

The expression inside a tag, cut into quoted texts, words and the four marks. A quoted text runs to
the next quote of its kind without a backslash before it; a word runs on until white space, a quote
or a mark, and what stands in brackets belongs to it whatever it is.
-/

namespace Stencil

/-- An item of an expression. -/
inductive Item where
  /-- A quoted text, quotes included. -/
  | quoted (raw : String)
  | word (raw : String)
  | openParen
  | closeParen
  | pipe
  | equals
deriving DecidableEq, Repr

namespace Item

/-- An item as written. -/
def text : Item → String
  | quoted raw | word raw => raw
  | openParen => "("
  | closeParen => ")"
  | pipe => "|"
  | equals => "="

/-- A quoted text up to and with its closing quote, and what follows; nothing when it is not closed.
A backslash keeps the next character from closing it, and does not stand before a line feed. -/
def closeQuote? (quote : Char) : List Char → Option (List Char × List Char)
  | [] => none
  | [c] => if c == quote then some ([c], []) else none
  | c :: d :: rest =>
    if c == quote then some ([c], d :: rest)
    else if c == '\\' then
      if d == '\n' then none
      else (closeQuote? quote rest).map fun (taken, left) => (c :: d :: taken, left)
    else (closeQuote? quote (d :: rest)).map fun (taken, left) => (c :: taken, left)

/-- The characters that may stand in a word outside brackets. -/
def isWordChar (c : Char) : Bool :=
  !Text.isBlank c && c != '(' && c != ')' && c != '=' && c != '|' && c != '"' && c != '\'' &&
    c != '[' && c != ']'

/-- The longest word at the front, and what follows; `inside` holds between brackets. A bracket
that is never closed ends the word. -/
def takeWord (inside : Bool) : List Char → List Char × List Char
  | [] => ([], [])
  | c :: rest =>
    if inside then
      let (taken, left) := takeWord (c != ']') rest
      (c :: taken, left)
    else if isWordChar c || (c == '[' && rest.contains ']') then
      let (taken, left) := takeWord (c == '[') rest
      (c :: taken, left)
    else ([], c :: rest)

/-- The item that begins with `c`, and what follows it. -/
def read? (c : Char) (rest : List Char) : Option (Item × List Char) :=
  if c == '"' || c == '\'' then
    (closeQuote? c rest).map fun (taken, left) => (.quoted (String.ofList (c :: taken)), left)
  else if c == '(' then some (.openParen, rest)
  else if c == ')' then some (.closeParen, rest)
  else if c == '|' then some (.pipe, rest)
  else if c == '=' then some (.equals, rest)
  else
    match takeWord false (c :: rest) with
    | ([], _) => none
    | (taken, left) => some (.word (String.ofList taken), left)

/-! ### An item takes at least one character -/

theorem length_closeQuote? {quote : Char} {cs taken left : List Char}
    (h : closeQuote? quote cs = some (taken, left)) : taken.length + left.length = cs.length := by
  fun_induction closeQuote? quote cs generalizing taken left with
  | case1 => simp at h
  | case2 c hc =>
    simp only [Option.some.injEq, Prod.mk.injEq] at h
    obtain ⟨rfl, rfl⟩ := h
    rfl
  | case3 => simp at h
  | case4 c d rest hc =>
    simp only [Option.some.injEq, Prod.mk.injEq] at h
    obtain ⟨rfl, rfl⟩ := h
    simp
    omega
  | case5 => simp at h
  | case6 c d rest _ _ _ ih =>
    simp only [Option.map_eq_some_iff, Prod.exists, Prod.mk.injEq] at h
    obtain ⟨t, l, hq, rfl, rfl⟩ := h
    have := ih hq
    simp only [List.length_cons]
    omega
  | case7 c d rest _ _ ih =>
    simp only [Option.map_eq_some_iff, Prod.exists, Prod.mk.injEq] at h
    obtain ⟨t, l, hq, rfl, rfl⟩ := h
    have := ih hq
    simp only [List.length_cons] at this ⊢
    omega

/-- A word and what follows it make up the source. -/
theorem append_takeWord (inside : Bool) (cs : List Char) :
    (takeWord inside cs).1 ++ (takeWord inside cs).2 = cs := by
  induction cs generalizing inside with
  | nil => rfl
  | cons c rest ih =>
    unfold takeWord
    cases inside
    · simp only [Bool.false_eq_true, ↓reduceIte]
      split
      · simpa using ih _
      · rfl
    · simpa using ih _

theorem length_read?_lt {c : Char} {rest left : List Char} {item : Item}
    (h : read? c rest = some (item, left)) : left.length < (c :: rest).length := by
  unfold read? at h
  split at h
  · simp only [Option.map_eq_some_iff, Prod.exists, Prod.mk.injEq] at h
    obtain ⟨t, l, hq, -, rfl⟩ := h
    have := length_closeQuote? hq
    simp only [List.length_cons]
    omega
  · iterate 4
      split at h
      · simp only [Option.some.injEq, Prod.mk.injEq] at h
        obtain ⟨-, rfl⟩ := h
        simp
    have ha := congrArg List.length (append_takeWord false (c :: rest))
    split at h
    · simp at h
    · rename_i taken left' hne heq
      simp only [Option.some.injEq, Prod.mk.injEq] at h
      obtain ⟨-, rfl⟩ := h
      rw [heq] at ha
      have : taken ≠ [] := fun hnil => hne hnil
      have := List.length_pos_iff.2 this
      simp only [List.length_append] at ha
      omega

/-- The items of an expression, or the character that begins none. -/
def scan (cs : List Char) : Except ParseError (List Item) :=
  match _hcs : cs.dropWhile Text.isBlank with
  | [] => pure []
  | c :: rest =>
    match _hread : read? c rest with
    | none => throw (.unexpectedCharacter c)
    | some (item, left) => do
      let others ← scan left
      pure (item :: others)
termination_by cs.length
decreasing_by
  have h1 := length_read?_lt _hread
  have h2 := (List.dropWhile_sublist Text.isBlank (l := cs)).length_le
  rw [_hcs] at h2
  omega

end Item

end Stencil
