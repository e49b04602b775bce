import Stencil.Document.Plain

/-!
# Pieces of a document

The text of a document cut into scalars and marks. Blanks and comments stand between pieces; a comment
begins with `#` and ends with its line. A colon makes a key of the scalar before it, which is only
possible on one line and not too far away, so the scan remembers where such a scalar began.
-/

namespace Stencil.Document

/-- A scalar as it is written. -/
structure Written where
  quoted : Bool
  content : List Char
deriving DecidableEq, Repr

/-- A piece of a document. -/
inductive Piece where
  | openList
  | closeList
  | openMap
  | closeMap
  | comma
  | colon
  | scalar (w : Written)
deriving DecidableEq, Repr

/-- Where a scan stands, and which of the pieces before may still be keys. -/
structure Cursor where
  mark : Mark := {}
  /-- A key may begin here. -/
  fresh : Bool := true
  /-- Where the piece began that may be a key inside the innermost brackets. -/
  key : Option Mark := none
  /-- The same for the brackets around, the innermost first. -/
  outer : List (Option Mark) := []
deriving DecidableEq, Repr

namespace Cursor

/-- The scan stands inside brackets. -/
def inside (k : Cursor) : Bool := !k.outer.isEmpty

/-- The cursor behind one more character. -/
def step (k : Cursor) (c : Char) : Cursor := { k with mark := k.mark.step c }

/-- The cursor that remembers the piece it stands before, if that may be a key. -/
def noted (k : Cursor) : Cursor := if k.fresh then { k with key := some k.mark } else k

/-- The cursor behind an opening bracket. -/
def enter (k : Cursor) (c : Char) : Cursor :=
  { (k.noted.step c) with fresh := true, key := none, outer := k.noted.key :: k.outer }

/-- The cursor behind a closing bracket, if there is one to close. -/
def leave? (k : Cursor) (c : Char) : Option Cursor :=
  match k.outer with
  | [] => none
  | key :: outer => some { (k.step c) with fresh := false, key := key, outer := outer }

/-- The cursor behind a comma, which only stands inside brackets. -/
def part? (k : Cursor) (c : Char) : Option Cursor :=
  if k.inside then some { (k.step c) with fresh := true, key := none } else none

/-- How far behind the front of a key its colon may stand. -/
def reach : Nat := 1024

/-- The cursor behind a colon, if there is a key for it. -/
def pair? (k : Cursor) (c : Char) : Option Cursor :=
  match k.key with
  | some m =>
    if k.inside && m.line == k.mark.line && k.mark.index ≤ m.index + reach then
      some { (k.step c) with fresh := false, key := none }
    else none
  | none => none

/-- The cursor behind a scalar that ends at a mark. -/
def behind (k : Cursor) (mark : Mark) (fresh : Bool) : Cursor :=
  { k.noted with mark := mark, fresh := fresh }

end Cursor

namespace Piece

/-- The cursor at the next piece and the text from there on; `inComment` holds behind a `#`. Outside
brackets no tab may stand where a key may begin. -/
def skipGap (inComment : Bool) (k : Cursor) : List Char → Cursor × List Char
  | [] => (k, [])
  | c :: rest =>
    if isBreak c then
      skipGap false { (k.step c) with fresh := k.fresh || !k.inside } rest
    else if inComment || c == ' ' || (c == '\t' && (k.inside || !k.fresh)) then
      skipGap inComment (k.step c) rest
    else if c == '#' then skipGap true (k.step c) rest
    else (k, c :: rest)

/-- The characters that no plain scalar begins with. -/
def isReserved (c : Char) : Bool := isMark c || "\t#&*!|>\"'%@\x60".toList.contains c

/-- A plain scalar may begin with a character, given what follows it. -/
def beginsPlain (inside : Bool) (c : Char) (rest : List Char) : Bool :=
  !isReserved c && !((c == '-' || c == '?' || c == ':') && isOpen rest) &&
    !(inside && (c == '?' || c == ':'))

/-- The piece that begins with `c`, the cursor behind it, and what follows it. -/
def read? (k : Cursor) (c : Char) (rest : List Char) : Option (Piece × Cursor × List Char) :=
  if k.mark.column == 0 && (c == '%' || isBoundary (c :: rest)) then none
  else if c == '[' then some (openList, k.enter c, rest)
  else if c == '\x7b' then some (openMap, k.enter c, rest)
  else if c == ']' then (k.leave? c).map (closeList, ·, rest)
  else if c == '\x7d' then (k.leave? c).map (closeMap, ·, rest)
  else if c == ',' then (k.part? c).map (comma, ·, rest)
  else if c == ':' && (k.inside || isOpen rest) then (k.pair? c).map (colon, ·, rest)
  else if c == '"' || c == '\'' then
    (quoted? (c == '\'') (k.mark.step c) {} rest).map fun s =>
      (scalar ⟨true, s.content⟩, k.behind s.mark false, s.left)
  else if beginsPlain k.inside c rest then
    (plain? k.inside (k.mark.step c) {} rest).map fun (s, broken) =>
      (scalar ⟨false, c :: s.content⟩, k.behind s.mark broken, s.left)
  else none

/-! ## The pieces of a text -/

theorem length_skipGap_le (inComment : Bool) (k : Cursor) (cs : List Char) :
    (skipGap inComment k cs).2.length ≤ cs.length := by
  induction cs generalizing inComment k with
  | nil => simp [skipGap]
  | cons c rest ih =>
    have shorter := fun b k => Nat.le_succ_of_le (ih b k)
    unfold skipGap
    split
    · exact shorter _ _
    · split
      · exact shorter _ _
      · split
        · exact shorter _ _
        · exact Nat.le_refl _

theorem length_read? {k after : Cursor} {c : Char} {rest left : List Char} {piece : Piece}
    (h : read? k c rest = some (piece, after, left)) : left.length ≤ rest.length := by
  unfold read? at h
  iterate 3
    split at h
    · grind
  iterate 4
    split at h
    · obtain ⟨_, _, h⟩ := Option.map_eq_some_iff.1 h
      grind
  split at h
  · obtain ⟨s, hs, h⟩ := Option.map_eq_some_iff.1 h
    cases h
    exact Nat.le_of_lt (length_quoted? hs)
  · split at h
    · obtain ⟨⟨s, broken⟩, hs, h⟩ := Option.map_eq_some_iff.1 h
      cases h
      exact length_plain? hs
    · cases h

/-- The pieces of a text from a cursor on. -/
def scanFrom (start : Cursor) (cs : List Char) : Option (List Piece) :=
  match _hcs : skipGap false start cs with
  | (_, []) => some []
  | (k, c :: rest) =>
    match _hread : read? k c rest with
    | none => none
    | some (piece, after, left) => (scanFrom after left).map (piece :: ·)
termination_by cs.length
decreasing_by
  have h1 := length_read? _hread
  have h2 := length_skipGap_le false start cs
  rw [_hcs] at h2
  simp only [List.length_cons] at h2
  omega

/-- The pieces of a text. -/
def scan (cs : List Char) : Option (List Piece) := scanFrom {} cs

example : scan "\x7b\"a\": 1\x7d".toList =
    some [openMap, scalar ⟨true, ['a']⟩, colon, scalar ⟨false, ['1']⟩, closeMap] := by
  decide +kernel

example : scan "\x7b\"a\"\n: 1\x7d".toList = none := by decide +kernel

end Piece

end Stencil.Document
