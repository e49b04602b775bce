import Stencil.Document.Piece

/-!
# Reading documents

The pieces of a text put together, then its scalars read. A text without pieces is null. The pieces
have to fit together first; after that a problem less deep comes before one that is deeper, and of two
as deep the first. A key that stands twice in one mapping is such a problem, and so is a number that
cannot be read. This is the reader that the program is run with; all else is said of any reader.
-/

namespace Stencil.Document

/-- A document whose scalars have not been read. -/
inductive Draft where
  | scalar (w : Written)
  | list (items : List Draft)
  | map (entries : List (Written × Draft))

/-! ## The pieces put together -/

/-- A part that was put together, and the pieces left, fewer than there were. -/
abbrev Taken (α : Type) (pieces : List Piece) : Type :=
  Option (α × { rest : List Piece // rest.length < pieces.length })

/-- The pieces that end an entry. -/
def endsEntry (piece : Piece) : Bool :=
  piece == .comma || piece == .closeList || piece == .closeMap

/-- The scalar that stands for nothing written. -/
def unwritten : Written := ⟨false, []⟩

mutual

/-- The draft at the front. -/
def node (pieces : List Piece) : Taken Draft pieces :=
  match pieces with
  | .scalar w :: rest => some (.scalar w, ⟨rest, by simp⟩)
  | .openList :: rest => do
    let (items, ⟨left, hleft⟩) ← listItems rest
    pure (.list items, ⟨left, by simp only [List.length_cons]; omega⟩)
  | .openMap :: rest => do
    let (entries, ⟨left, hleft⟩) ← mapEntries rest
    pure (.map entries, ⟨left, by simp only [List.length_cons]; omega⟩)
  | _ => none
termination_by 3 * pieces.length

/-- What stands behind a key and its colon; nothing may. -/
def entryValue (pieces : List Piece) :
    Option (Draft × { rest : List Piece // rest.length ≤ pieces.length }) :=
  if pieces.head?.any endsEntry then some (.scalar unwritten, ⟨pieces, Nat.le_refl _⟩)
  else do
    let (value, ⟨left, hleft⟩) ← node pieces
    pure (value, ⟨left, Nat.le_of_lt hleft⟩)
termination_by 3 * pieces.length + 1

/-- An item of a list: a draft, or a key with its value, which is a mapping of that one entry. -/
def listItem (pieces : List Piece) : Taken Draft pieces :=
  match pieces with
  | .scalar key :: .colon :: behind => do
    let (value, ⟨left, hleft⟩) ← entryValue behind
    pure (.map [(key, value)], ⟨left, by simp only [List.length_cons]; omega⟩)
  | other => node other
termination_by 3 * pieces.length + 1

/-- The items of a list up to its closing bracket. -/
def listItems (pieces : List Piece) : Taken (List Draft) pieces :=
  match pieces with
  | .closeList :: rest => some ([], ⟨rest, by simp⟩)
  | first :: behind => do
    let (item, ⟨left, hleft⟩) ← listItem (first :: behind)
    match hl : left with
    | .closeList :: rest =>
      pure ([item], ⟨rest, by subst hl; simp only [List.length_cons] at *; omega⟩)
    | .comma :: rest => do
      let (items, ⟨last, hlast⟩) ← listItems rest
      pure (item :: items, ⟨last, by subst hl; simp only [List.length_cons] at *; omega⟩)
    | _ => none
  | [] => none
termination_by 3 * pieces.length + 2
decreasing_by all_goals ((try subst hl); (try simp only [List.length_cons] at *); omega)

/-- An entry of a mapping. -/
def mapEntry (pieces : List Piece) : Taken (Written × Draft) pieces :=
  match pieces with
  | .scalar key :: .colon :: behind => do
    let (value, ⟨left, hleft⟩) ← entryValue behind
    pure ((key, value), ⟨left, by simp only [List.length_cons]; omega⟩)
  | .scalar key :: behind => some ((key, .scalar unwritten), ⟨behind, by simp⟩)
  | _ => none
termination_by 3 * pieces.length + 1

/-- The entries of a mapping up to its closing brace. -/
def mapEntries (pieces : List Piece) : Taken (List (Written × Draft)) pieces :=
  match pieces with
  | .closeMap :: rest => some ([], ⟨rest, by simp⟩)
  | first :: behind => do
    let (entry, ⟨left, hleft⟩) ← mapEntry (first :: behind)
    match hl : left with
    | .closeMap :: rest =>
      pure ([entry], ⟨rest, by subst hl; simp only [List.length_cons] at *; omega⟩)
    | .comma :: rest => do
      let (entries, ⟨last, hlast⟩) ← mapEntries rest
      pure (entry :: entries, ⟨last, by subst hl; simp only [List.length_cons] at *; omega⟩)
    | _ => none
  | [] => none
termination_by 3 * pieces.length + 2
decreasing_by all_goals ((try subst hl); (try simp only [List.length_cons] at *); omega)

end

/-- The draft that pieces make up; nothing may stand behind it. -/
def Draft.ofPieces? : List Piece → Option Draft
  | [] => some (.scalar unwritten)
  | first :: behind =>
    match node (first :: behind) with
    | some (draft, ⟨[], _⟩) => some draft
    | _ => none

/-! ## The scalars read -/

/-- A problem with a part of a document, and how many brackets stand around that part. -/
structure Problem where
  depth : Nat
  cause : ReadError
deriving DecidableEq, Repr

/-- Two results, or the problem that comes first: the one less deep, and of two as deep the left. -/
def both {α β : Type} : Except Problem α → Except Problem β → Except Problem (α × β)
  | .ok x, .ok y => .ok (x, y)
  | .error p, .ok _ => .error p
  | .ok _, .error q => .error q
  | .error p, .error q => .error (if q.depth < p.depth then q else p)

/-- The scalar that is written at a depth; what is quoted is a text. -/
def Written.read (depth : Nat) (w : Written) : Except Problem Scalar :=
  if w.quoted then .ok (.text (String.ofList w.content))
  else (Scalar.ofPlain w.content).mapError fun cause => ⟨depth, .fault cause⟩

namespace Draft

mutual

/-- The document of a draft at a depth. -/
def read (depth : Nat) : Draft → Except Problem Document
  | scalar w => (w.read depth).map .scalar
  | list items => (readItems (depth + 1) items).map .list
  | map entries => (readEntries (depth + 1) [] entries).map .map

/-- The documents of some drafts. -/
def readItems (depth : Nat) : List Draft → Except Problem (List Document)
  | [] => .ok []
  | first :: rest =>
    (both (first.read depth) (readItems depth rest)).map fun (item, items) => item :: items

/-- The entries of a mapping, `known` being the keys before them. A key that cannot be read comes
before all else in its mapping that is left. -/
def readEntries (depth : Nat) (known : List Scalar) :
    List (Written × Draft) → Except Problem (List (Scalar × Document))
  | [] => .ok []
  | (w, value) :: rest => do
    let key ← w.read depth
    let single : Except Problem Unit :=
      if known.any key.sameKey then .error ⟨depth, .malformed⟩ else .ok ()
    let ((found, ()), entries) ←
      both (both (value.read depth) single) (readEntries depth (key :: known) rest)
    pure ((key, found) :: entries)

end

end Draft

/-! ## The document of a text -/

/-- The characters that a document may be written with: tabs, line ends, and what can be printed. -/
def isAdmitted (c : Char) : Bool :=
  let n := c.toNat
  n == 9 || n == 10 || n == 13 || (0x20 ≤ n && n ≤ 0x7E) || n == 0x85 ||
    (0xA0 ≤ n && n != 0xFFFE && n != 0xFFFF)

/-- A text without a byte order mark in front. -/
def unmarked (cs : List Char) : List Char := if cs.head? == some '\ufeff' then cs.drop 1 else cs

/-- The draft that a text holds; up to two byte order marks in front do not count. -/
def Draft.ofText? (text : String) : Option Draft :=
  let cs := text.toList
  if cs.all isAdmitted then (Piece.scan (unmarked (unmarked cs))).bind Draft.ofPieces? else none

/-- The document that a text holds. -/
def ofText : Reader := fun text =>
  match Draft.ofText? text with
  | some draft => (draft.read 0).mapError Problem.cause
  | none => .error .malformed

end Stencil.Document
