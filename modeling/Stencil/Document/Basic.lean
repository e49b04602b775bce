import Stencil.Value.Basic

/-!
# Documents

What a data file holds: scalars, lists, and mappings from scalars, without the labels that tell
values apart. A document becomes a value when it is given labels, each part one of its own. How a text
is read into a document is up to a reader.
-/

namespace Stencil

namespace Document

/-- A part of a document without parts of its own. -/
inductive Scalar where
  | null
  | bool (b : Bool)
  | int (n : Int)
  | float (x : Float)
  | text (s : String)

namespace Scalar

/-- The value of a scalar, under a label. -/
def toValue (label : Label) : Scalar → Value
  | null => .null
  | bool b => .bool b
  | int n => .int ⟨n, .given label⟩
  | float x => .float ⟨x, .given label⟩
  | text s => .text ⟨s, .given label⟩

/-- Two scalars that name one entry of a mapping, whatever their labels. -/
def sameKey (a b : Scalar) : Bool := (a.toValue 0).sameKey (b.toValue 0)

end Scalar

end Document

/-- A document. -/
inductive Document where
  | scalar (s : Document.Scalar)
  | list (items : List Document)
  /-- A mapping in its order; no two keys are the same key. -/
  | map (entries : List (Document.Scalar × Document))

namespace Document

/-- Why a text is no document. -/
inductive ReadError where
  | malformed
  /-- A number that cannot be read, or whatever else ends the reader. -/
  | fault (cause : Fault)
deriving DecidableEq, Repr

/-- A reader of documents. -/
abbrev Reader := String → Except ReadError Document

/-- A text as a document. -/
def text (s : String) : Document := scalar (.text s)

mutual

/-- The value of a document, with labels from `next` on, and the first label that is left. -/
def toValue (next : Label) : Document → Value × Label
  | scalar s => (s.toValue next, next + 1)
  | list items =>
    let (values, left) := toValues (next + 1) items
    (.list next values, left)
  | map entries =>
    let (values, left) := toEntries (next + 1) entries
    (.map next values, left)

/-- The values of some documents. -/
def toValues (next : Label) : List Document → List Value × Label
  | [] => ([], next)
  | d :: rest =>
    let (first, between) := toValue next d
    let (others, left) := toValues between rest
    (first :: others, left)

/-- The entries of a mapping as entries of values. -/
def toEntries (next : Label) : List (Scalar × Document) → List (Value × Value) × Label
  | [] => ([], next)
  | (key, d) :: rest =>
    let (first, between) := toValue (next + 1) d
    let (others, left) := toEntries between rest
    ((key.toValue next, first) :: others, left)

end

end Document

end Stencil
