import Stencil.Text.Blank
import Stencil.Text.Search

/-!
# Paths

A reference such as `../user.name`, `this.id`, `[a key]` or `@root.title`, taken apart: how many
scopes it climbs, whether it stays in the scope it arrives at, whether it names a data variable, and
the names it then follows. A name in brackets may hold any character but a closing bracket; what
fits neither form is passed over.
-/

namespace Stencil

/-- A reference taken apart. -/
structure Path where
  /-- The reference as written. -/
  raw : String
  /-- The number of `../` steps. -/
  hops : Nat
  /-- The first name is looked up in one scope only. -/
  isLocal : Bool
  /-- The names are read from the data variables. -/
  isData : Bool
  segments : List String
deriving DecidableEq, Repr

namespace Path

/-- The characters of a name that is written without brackets. -/
def isPlain (c : Char) : Bool := c != '.' && c != '/' && c != '[' && c != ']'

/-- Where the reading of segments stands. -/
inductive Reading where
  | between
  /-- Inside a plain name, its last character first. -/
  | plain (name : List Char)
  /-- Inside brackets, the last character first. -/
  | bracket (name : List Char)

/-- The segments of the characters that follow. A bracket that is never closed is passed over. -/
def segmentsFrom : Reading → List Char → List (List Char)
  | .between, [] => []
  | .plain name, [] => [name.reverse]
  | .bracket _, [] => []
  | .between, c :: rest =>
    if isPlain c then segmentsFrom (.plain [c]) rest
    else if c == '[' && rest.contains ']' then segmentsFrom (.bracket []) rest
    else segmentsFrom .between rest
  | .plain name, c :: rest =>
    if isPlain c then segmentsFrom (.plain (c :: name)) rest
    else if c == '[' && rest.contains ']' then name.reverse :: segmentsFrom (.bracket []) rest
    else name.reverse :: segmentsFrom .between rest
  | .bracket name, c :: rest =>
    if c == ']' then name.reverse :: segmentsFrom .between rest
    else segmentsFrom (.bracket (c :: name)) rest

/-- The parent steps in front of a reference, and what follows them. -/
def climbs : List Char → Nat × List Char
  | '.' :: '.' :: '/' :: rest =>
    let (hops, after) := climbs rest
    (hops + 1, after)
  | cs => if cs == ['.', '.'] then (1, []) else (0, cs)

/-- A reference after its parent steps: whether it is local, and its segments. A reference to the
scope itself is local and has none. -/
def afterClimbs (cs : List Char) : Bool × List (List Char) :=
  if cs.isEmpty || cs == "this".toList || cs == ['.'] then (true, [])
  else
    match cs with
    | '.' :: '/' :: rest => (true, segmentsFrom .between rest)
    | _ =>
      if "this.".toList.isPrefixOf cs || "this/".toList.isPrefixOf cs then
        (true, segmentsFrom .between (cs.drop 5))
      else (false, segmentsFrom .between cs)

/-- A reference taken apart; white space around it does not count. -/
def parse (raw : String) : Path :=
  let (isData, body) : Bool × List Char := match (Text.strip raw).toList with
    | '@' :: rest => (true, rest)
    | cs => (false, cs)
  let (hops, rest) := climbs body
  let (isLocal, segments) := afterClimbs rest
  { raw, hops, isLocal, isData, segments := segments.map String.ofList }

example : (parse "../a.[b c]").segments = ["a", "b c"] ∧ (parse "../a.[b c]").hops = 1 := by decide

end Path

end Stencil
