import Stencil.Digest.Sha1
import Stencil.Failure
import Stencil.Loader.FileTree
import Stencil.Text.Blank

/-!
# Sources

A source has a name, which is what it is remembered under, a content, and a mark of freshness that
changes with the content: a digest for texts in memory, the time of writing and the size for files. A
source may fail to give either of the two, as a file does that is no longer there.
-/

namespace Stencil

/-- What tells whether a source has changed. -/
inductive Freshness where
  | digest (hex : String)
  | stat (modified : Int) (bytes : Nat)
deriving DecidableEq, Repr

/-- A source, with what it answers when it is asked. -/
structure Source where
  name : String
  content : Except Failure String
  freshness : Except Failure Freshness

namespace Source

/-- A text in memory. -/
def memory (name text : String) : Source := ⟨name, .ok text, .ok (.digest (Digest.sha1 text))⟩

/-- The failure of a file that is not there. -/
def missing (name path : String) : Failure := .notFound name (some path)

/-- A file, its line ends unified; `path` is where it was looked for. -/
def file (name path : String) : Option StoredFile → Source
  | some stored =>
    { name
      content := .ok (String.ofList (Text.unifyLineEnds stored.content.toList))
      freshness := .ok (.stat stored.modified stored.content.utf8ByteSize) }
  | none => ⟨name, .error (missing name path), .error (missing name path)⟩

end Source

end Stencil
