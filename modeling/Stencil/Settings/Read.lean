import Stencil.Document.Basic
import Stencil.Loader.FileTree
import Stencil.Settings.Basic
import Stencil.Text.Blank
import Stencil.Typed.Load
import Stencil.Value.Truth

/-!
# Reading settings and data

Settings are read from a file that is named, or found in a directory under a name of its own. A file
that is not there says nothing, so everything is standard. A base directory is meant from the
directory of the file that names it, and an environment variable overrules whether the cache checks
for changes. Data, the model of a render, is read from a file that has to be there. What a file says
is for a reader of documents to tell; nothing here depends on the form of files.
-/

namespace Stencil

open Typed

/-- The document that a file holds once its line ends are unified, as a value with labels from `next`
on. -/
def readDocument (reader : Document.Reader) (file : FilePath) (content : String) (next : Label) :
    Load (Value × Label) :=
  match reader (String.ofList (Text.unifyLineEnds content.toList)) with
  | .ok found => pure (found.toValue next)
  | .error .malformed => throw (.malformed file.text)
  | .error (.fault cause) => throw (.fault cause)

/-- The model that a data file holds. -/
def readData (reader : Document.Reader) (t : FileTree) (file : FilePath) (next : Label) :
    Load (Value × Label) :=
  match t.read? file with
  | some content => readDocument reader file content next
  | none => throw (.dataNotFound file.text)

namespace Settings

/-- The name of the settings file in a directory. -/
def fileName : String := "hbs.yaml"

/-- The environment variable that turns reload checking on or off. -/
def reloadVariable : String := "HBS_TEMPLATE_RELOAD"

/-- The words that turn reload checking off. -/
def offWords : List String := ["0", "false", "no", "off", ""]

/-- What the reload variable says: everything but the words for off turns it on, in any case of
letters and with white space around. -/
def saysReload (s : String) : Bool :=
  !offWords.contains (String.ofList ((Text.strip s).toList.map Char.toLower))

/-- The settings file that a path means: itself, or the one in the directory it leads to. -/
def fileAt (t : FileTree) (given : Option FilePath) : FilePath :=
  let path := given.getD ⟨true, t.here⟩
  if t.leadsToDirectory path then path.below (.ofText fileName) else path

/-- The mapping that a document amounts to: an empty document is an empty one. -/
def mappingOf (file : FilePath) (document : Value) : Load Value :=
  if document.isEmpty false then pure (.map 0 [])
  else
    match document with
    | .map .. => pure document
    | _ => throw (.notMapping file.text)

/-- The settings that a mapping holds; `name` is what messages call it. -/
def ofMapping (name : String) (mapping : Value) : Load Settings := do
  let loaded ← load shape mapping name
  pure ((ofLoaded? loaded).getD {})

/-- The fault of a path that no file can have. -/
def unusablePath : Fault := .raised .value "embedded null byte"

/-- The base directory made absolute, from the directory of the settings file. -/
def anchored (t : FileTree) (file : FilePath) (s : Settings) : Load Settings :=
  let base := FilePath.ofText s.templates.baseDir
  if base.isAbsolute then pure s
  else if s.templates.baseDir.toList.contains '\x00' then throw (.fault unusablePath)
  else
    pure { s with templates :=
      { s.templates with baseDir := FileTree.textOf (t.resolve (file.parent.below base)) } }

/-- The settings of a file with a content, or of one that is not there. -/
def ofContent (reader : Document.Reader) (t : FileTree) (file : FilePath) :
    Option String → Load Settings
  | none => ofMapping file.name (.map 0 [])
  | some content => do
    let (document, _) ← readDocument reader file content 0
    (← ofMapping file.name (← mappingOf file document)).anchored t file

/-- The settings that the reload variable leaves, if it is there. -/
def overruled (reload : Option String) (s : Settings) : Settings :=
  match reload with
  | some said => { s with cache := { s.cache with reload := saysReload said } }
  | none => s

/-- The settings that a path means, none meaning the directory here; `reload` is the value of the
reload variable. -/
def read (reader : Document.Reader) (t : FileTree) (given : Option FilePath)
    (reload : Option String) : Load Settings := do
  let file := fileAt t given
  pure ((← ofContent reader t file (t.read? file)).overruled reload)

end Settings

end Stencil
