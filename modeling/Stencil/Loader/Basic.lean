import Stencil.Loader.Source

/-!
# Loaders

A loader finds the source at a location. The location is completed to a name first: white space
around it and slashes before it go, the ending is added where it is missing, and the folder is put in
front. A loader keeps its sources in memory or finds them as files below a directory; it never
leaves that directory.
-/

namespace Stencil

/-- How locations are completed to names. -/
structure Naming where
  /-- The folder of all sources, without slashes around it; empty for none. -/
  folder : String
  /-- What every name ends with; empty for nothing. -/
  ending : String
deriving DecidableEq, Repr

namespace Naming

/-- The naming with a folder that may be written between slashes. -/
def ofTexts (folder ending : String) : Naming := ⟨Text.dropEnds '/' folder, ending⟩

/-- The text ends with another. -/
def endsWith (s ending : String) : Bool := ending.toList.isSuffixOf s.toList

/-- The name of a location. -/
def complete (n : Naming) (location : String) : String :=
  let name := Text.dropFront '/' (Text.strip location)
  let name := if n.ending != "" && !endsWith name n.ending then name ++ n.ending else name
  if n.folder != "" then n.folder ++ "/" ++ name else name

end Naming

/-- Sources in memory, by name. -/
structure MemoryLoader where
  naming : Naming
  texts : List (String × String)
deriving DecidableEq, Repr

namespace MemoryLoader

/-- A text put at a name: in place of the one there, or last. -/
def putAt (name text : String) : List (String × String) → List (String × String)
  | [] => [(name, text)]
  | (n, t) :: rest => if n == name then (n, text) :: rest else (n, t) :: putAt name text rest

/-- A text put at a location. -/
def put (l : MemoryLoader) (location text : String) : MemoryLoader :=
  { l with texts := putAt (l.naming.complete location) text l.texts }

/-- The source at a location. -/
def source (l : MemoryLoader) (location : String) : Except Failure Source :=
  let name := l.naming.complete location
  match l.texts.lookup name with
  | some text => pure (.memory name text)
  | none => throw (.notFound location (some name))

/-- The names in alphabetical order. -/
def names (l : MemoryLoader) : List String := (l.texts.map (·.1)).mergeSort fun a b => !(b < a)

end MemoryLoader

/-- A file that is a source, whether or not it is there. -/
structure FileSource where
  path : FilePath
  name : String
deriving DecidableEq, Repr

namespace FileSource

/-- The file at a path, under the name that is given or else that of the path. -/
def ofPath (path : FilePath) (name : Option String) : FileSource :=
  ⟨path, if name.getD "" == "" then path.text else name.getD ""⟩

/-- The source as the file is now, if it is there. -/
def source (s : FileSource) (t : FileTree) : Source := .file s.name s.path.text (t.find? s.path)

end FileSource

/-- How lines of patterns select paths. What a pattern means is up to the host. -/
abbrev Selection := List String → Except Fault (String → Bool)

/-- Sources as files below a directory. -/
structure FileLoader where
  naming : Naming
  /-- The directory, from the root on. -/
  base : List String
  /-- Patterns of files that are not listed. -/
  exclude : List String
deriving DecidableEq, Repr

namespace FileLoader

/-- The file in which patterns of a directory are kept. -/
def ignoreFile : String := ".hbsignore"

/-- The path of a location, from the root on. -/
def pathOf (l : FileLoader) (t : FileTree) (location : String) : List String :=
  let p := FilePath.ofText (l.naming.complete location)
  if p.isAbsolute then t.resolve p else FilePath.walk l.base p.parts

/-- The file at a location. Only files below the base are found. -/
def locate (l : FileLoader) (t : FileTree) (location : String) : Except Failure FileSource :=
  let path := l.pathOf t location
  if l.base.isPrefixOf path && l.base.length < path.length && t.isFile path then
    pure ⟨⟨true, path⟩, l.naming.complete location⟩
  else throw (.notFound location (some (FileTree.textOf path)))

/-- The source at a location. -/
def source (l : FileLoader) (t : FileTree) (location : String) : Except Failure Source := do
  pure ((← l.locate t location).source t)

/-- The patterns in the ignore file of the base. -/
def ignored (l : FileLoader) (t : FileTree) : List String :=
  match t.content? (l.base ++ [ignoreFile]) with
  | some content =>
    ((Text.lines content).map Text.strip).filter fun line =>
      line != "" && line.toList.head? != some '#'
  | none => []

/-- The directory that is listed, if there is one. -/
def root? (l : FileLoader) (t : FileTree) : Option (List String) :=
  (t.walk? l.base (FilePath.ofText l.naming.folder).parts).filter t.isDirectory

/-- The locations of all files with the right ending, in alphabetical order, except for those that a
pattern of the loader, of the ignore file or of `exclude` selects. -/
def list (l : FileLoader) (selection : Selection) (t : FileTree) (exclude : List String) :
    Except Fault (List String) :=
  match l.root? t with
  | none => pure []
  | some root => do
    let selected ← selection (l.exclude ++ l.ignored t ++ exclude)
    let found := (t.filesBelow root).filterMap fun (parts, _) =>
      let path := "/".intercalate parts
      if !Naming.endsWith (parts.getLast?.getD "") l.naming.ending || selected path then none
      else
        some (String.ofList (path.toList.take (path.length - l.naming.ending.length)))
    pure (found.mergeSort fun a b => !(b < a))

end FileLoader

/-- Where an engine finds its sources. -/
inductive Loader where
  | memory (loader : MemoryLoader)
  | files (loader : FileLoader) (tree : FileTree)

namespace Loader

/-- The source at a location. -/
def source : Loader → String → Except Failure Source
  | memory loader, location => loader.source location
  | files loader tree, location => loader.source tree location

end Loader

end Stencil
