import Stencil.Text.Search

/-!
# File trees

Files as a value, by absolute path, and the directory that relative paths start from.
Directories are there as long as they hold files. Paths are resolved by their parts alone, so `..`
takes back the part before it.
-/

namespace Stencil

/-- A path as it is written, without its empty and `.` parts. -/
structure FilePath where
  isAbsolute : Bool
  parts : List String
deriving DecidableEq, Repr

namespace FilePath

/-- A path from its text. -/
def ofText (text : String) : FilePath :=
  { isAbsolute := text.toList.head? == some '/'
    parts := ((Text.splitOn '/' text.toList).map String.ofList).filter fun p => p != "" && p != "." }

/-- The text of a path. -/
def text (p : FilePath) : String :=
  if p.isAbsolute then "/" ++ "/".intercalate p.parts
  else if p.parts.isEmpty then "." else "/".intercalate p.parts

/-- A path below another; an absolute one replaces it. -/
def below (p q : FilePath) : FilePath :=
  if q.isAbsolute then q else { p with parts := p.parts ++ q.parts }

/-- The last part. -/
def name (p : FilePath) : String := p.parts.getLast?.getD ""

/-- The path without its last part. -/
def parent (p : FilePath) : FilePath := { p with parts := p.parts.dropLast }

/-- Parts followed one after the other from a directory; `..` steps out of it. -/
def walk (from_ : List String) : List String → List String
  | [] => from_
  | part :: rest => walk (if part == ".." then from_.dropLast else from_ ++ [part]) rest

end FilePath

/-- A file: what it holds, and when it was last written, in nanoseconds. -/
structure StoredFile where
  content : String
  modified : Int
deriving DecidableEq, Repr

/-- Files, and the directory that relative paths start from. -/
structure FileTree where
  here : List String
  files : List (List String × StoredFile)
deriving DecidableEq, Repr

namespace FileTree

/-- The parts of a path from the root on. -/
def resolve (t : FileTree) (p : FilePath) : List String :=
  FilePath.walk (if p.isAbsolute then [] else t.here) p.parts

/-- The text of a resolved path. -/
def textOf (parts : List String) : String := "/" ++ "/".intercalate parts

/-- The file at a resolved path. -/
def file? (t : FileTree) (parts : List String) : Option StoredFile := t.files.lookup parts

/-- The content of a file. -/
def content? (t : FileTree) (parts : List String) : Option String := (t.file? parts).map (·.content)

/-- There is a file at a path. -/
def isFile (t : FileTree) (parts : List String) : Bool := (t.file? parts).isSome

/-- There is a directory at a path: one that holds files, the directory here, or one around it. -/
def isDirectory (t : FileTree) (parts : List String) : Bool :=
  parts.isPrefixOf t.here ||
    t.files.any fun (file, _) => parts.isPrefixOf file && parts.length < file.length

/-- The place that parts lead to from a directory; `..` steps out of directories only. -/
def walk? (t : FileTree) (from_ : List String) : List String → Option (List String)
  | [] => some from_
  | part :: rest =>
    if part == ".." then if t.isDirectory from_ then t.walk? from_.dropLast rest else none
    else t.walk? (from_ ++ [part]) rest

/-- The place that a path leads to, if there is a way to it. -/
def reach? (t : FileTree) (p : FilePath) : Option (List String) :=
  t.walk? (if p.isAbsolute then [] else t.here) p.parts

/-- The file that a path leads to. -/
def find? (t : FileTree) (p : FilePath) : Option StoredFile := (t.reach? p).bind t.file?

/-- The content of the file that a path leads to. -/
def read? (t : FileTree) (p : FilePath) : Option String := (t.find? p).map (·.content)

/-- A path leads to a directory. -/
def leadsToDirectory (t : FileTree) (p : FilePath) : Bool := (t.reach? p).any t.isDirectory

/-- The files below a directory, with their paths from there on. -/
def filesBelow (t : FileTree) (parts : List String) : List (List String × StoredFile) :=
  t.files.filterMap fun (file, stored) =>
    if parts.isPrefixOf file && parts.length < file.length then
      some (file.drop parts.length, stored)
    else none

/-- A file written: the old one is replaced. -/
def write (t : FileTree) (parts : List String) (stored : StoredFile) : FileTree :=
  { t with files := (t.files.filter fun (file, _) => file != parts) ++ [(parts, stored)] }

/-- A file removed. -/
def remove (t : FileTree) (parts : List String) : FileTree :=
  { t with files := t.files.filter fun (file, _) => file != parts }

end FileTree

end Stencil
