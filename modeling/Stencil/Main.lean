import Stencil.CommandLine.Run
import Stencil.Document.Read
import Stencil.Loader.Glob

/-!
# The program

The outermost layer: it reads the files that a command may need into a tree, has the command run on
it, and writes the report. Files that cannot be read are left out, so they count as not there.
-/

namespace Stencil.Program

open CommandLine

/-- What is written when help is asked for, or when a command line makes no sense. -/
def usage : String :=
  "usage: stencil render NAME [--data FILE] [--config PATH] [--dir DIR]\n" ++
  "       stencil inspect NAME [--config PATH] [--dir DIR]\n" ++
  "       stencil list [--exclude PATTERN]... [--config PATH] [--dir DIR]\n"

/-- The forms that the program reads. -/
def forms : Forms := ⟨Document.ofText, Glob.selection⟩

/-- How deep directories are searched. -/
def searchDepth : Nat := 64

/-- A tree with one more file, if there is one. -/
def addFile (t : FileTree) (parts : List String) : IO FileTree := do
  try
    let path ← IO.FS.realPath (FileTree.textOf parts)
    let time := (← path.metadata).modified
    pure (t.write parts ⟨← IO.FS.readFile path, time.sec * 1000000000 + time.nsec.toNat⟩)
  catch _ => pure t

/-- A tree with the files below a directory. -/
def addFilesBelow : Nat → FileTree → List String → IO FileTree
  | 0, t, _ => pure t
  | depth + 1, t, parts => do
    let entries ← try (← IO.FS.realPath (FileTree.textOf parts)).readDir catch _ => pure #[]
    entries.foldlM (fun t entry => do
      let below := parts ++ [entry.fileName]
      if ← entry.path.isDir then addFilesBelow depth t below else addFile t below) t

/-- The files that the paths on a command line may mean. -/
def namedFiles (command : Command) : List FilePath :=
  let config := command.place.config.getD (.ofText ".")
  let data := match command with
    | .render _ _ (some file) => [file]
    | _ => []
  config :: config.below (.ofText Settings.fileName) :: data

/-- The files that a command may need. -/
def filesFor (here : List String) (reload : Option String) (command : Command) : IO FileTree := do
  let named ← (namedFiles command).foldlM (fun t file => addFile t (t.resolve file)) ⟨here, []⟩
  match settingsFor forms named command.place reload with
  | .ok settings => addFilesBelow searchDepth named (settings.fileLoader named).base
  | .error _ => pure named

/-- A command run where the program was started. -/
def execute (command : Command) : IO UInt32 := do
  let here := (FilePath.ofText (toString (← IO.currentDir))).parts
  let reload ← IO.getEnv Settings.reloadVariable
  match run forms (← filesFor here reload command) reload command with
  | some report =>
    IO.print report.output
    IO.eprint report.errors
    pure report.code.toUInt32
  | none =>
    IO.eprintln "Templates nest too deep"
    pure 1

end Stencil.Program

open Stencil Stencil.CommandLine Stencil.Program in
/-- Runs the command that the arguments say. -/
def main (arguments : List String) : IO UInt32 := do
  match Command.ofArguments arguments with
  | .ok command => execute command
  | .error .answered =>
    IO.print usage
    pure 0
  | .error .mistaken =>
    IO.eprint usage
    pure 2
