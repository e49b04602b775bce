import Stencil.CommandLine.Words
import Stencil.Loader.FileTree

/-!
# Commands

The three things the program does: render a template, inspect one, list them all. Each takes the
settings file and the directory of templates as options. The line is read to its end before a
mistake outside the command counts, so that a command's own help is answered first.
-/

namespace Stencil.CommandLine

/-- What all commands may be told. -/
structure Place where
  config : Option FilePath := none
  dir : Option FilePath := none
deriving DecidableEq, Repr

/-- A command. -/
inductive Command where
  | render (place : Place) (name : String) (data : Option FilePath)
  | inspect (place : Place) (name : String)
  | list (place : Place) (exclude : List String)
deriving DecidableEq, Repr

namespace Command

/-- Where a command finds its settings and templates. -/
def place : Command → Place
  | render place _ _ | inspect place _ | list place _ => place

/-- The options that ask for help. -/
def helpOptions : List String := ["-h", "--help"]

/-- The options in front of a command name. -/
def frontGrammar : Grammar := ⟨helpOptions ++ ["-v", "--version"], [], 0⟩

/-- The words of a command by its name. -/
def grammar? : String → Option Grammar
  | "render" => some ⟨helpOptions, ["--data", "--config", "--dir"], 1⟩
  | "inspect" => some ⟨helpOptions, ["--config", "--dir"], 1⟩
  | "list" => some ⟨helpOptions, ["--exclude", "--config", "--dir"], 0⟩
  | _ => none

/-- The values of an option, in order. -/
def valuesOf (name : String) (r : Reading) : List String :=
  (r.values.filter fun (option, _) => option == name).map (·.2)

/-- The path that an option gives; the last one counts. -/
def pathOf (name : String) (r : Reading) : Option FilePath :=
  (valuesOf name r).getLast?.map FilePath.ofText

/-- The command that a reading amounts to, if nothing is missing. -/
def ofReading? (name : String) (r : Reading) : Option Command :=
  let place : Place := ⟨pathOf "--config" r, pathOf "--dir" r⟩
  match name, r.plain with
  | "render", [template] => some (render place template (pathOf "--data" r))
  | "inspect", [template] => some (inspect place template)
  | "list", [] => some (list place (valuesOf "--exclude" r))
  | _, _ => none

/-- The command behind its name; `leftOver` holds when a word in front of it was none. -/
def behindName (leftOver : Bool) (name : String) (words : List String) : Except Stop Command := do
  match grammar? name with
  | none => throw .mistaken
  | some g =>
    let r ← readAll g words
    match ofReading? name r with
    | some command => if leftOver || r.leftOver then throw .mistaken else pure command
    | none => throw .mistaken

/-- The command of a whole line, `leftOver` telling whether a word before was none. -/
def ofWords (leftOver : Bool) : List String → Except Stop Command
  | [] => throw .mistaken
  | word :: rest =>
    if word == "--" then throw .mistaken
    else
      match Word.ofText frontGrammar word with
      | .plain name => behindName leftOver name rest
      | .answer stop => throw stop
      | .unknown => ofWords true rest
      | .separator | .option .. | .ambiguous => throw .mistaken

/-- The command of a command line. A word that may mean two of the options in front of a command name
is a mistake wherever it stands, before anything else. -/
def ofArguments (words : List String) : Except Stop Command :=
  if (Word.ofTexts frontGrammar words).contains .ambiguous then throw .mistaken
  else ofWords false words

end Command

end Stencil.CommandLine
