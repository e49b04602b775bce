import Stencil.CommandLine.Command
import Stencil.Document.Write
import Stencil.Node.Names
import Stencil.Session
import Stencil.Settings.Engine
import Stencil.Settings.Read

/-!
# Running commands

What a command writes, and with what code it ends, as a function of the files it finds and of the
forms they are read in. What was written before a failure stays written; the failure itself and the
warnings of templates go to the other output.
-/

namespace Stencil.CommandLine

/-- What a command comes to. -/
structure Report where
  code : Nat
  output : String
  errors : String
deriving DecidableEq, Repr

namespace Report

/-- The report of a command that succeeds. -/
def success (output : String) : Report := ⟨0, output, ""⟩

/-- The report of a command that fails after writing something. -/
def failure (output errors message : String) : Report :=
  ⟨2, output, errors ++ Text.stripBack message ++ "\n"⟩

end Report

/-- The least severity that is shown. -/
def shownSeverity : Nat := 30

/-- The name of a severity. -/
def severityName (severity : Nat) : String :=
  ((Builtin.severities.find? fun (_, n) => n == severity).map (·.1)).getD (toString severity)

/-- The warnings among log messages, a line each. -/
def warnings (logs : List (Nat × String)) : String :=
  String.join <| logs.filterMap fun (severity, message) =>
    if shownSeverity ≤ severity then some s!"[{severityName severity}] hbs.template: {message}\n"
    else none

/-- The forms that files are written in: that of settings and data, and that of patterns. -/
structure Forms where
  reader : Document.Reader
  selection : Selection

/-- The settings of a command: those that are read, with the directory that is given. -/
def settingsFor (forms : Forms) (t : FileTree) (place : Place) (reload : Option String) :
    Typed.Load Settings := do
  let s ← Settings.read forms.reader t place.config reload
  match place.dir with
  | some dir => pure { s with templates := { s.templates with baseDir := dir.text } }
  | none => pure s

/-- What `inspect` tells of a template. -/
def inspection (t : Template) : Document :=
  let texts (names : List String) : Document := .list (names.map Document.text)
  .map
    [(.text "template", Document.text t.name), (.text "sections", texts (t.names [.block])),
      (.text "variables", texts (t.names [.plain, .ampersand, .triple])),
      (.text "references", texts t.references)]

/-- A template rendered. There is no report when fragments nest too deep. -/
def renderReport (s : Session) (name : String) (model : Value) : Option Report :=
  (s.renderAt name (s.contextOf model [])).map fun r =>
    match r.result with
    | .ok () => ⟨0, r.output, warnings r.world.logs⟩
    | .error failure => .failure r.output (warnings r.world.logs) failure.message

/-- What a command comes to with the files of a tree; `reload` is the value of the reload variable. -/
def run (forms : Forms) (t : FileTree) (reload : Option String) (command : Command) :
    Option Report :=
  match settingsFor forms t command.place reload with
  | .error failure => some (.failure "" "" failure.message)
  | .ok settings =>
    let session (next : Label) : Session := .start (settings.engine t) settings.emptyCache next
    match command with
    | .render _ name data =>
      match data with
      | none => renderReport (session 1) name (.map 0 [])
      | some file =>
        match readData forms.reader t file 0 with
        | .ok (model, next) => renderReport (session next) name model
        | .error failure => some (.failure "" "" failure.message)
    | .inspect _ name =>
      match (session 0).compile name with
      | (.ok compiled, _) => some (.success ((inspection compiled.template).write 0 ++ "\n"))
      | (.error failure, _) => some (.failure "" "" failure.message)
    | .list _ exclude =>
      match (settings.fileLoader t).list forms.selection t exclude with
      | .ok names => some (.success (String.join (names.map (· ++ "\n"))))
      | .error cause => some (.failure "" "" cause.message)

end Stencil.CommandLine
