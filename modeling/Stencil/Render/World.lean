import Stencil.Cache
import Stencil.Helper.Action
import Stencil.Render.SideChannel
import Stencil.Value.Display

/-!
# The world of a render

What changes while a template is rendered: the side channel, the cache, the output, the iterators
that have been drawn, and what helpers report. A render is a step of this world that ends in a
result or a failure; a failure undoes nothing. It may also run out of the depth it was given, and
then it has no outcome at all.
-/

namespace Stencil

/-- What changes while a template is rendered. -/
structure World where
  side : SideChannel := {}
  cache : Cache := .none
  /-- What has been written to the current output. -/
  output : String := ""
  /-- The iterators that have been drawn. -/
  drawn : List Label := []
  /-- The next label for a new value. -/
  nextLabel : Label := 0
  /-- The next number for a compiled tree. -/
  nextTree : Nat := 0
  notes : List CallNote := []
  /-- Log messages with their severities. -/
  logs : List (Nat × String) := []

/-- A step of the world with a result of type `α`. -/
abbrev Render (α : Type) := ExceptT Failure (StateT World Option) α

namespace Render

/-- The outcome of a step, if it has one, and the world after it. -/
def outcome {α : Type} (m : Render α) (w : World) : Option (Except Failure α × World) := m.run.run w

/-- A step given by its outcomes. -/
def ofOutcome {α : Type} (f : World → Option (Except Failure α × World)) : Render α :=
  ExceptT.mk fun w => f w

/-- The step without an outcome. -/
def exhausted {α : Type} : Render α := ofOutcome fun _ => none

/-- A part of the world read. -/
def read {α : Type} (f : World → α) : Render α := ofOutcome fun w => some (.ok (f w), w)

/-- The world changed. -/
def update (f : World → World) : Render Unit := ofOutcome fun w => some (.ok (), f w)

/-- The failure with a fault. -/
def fault {α : Type} (cause : Fault) : Render α := throw (.fault cause)

/-- A result or a failure. -/
def ofExcept {α : Type} : Except Failure α → Render α
  | .ok a => pure a
  | .error failure => throw failure

/-- A result or a fault. -/
def ofFault {α : Type} : Except Fault α → Render α
  | .ok a => pure a
  | .error cause => fault cause

/-- A step whose failure is a result. -/
def observe {α : Type} (m : Render α) : Render (Except Failure α) :=
  ofOutcome fun w => (m.outcome w).map fun (r, after) => (.ok r, after)

/-- A step whose failure is told in another way. -/
def mapFailure {α : Type} (f : Failure → Failure) (m : Render α) : Render α :=
  ofOutcome fun w => (m.outcome w).map fun (r, after) => (r.mapError f, after)

/-- Text written to the output. -/
def emit (s : String) : Render Unit := update fun w => { w with output := w.output ++ s }

/-- What a step writes, kept from the output. When the step fails, what it has written is lost. -/
def captured (m : Render Unit) : Render String :=
  ofOutcome fun w =>
    (m.outcome { w with output := "" }).map fun (r, after) =>
      (r.map fun _ => after.output, { after with output := w.output })

/-- A label that no value has yet. -/
def freshLabel : Render Label :=
  ofOutcome fun w => some (.ok w.nextLabel, { w with nextLabel := w.nextLabel + 1 })

/-- The frames changed, or a fault. -/
def changeFrames (f : Frames → Except Fault Frames) : Render Unit := do
  let frames ← ofFault (f (← read (·.side.frames)))
  update fun w => { w with side := { w.side with frames } }

/-- A step inside a frame of its own, which is popped however the step ends. -/
def inFrame {α : Type} (m : Render α) : Render α := do
  changeFrames Frames.push
  let result ← observe m
  changeFrames Frames.pop
  ofExcept result

/-- A step whose render errors are blamed on a place, unless a place inside is blamed already. -/
def located {α : Type} (place : Option Location) (m : Render α) : Render α :=
  mapFailure (Failure.locate place) m

/-- The value of a reference in a scope. -/
def get (scope : Scope) (reference : String) : Render Value := do
  ofExcept (scope.get (← read (·.side.readable)) reference)

/-- The text of a value; iterators in it are drawn. -/
def display (v : Value) : Render String := do
  let (text, drawn) ← ofFault (v.display (← read (·.drawn)))
  update fun w => { w with drawn }
  pure text

/-- The items of an iterable; an iterator is drawn by it. -/
def items : Value → Render (List Value)
  | .list _ found | .tuple _ found => pure found
  | .iterator label found => do
    if (← read (·.drawn)).contains label then pure []
    else do
      update fun w => { w with drawn := label :: w.drawn }
      pure found
  | _ => pure []

end Render

end Stencil
