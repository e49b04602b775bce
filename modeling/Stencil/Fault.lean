import Stencil.Text.Quoted

/-!
# Faults

Failures of the code around a template rather than of the template itself: a host function that
raises, an operation used against its rules. They reach the host as they are, except that a helper
that stumbles over one is named with it (see `Stencil.Failure`).
-/

namespace Stencil

/-- The kinds of fault a host tells apart. -/
inductive FaultKind where
  | value | runtime | type | attribute | index
deriving DecidableEq, Repr

/-- A fault, by its cause. -/
inductive Fault where
  /-- A text of digits in the wide sense that is not an integer. -/
  | badInteger (text : String)
  /-- An integer with more digits than a conversion admits; the count is known when reading. -/
  | longInteger (digits : Option Nat)
  /-- `lookup` without an object and a key. -/
  | lookupArity
  /-- A helper registered under the empty name. -/
  | emptyHelperName
  /-- A section built with an unknown spelling of its else tag. -/
  | elseLabel (label : String)
  /-- Something registered as a helper that is none. -/
  | notAHelper (shown : String)
  /-- A helper that writes where there is nothing to write to. -/
  | noSink (helper : String)
  /-- More inline-partial frames popped than pushed. -/
  | frameUnderflow
  /-- A fault that host code raises of its own accord. -/
  | raised (kind : FaultKind) (message : String)
deriving DecidableEq, Repr

namespace Fault

/-- The kind of a fault. -/
def kind : Fault → FaultKind
  | badInteger _ | longInteger _ | lookupArity | emptyHelperName | elseLabel _ => .value
  | notAHelper _ => .type
  | noSink _ | frameUnderflow => .runtime
  | raised kind _ => kind

/-- The greatest number of digits that an integer conversion admits. -/
def digitLimit : Nat := 4300

/-- The text of a fault. -/
def message : Fault → String
  | badInteger text =>
    "invalid literal for int() with base 10: " ++ String.ofList ((Text.quoted text).toList.take 200)
  | longInteger digits =>
    s!"Exceeds the limit ({digitLimit} digits) for integer string conversion" ++
      (match digits with
        | some n => s!": value has {n} digits"
        | none => "") ++
      "; use sys.set_int_max_str_digits() to increase the limit"
  | lookupArity => "lookup expects an object and a key"
  | emptyHelperName => "Helper name is required"
  | elseLabel label => s!"inverse_label must be 'else' or '^', got {Text.quoted label}"
  | notAHelper shown => s!"Not a helper: {shown}"
  | noSink helper => s!"Helper '{helper}' has no output sink"
  | frameUnderflow => "Inline partial stack underflow"
  | raised _ message => message

end Fault

end Stencil
