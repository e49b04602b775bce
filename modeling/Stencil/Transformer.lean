import Stencil.Value.Basic

/-!
# Transformers

What becomes of a value between being read and being rendered. Unless the host says otherwise,
functions become lambdas, whose answers are markup; a host may also have some texts stand for other
values.
-/

namespace Stencil

/-- A transformer. -/
inductive Transformer where
  /-- Texts are replaced by what the table says, and functions become lambdas. -/
  | lambdas (table : List (String × Value))
  | identity

namespace Transformer

/-- The transformer of an engine that names no other. -/
def standard : Transformer := lambdas []

/-- A function made a lambda, which is a new value. -/
def lift (label : Label) : Value → Value
  | .function inner call => .lambda label inner call
  | v => v

/-- The value that a value becomes; a lambda made on the way gets the label. -/
def apply (t : Transformer) (label : Label) (v : Value) : Value :=
  match t with
  | identity => v
  | lambdas table =>
    match v.asText?.bind fun s => table.lookup s with
    | some other => lift label other
    | none => lift label v

end Transformer

end Stencil
