import Stencil.Value.Basic

/-!
# The kinds of value by name

How messages call what a value is.
-/

namespace Stencil.Value

/-- The name of the kind of a value. -/
def kindName : Value → String
  | null => "NoneType"
  | bool _ => "bool"
  | int _ => "int"
  | float _ => "float"
  | text _ => "str"
  | safe _ => "SafeString"
  | bytes .. => "bytes"
  | list .. => "list"
  | tuple .. => "tuple"
  | map .. => "dict"
  | object .. => "object"
  | iterator .. => "iterator"
  | function .. => "function"
  | lambda .. => "FunctionLambda"
  | pathLambda .. => "Lambda"

end Stencil.Value
