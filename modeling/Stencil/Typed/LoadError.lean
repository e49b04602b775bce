import Stencil.Fault

/-!
# Load errors

Why a raw value is not loaded: it does not fit its shape at some path, or loading stumbles over a
fault. A file that holds no usable document is reported the same way.
-/

namespace Stencil.Typed

/-- Why a value does not fit its shape. -/
inductive Mismatch where
  /-- A value of another kind than the one expected. -/
  | expected (wanted got : String)
  | expectedRecord (name got : String)
  | expectedChoice (name shown : String)
  /-- Keys that are no fields, as messages list them. -/
  | unknownKeys (shown : List String)
  | missingField
  /-- None of the variants fits; each says why. -/
  | noVariant (reasons : List String)
  | unsupported (name : String)
deriving DecidableEq, Repr

/-- Why loading ends without a value. -/
inductive LoadError where
  /-- The value at a path does not fit. -/
  | mismatch (path : String) (cause : Mismatch)
  /-- A document whose outermost value is no mapping. -/
  | notMapping (file : String)
  /-- A file that holds no document. -/
  | malformed (file : String)
  | dataNotFound (file : String)
  | fault (cause : Fault)
deriving DecidableEq, Repr

/-- The words of a mismatch. -/
def Mismatch.message : Mismatch → String
  | expected wanted got => s!"expected {wanted}, got {got}"
  | expectedRecord name got => s!"expected mapping for {name}, got {got}"
  | expectedChoice name shown => s!"expected enum {name}, got {shown}"
  | unknownKeys shown => "unknown key(s): [" ++ ", ".intercalate shown ++ "]"
  | missingField => "required field missing"
  | noVariant [] => "no variant of Union matched"
  | noVariant reasons => " | ".intercalate reasons
  | unsupported name => s!"unsupported annotation {name}"

/-- The words of a load error. -/
def LoadError.message : LoadError → String
  | mismatch path cause => s!"{path}: {cause.message}"
  | notMapping file => s!"YAML must be a mapping: {file}"
  | malformed file => s!"{file}: invalid YAML"
  | dataNotFound file => s!"Data file not found: {file}"
  | fault cause => cause.message

end Stencil.Typed
