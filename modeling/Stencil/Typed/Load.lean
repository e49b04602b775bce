import Stencil.Typed.LoadError
import Stencil.Typed.Shape
import Stencil.Value.Display
import Stencil.Value.Kind
import Stencil.Value.Order

/-!
# Loading into a shape

A raw value is walked along its shape, and the first part that does not fit is reported with its
path. Of several shapes the first that fits decides, and faults end the search. A record reads the
fields it declares from a mapping that has no others; null stands for a record of fallbacks.
-/

namespace Stencil.Typed

/-- The result of loading. -/
abbrev Load (α : Type) := Except LoadError α

/-- The failure of a value that does not fit. -/
def misfit {α : Type} (path : String) (cause : Mismatch) : Load α := throw (.mismatch path cause)

/-- A result, or the fault met on the way. -/
def ofFault {α : Type} : Except Fault α → Load α
  | .ok a => pure a
  | .error cause => throw (.fault cause)

/-- The fault of a key that cannot be one. -/
def unusableKey : Fault := .raised .type "unhashable key"

/-- The fault of keys that have no order. -/
def unorderedKeys : Fault := .raised .type "keys cannot be ordered"

/-- The fault of a record that null cannot stand for. -/
def incompleteRecord (name : String) : Fault :=
  .raised .type (name ++ " has required fields")

/-- A key as paths show it. -/
def keyText (key : Value) : Except Fault String :=
  match key.asText? with
  | some s => pure s
  | none => key.literal

/-- Items loaded one after the other, `index` of them being done. -/
def loadItems (load : Value → String → Load Loaded) (path : String) (index : Nat) :
    List Value → Load (List Loaded)
  | [] => pure []
  | v :: rest => do
    let first ← load v s!"{path}[{index}]"
    pure (first :: (← loadItems load path (index + 1) rest))

/-- Entries loaded one after the other and put into those that are done. -/
def loadEntries (loadKey loadValue : Value → String → Load Loaded) (path : String)
    (done : List (Loaded × Loaded)) : List (Value × Value) → Load (List (Loaded × Loaded))
  | [] => pure done
  | (k, v) :: rest => do
    let key ← loadKey k (path ++ ".<key>")
    let value ← loadValue v s!"{path}.{← ofFault (keyText k)}"
    if key.isKey then loadEntries loadKey loadValue path (Loaded.putEntry key value done) rest
    else throw (.fault unusableKey)

/-- The choice that a value names, or else the first whose value it is. -/
def choose? (choices : List (String × Value)) (value : Value) : Option String :=
  match value.asText?.bind fun s => choices.find? fun (name, _) => name == s with
  | some (name, _) => some name
  | none => (choices.find? fun (_, v) => v.sameKey value).map (·.1)

/-- The keys of a mapping that are no fields, in order. -/
def unknownKeys (names : List String) (entries : List (Value × Value)) : Load (List String) :=
  let unknown := (entries.map (·.1)).filter fun k => !(k.asText?.any names.contains)
  match Value.sortKeys? unknown with
  | some keys => ofFault (Value.literals keys)
  | none => throw (.fault unorderedKeys)

/-- A record of fallbacks, if all fields have one. -/
def fallbacks? : List (Field Shape) → Option (List (String × Loaded))
  | [] => some []
  | f :: rest =>
    match f.fallback, fallbacks? rest with
    | some v, some others => some ((f.name, v) :: others)
    | _, _ => none

mutual

/-- The value that a raw value loads as. -/
def load (shape : Shape) (value : Value) (path : String) : Load Loaded :=
  match shape with
  | .anything _ => pure (.raw value)
  | .scalar kind =>
    if kind.holds value then pure (.raw value)
    else misfit path (.expected kind.name value.kindName)
  | .null => misfit path (.unsupported "NoneType")
  | .unsupported name => misfit path (.unsupported name)
  | .listOf item => do
    match value with
    | .list _ items | .tuple _ items =>
      pure (.list (← loadItems (fun v p => load item v p) path 0 items))
    | _ => misfit path (.expected "list" value.kindName)
  | .tupleOf item => do
    match value with
    | .list _ items | .tuple _ items =>
      pure (.tuple (← loadItems (fun v p => load item v p) path 0 items))
    | _ => misfit path (.expected "list" value.kindName)
  | .mapOf key content => do
    match value with
    | .map _ entries =>
      pure (.map (← loadEntries (fun v p => load key v p) (fun v p => load content v p) path []
        entries))
    | _ => misfit path (.expected "dict" value.kindName)
  | .oneOf variants => loadVariant variants value path []
  | .choiceOf name choices =>
    match choose? choices value with
    | some choice => pure (.choice choice)
    | none => do misfit path (.expectedChoice name (← ofFault value.literal))
  | .record name fields => do
    match value with
    | .null =>
      match fallbacks? fields with
      | some known => pure (.record name known)
      | none => throw (.fault (incompleteRecord name))
    | .map _ entries =>
      let unknown ← unknownKeys (fields.map (·.name)) entries
      if unknown.isEmpty then pure (.record name (← loadFields fields entries path))
      else misfit path (.unknownKeys unknown)
    | _ => misfit path (.expectedRecord name value.kindName)

/-- The value loaded into the first shape that fits; `reasons` says why those before did not. -/
def loadVariant (variants : List Shape) (value : Value) (path : String) (reasons : List String) :
    Load Loaded :=
  match variants with
  | [] => misfit path (.noVariant reasons)
  | .null :: rest =>
    if value.isNull then pure (.raw .null) else loadVariant rest value path reasons
  | variant :: rest =>
    match load variant value path with
    | .error (.fault cause) => throw (.fault cause)
    | .error reason => loadVariant rest value path (reasons ++ [reason.message])
    | .ok loaded => pure loaded

/-- The fields of a record, in the order they are declared. -/
def loadFields (fields : List (Field Shape)) (entries : List (Value × Value)) (path : String) :
    Load (List (String × Loaded)) :=
  match fields with
  | [] => pure []
  | ⟨name, shape, fallback⟩ :: rest => do
    let here := s!"{path}.{name}"
    let value ← match Value.entry? name entries, fallback with
      | some v, _ => load shape v here
      | none, some v => pure v
      | none, none => misfit here .missingField
    pure ((name, value) :: (← loadFields rest entries path))

end

end Stencil.Typed
