import Stencil.Helper.Action

/-!
# Built-in helpers

`each` iterates, `if` and `unless` branch, `with` enters a value, `lookup` reads a member whose name
is computed, `log` reports. The first four are also what a section does when its name is no helper.
-/

namespace Stencil

namespace Builtin

/-- The name a built-in is registered under. -/
def name : Builtin → String
  | each => "each"
  | branch => "if"
  | negate => "unless"
  | enter => "with"
  | lookup => "lookup"
  | log => "log"
  | missing => "helperMissing"

/-- The iteration variables of the item at `index` of `count`, reached by `key`. -/
def iterationVariables (index count : Nat) (key : Value) : Bindings :=
  [("@index", .int (index : Int)), ("@key", key), ("@first", .bool (index == 0)),
    ("@last", .bool (index + 1 == count)), ("@odd", .bool (index % 2 == 1)),
    ("@even", .bool (index % 2 == 0))]

/-- The body rendered for each entry in a scope of its own, `index` of `count` entries being done.
The entries of a mapping come with their keys; the items of a sequence are counted. -/
def eachEntry (call : Call) (count : Nat) : Nat → List (Value × Value) → Action String
  | _, [] => pure ""
  | index, (key, item) :: rest => do
    let scope := call.scope.child item (iterationVariables index count key)
    let text ← Action.request (.render .body (call.bindParams scope [item, key]))
    let others ← eachEntry call count (index + 1) rest
    pure (text ++ others)

/-- The body for each entry, or the inverse when there is none. -/
def eachOf (call : Call) (entries : List (Value × Value)) : Action Value := do
  if entries.isEmpty then pure (.text (← Action.request (.render .inverse call.scope)))
  else pure (.text (← eachEntry call entries.length 0 entries))

/-- Items numbered from zero. -/
def numbered (items : List Value) : List (Value × Value) :=
  items.zipIdx.map fun (item, index) => (.int (index : Int), item)

/-- The severities of log levels by name, in upper case. -/
def severities : List (String × Nat) :=
  [("CRITICAL", 50), ("FATAL", 50), ("ERROR", 40), ("WARNING", 30), ("WARN", 30), ("INFO", 20),
    ("DEBUG", 10), ("NOTSET", 0)]

/-- A letter in upper case, as far as the names of levels need it: the ASCII letters, and the two
others whose capitals are ASCII letters. -/
def upper (c : Char) : Char := if c == 'ı' then 'I' else if c == 'ſ' then 'S' else c.toUpper

/-- The severity that a level name stands for; an unknown name stands for `info`. -/
def severity (level : String) : Nat :=
  (severities.lookup (String.ofList (level.toList.map upper))).getD 20

/-- Texts of values, in order. -/
def displayAll : List Value → Action (List String)
  | [] => pure []
  | v :: rest => do
    let text ← Action.request (.display v)
    pure (text :: (← displayAll rest))

/-- What a built-in does. -/
def act (which : Builtin) (subject : Value) (call : Call) : Action Value :=
  match which with
  | each =>
    match subject with
    | .map _ entries => eachOf call entries
    | v =>
      if v.isIterable then do
        eachOf call (numbered (← Action.request (.items v)))
      else do pure (.text (← Action.request (.render .inverse call.scope)))
  | branch => do
    if call.isFalsy subject then pure (.text (← Action.request (.render .inverse call.scope)))
    else pure (.text (← Action.request (.render .body call.scope)))
  | negate => do
    if call.isFalsy subject then pure (.text (← Action.request (.render .body call.scope)))
    else pure (.text (← Action.request (.render .inverse call.scope)))
  | enter => do
    if call.isFalsy subject then pure (.text (← Action.request (.render .inverse call.scope)))
    else pure (.text (← Action.request (.render .body (call.scopeFor subject))))
  | lookup =>
    if call.arity < 2 then Action.fault .lookupArity
    else if subject.isNull then pure .null
    else do
      let name ← Action.request (.display (call.params.headD .null))
      match readMember subject name call.scope.resolvers with
      | .ok found => pure (found.getD .null)
      | .error cause => Action.fault cause
  | log => do
    let level := match call.hash.lookup "level" with
      | some v => v.asText?.getD ""
      | none => "info"
    let values := if call.arity == 0 then [call.scope.here.model] else subject :: call.params
    let texts ← displayAll values
    let _ ← Action.request (.log (severity level) (" ".intercalate texts))
    pure .null
  | missing => Action.fail (.atRender (.missingValue call.helper))

end Builtin

/-- What a helper does with its subject. -/
def Helper.act (helper : Helper) (subject : Value) (call : Call) : Action Value :=
  match helper.behaviour with
  | .builtin which => which.act subject call
  | .host act => act subject call

end Stencil
