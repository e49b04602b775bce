import Stencil.Helper.Builtin
import Stencil.Render.SideChannel

/-!
# Stock helpers

Small helpers that a host can ask for by a description: constants, joins and sums, blocks put
together from clauses, and helpers that read or report what they are told.
-/

namespace Stencil

/-- A piece of what a block helper writes. -/
inductive BlockPart where
  /-- A clause: the inverse or the body, in the scope of the subject or of the call, with the subject
  and the other arguments bound to the block parameters or not. -/
  | clause (inverse onSubject bound : Bool)
  | text (s : String)
deriving DecidableEq, Repr

/-- How a failing helper fails. -/
inductive FailureStyle where
  | fault
  | missingValue
  | notFound
deriving DecidableEq, Repr

/-- A stock helper. -/
inductive Stock where
  /-- Notes its call and answers a value. -/
  | record (value : Value)
  | const (value : Value)
  /-- Answers its subject. -/
  | echo
  | surround (before after : String)
  /-- The texts of all arguments, with the text of the named argument `sep` between them. -/
  | join
  /-- The sum of all arguments. -/
  | add
  /-- The arguments as a list. -/
  | list
  /-- The named arguments as a mapping. -/
  | hash
  | fail (message : String) (style : FailureStyle)
  | block (parts : List BlockPart)
  | write (text : String) (value : Value)
  | get (reference : String) (fallback : Value)
  | param (index : Int) (fallback : Value)
  | data (name : String) (fallback : Value)
  /-- Sets a data variable to the subject. -/
  | setData (name : String)
  | falsy
  | safe
  /-- Renders source of its own against the subject. -/
  | source (text : String)
  /-- The number of frames of inline partials, and the visible names. -/
  | frames

namespace Stock

/-- The name that source of a helper's own is compiled under. -/
def sourceName : String := "helper"

/-- The number that an integer is; truth values are none. -/
def integer? : Value → Option Int
  | .int n => some n
  | _ => none

/-- The sum of integers; anything else is a fault. -/
def sum : List Value → Except Fault Int
  | [] => pure 0
  | v :: rest =>
    match integer? v with
    | some n => do pure (n + (← sum rest))
    | none => throw (.raised .value "add expects integers")

/-- The parts of a block, one after the other. -/
def blockText (subject : Value) (call : Call) : List BlockPart → Action String
  | [] => pure ""
  | .text s :: rest => do pure (s ++ (← blockText subject call rest))
  | .clause inverse onSubject bound :: rest => do
    let scope := if onSubject then call.scopeFor subject else call.scope
    let scope := if bound then call.bindParams scope (subject :: call.params) else scope
    let text ← Action.request (.render (if inverse then .inverse else .body) scope)
    pure (text ++ (← blockText subject call rest))

/-- A text of its own, unlike its equals. -/
def newText (s : String) : Action Value := do
  let label : Label ← Action.request .label
  pure (.text ⟨s, .given label⟩)

/-- What a stock helper does. -/
def act (stock : Stock) (subject : Value) (call : Call) : Action Value :=
  match stock with
  | record value => do
    let arityVariable : Option Value ← Action.request (.data SideChannel.arityName)
    let hasSink : Bool ← Action.request .hasSink
    let body : String ← Action.request (.source .body)
    let inverse : String ← Action.request (.source .inverse)
    let _ ← Action.request
      (.note { call, subject, arityVariable := arityVariable.getD .null, hasSink, body, inverse })
    pure value
  | const value => pure value
  | echo => pure subject
  | surround before after => do
    let text : String ← Action.request (.display subject)
    newText (before ++ text ++ after)
  | join => do
    let sep : String ← match call.hash.lookup "sep" with
      | some v => Action.request (.display v)
      | none => pure ","
    newText (sep.intercalate (← Builtin.displayAll (subject :: call.params)))
  | add =>
    match sum (subject :: call.params) with
    | .ok n => do
      let label : Label ← Action.request .label
      pure (.int ⟨n, .given label⟩)
    | .error cause => Action.fault cause
  | list => do
    let label : Label ← Action.request .label
    pure (.list label (subject :: call.params))
  | hash => do
    let label : Label ← Action.request .label
    pure (.map label (call.hash.map fun (name, v) => (.text name, v)))
  | fail message .fault => Action.fault (.raised .runtime message)
  | fail message .missingValue => Action.fail (.atRender (.missingValue message))
  | fail message .notFound => Action.fail (.notFound message none)
  | block parts => do newText (← blockText subject call parts)
  | write text value => do
    let _ ← Action.request (.write text)
    pure value
  | get reference fallback => do
    let v : Value ← Action.request (.get reference)
    pure (if v.isNull then fallback else v)
  | param index fallback =>
    pure (if index < 0 then fallback else (call.params[index.toNat]?).getD fallback)
  | data name fallback =>
    if name == SideChannel.arityName then pure (.int (call.arity : Int))
    else do
      let found : Option Value ← Action.request (.data name)
      pure (found.getD fallback)
  | setData name => do
    let _ ← Action.request (.setData name subject)
    pure .null
  | falsy => pure (.bool (call.isFalsy subject))
  | safe => do
    let text : String ← Action.request (.display subject)
    let label : Label ← Action.request .label
    pure (.safe ⟨text, .given label⟩)
  | source text => do
    let found : String ← Action.request
      (.render (.source sourceName text) (call.scopeFor subject))
    newText found
  | frames => do
    let all : List (List String) ← Action.request .frames
    let names := (all.headD []).mergeSort fun a b => !(b < a)
    newText (",".intercalate (toString all.length :: names))

/-- A stock helper as a helper. -/
def helper (stock : Stock) (stamp : Nat) : Helper := ⟨stamp, .host stock.act⟩

end Stock

end Stencil
