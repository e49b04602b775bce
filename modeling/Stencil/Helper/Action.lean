import Stencil.Scope
import Stencil.Value.Truth

/-!
# Actions of helpers

A helper does not touch the render it is part of. What it does is an action: a sequence of requests,
each continued by whatever is answered, that ends in a value or a failure. A request that fails is
answered with its failure, so a helper may recover from it. The requests are all that a helper can
do, and what is shown of every action is shown of every helper.
-/

namespace Stencil

/-- How the tag that calls a helper was written. -/
inductive TagKind where
  | plain
  | ampersand
  | triple
  /-- A call in parentheses, inside another tag. -/
  | call
  /-- A section. -/
  | block
deriving DecidableEq, Repr

/-- What a helper is told about its call. -/
structure Call where
  /-- The name it is called by. -/
  helper : String
  tag : TagKind
  /-- The scope of the call. -/
  scope : Scope
  /-- The positional arguments after the first, which is the helper's subject. -/
  params : List Value
  hash : Bindings
  /-- The names declared for block parameters. -/
  blockParams : List String
  /-- The number of positional arguments, the first included. -/
  arity : Nat

/-- The parts of a template that a helper can render. -/
inductive Markup where
  | body
  | inverse
  /-- Source of the helper's own, compiled under a name. -/
  | source (name text : String)
deriving DecidableEq, Repr

/-- A helper call as its host notes it down. -/
structure CallNote where
  call : Call
  subject : Value
  /-- The data variable in which an argument count would be kept. -/
  arityVariable : Value
  hasSink : Bool
  body : String
  inverse : String

/-- What a helper can ask for. -/
inductive Request where
  /-- Render a part of the template in a scope and give back the text. -/
  | render (what : Markup) (scope : Scope)
  /-- The source form of the body or the inverse. -/
  | source (what : Markup)
  /-- Is there something to write to? -/
  | hasSink
  | write (text : String)
  /-- Read a reference in the scope of the call. -/
  | get (reference : String)
  /-- Read a data variable. -/
  | data (name : String)
  | setData (name : String) (value : Value)
  /-- The text of a value. -/
  | display (value : Value)
  /-- The items of an iterable, drawing them if they can be drawn only once. -/
  | items (value : Value)
  /-- A label that no value has yet. -/
  | label
  /-- The names of the visible inline partials, frame by frame, the innermost first. -/
  | frames
  | log (level : Nat) (message : String)
  | note (entry : CallNote)

/-- The type of the answer to a request. -/
abbrev Request.Reply : Request → Type
  | .render .. | .source _ | .display _ => String
  | .hasSink => Bool
  | .get _ => Value
  | .data _ => Option Value
  | .items _ => List Value
  | .label => Label
  | .frames => List (List String)
  | .write _ | .setData .. | .log .. | .note _ => Unit

/-- A sequence of requests that ends in an `α` or a failure. -/
inductive Action (α : Type) where
  | done (result : α)
  | fail (failure : Failure)
  | ask (request : Request) (next : Except Failure request.Reply → Action α)

namespace Action

/-- One action after another. -/
def bind {α β : Type} : Action α → (α → Action β) → Action β
  | done a, f => f a
  | fail failure, _ => fail failure
  | ask request next, f => ask request fun answer => (next answer).bind f

instance : Monad Action where
  pure := done
  bind := bind

/-- A request whose failure is the failure of the action. -/
def request (q : Request) : Action q.Reply :=
  ask q fun
    | .ok answer => done answer
    | .error failure => fail failure

/-- The action that fails with a fault. -/
def fault {α : Type} (cause : Fault) : Action α := fail (.fault cause)

@[simp] theorem pure_eq {α : Type} (a : α) : (pure a : Action α) = done a := rfl

@[simp] theorem bind_eq {α β : Type} (x : Action α) (f : α → Action β) : x >>= f = x.bind f := rfl

end Action

namespace Call

/-- The scope in which a helper renders against a value: the scope of the call when the value is the
very one it stands in, and else a child of it. -/
def scopeFor (call : Call) (model : Value) : Scope :=
  if model.same call.scope.here.model then call.scope else call.scope.child model []

/-- A scope with values bound to the declared block parameters, one by one; values beyond the
declared names are dropped. -/
def bindParams (call : Call) (scope : Scope) (values : List Value) : Scope :=
  if values.isEmpty || call.blockParams.isEmpty then scope
  else scope.withBindings (Bindings.ofPairs (call.blockParams.zip values))

/-- A value is falsy when it is empty; the hash argument `includeZero` says whether zero counts as
a value. -/
def isFalsy (call : Call) (value : Value) : Bool :=
  value.isEmpty (match call.hash.lookup "includeZero" with
    | some choice => choice.isTrue
    | none => false)

end Call

/-- The built-in helpers. -/
inductive Builtin where
  | each
  /-- The helper `if`. -/
  | branch
  /-- The helper `unless`. -/
  | negate
  /-- The helper `with`. -/
  | enter
  | lookup
  | log
  /-- The strict answer to a name that nothing stands for. -/
  | missing
deriving DecidableEq, Repr

/-- What a helper does with its subject. -/
inductive Behaviour where
  | builtin (which : Builtin)
  | host (act : Value → Call → Action Value)

/-- A helper; helpers made at different times carry different stamps. -/
structure Helper where
  stamp : Nat
  behaviour : Behaviour

end Stencil
