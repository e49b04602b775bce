import Stencil.Engine
import Stencil.Node.Source
import Stencil.Render.World

/-!
# Rendering

How nodes are rendered in a scope. Text is written as it is; an output tag writes what its helper
answers or its reference reads; a section hands its clauses to a helper, its own or the one that fits
its value; a partial is rendered in the scope of its tag or in one of its own. Wherever a fragment is
rendered inside another (a clause, a partial, the markup of a lambda) the given renderer is used, so
the whole is a recursion on how deep fragments may nest, and everything else is a recursion on the
tree.
-/

namespace Stencil

/-- How a fragment is rendered in a scope. -/
abbrev Renderer := Fragment → Scope → Render Unit

/-- What a helper call is made with beside what the helper is told: the clauses, and whether there
is something to write to. -/
structure Clauses where
  body : Fragment := {}
  inverse : Fragment := {}
  hasSink : Bool

/-- The inline partials that nodes define, defined. -/
def defineInlines : List Node → Render Unit
  | [] => pure ()
  | .inlinePartial _ name body _ :: rest => do
    Render.changeFrames (Frames.define name (.nodes body))
    defineInlines rest
  | _ :: rest => defineInlines rest

/-- The fragment that a helper wants rendered. -/
def fragmentOf (e : Engine) (clauses : Clauses) : Markup → Except Failure Fragment
  | .body => pure clauses.body
  | .inverse => pure clauses.inverse
  | .source name text => do pure (← e.parse e.delimiters name text).fragment

/-- The source form of what a helper asks about. -/
def sourceOf (clauses : Clauses) : Markup → String
  | .body => clauses.body.source
  | .inverse => clauses.inverse.source
  | .source _ text => text

/-- The answer to a request of a helper. -/
def answer (e : Engine) (render : Renderer) (call : Call) (clauses : Clauses) :
    (q : Request) → Render q.Reply
  | .render what scope => do
    let fragment ← Render.ofExcept (fragmentOf e clauses what)
    Render.captured (render fragment scope)
  | .source what => pure (sourceOf clauses what)
  | .hasSink => pure clauses.hasSink
  | .write text => if clauses.hasSink then Render.emit text else Render.fault (.noSink call.helper)
  | .get reference => Render.get call.scope reference
  | .data name => Render.read fun w => w.side.get? name
  | .setData name value => Render.update fun w => { w with side := w.side.set name value }
  | .display value => Render.display value
  | .items value => Render.items value
  | .label => Render.freshLabel
  | .frames => Render.read fun w => w.side.frames.all.map fun frame => frame.map (·.1)
  | .log level message =>
    Render.update fun w =>
      if level == 0 then w else { w with logs := w.logs ++ [(level, message)] }
  | .note entry => Render.update fun w => { w with notes := w.notes ++ [entry] }

/-- An action performed: each request is answered, and the action goes on with the answer or with
the failure that came instead. -/
def Action.perform {α : Type} (answer : (q : Request) → Render q.Reply) : Action α → Render α
  | .done a => pure a
  | .fail failure => throw failure
  | .ask request next => do
    let reply ← Render.observe (answer request)
    (next reply).perform answer

/-- A helper called. A fault in it is blamed on the helper. -/
def invoke (e : Engine) (render : Renderer) (helper : Helper) (subject : Value) (call : Call)
    (clauses : Clauses) : Render Value :=
  Render.mapFailure (Failure.fromHelper call.helper)
    ((helper.act subject call).perform (answer e render call clauses))

/-- A value transformed. -/
def transform (e : Engine) (v : Value) : Render Value := do
  pure (e.transformer.apply (← Render.freshLabel) v)

/-- The helper for names that nothing stands for, if there is one. -/
def Engine.missing? (e : Engine) : Option Helper := e.registry.lookup Builtin.missing.name

/-- The helper of a call: the one bound to its name, or the one for missing names. -/
def Engine.helperFor (e : Engine) (name : String) (bound : Option Helper) : Render Helper :=
  match bound with
  | some helper => pure helper
  | none =>
    match e.missing? with
    | some helper => pure helper
    | none => throw (.atRender (.helperNotFound name))

mutual

/-- The value of an argument. -/
def argument (e : Engine) (render : Renderer) (scope : Scope) : Param → Render Value
  | .literal _ value => pure value.value
  | .reference raw => Render.get scope raw
  | .call _ name args hash bound => do
    let helper ← e.helperFor name bound
    let (subject, params) ← match args with
      | [] => do pure (← transform e scope.here.model, [])
      | first :: rest => do
        let subject ← transform e (← argument e render scope first)
        pure (subject, ← arguments e render scope rest)
    let named ← namedArguments e render scope hash
    invoke e render helper subject
      { helper := name, tag := .call, scope, params, hash := Bindings.ofPairs named,
        blockParams := [], arity := args.length }
      { hasSink := false }

/-- The values of positional arguments, in order. -/
def arguments (e : Engine) (render : Renderer) (scope : Scope) : List Param → Render (List Value)
  | [] => pure []
  | p :: rest => do
    let v ← argument e render scope p
    pure (v :: (← arguments e render scope rest))

/-- The values of named arguments, in order. -/
def namedArguments (e : Engine) (render : Renderer) (scope : Scope) :
    List (String × Param) → Render (List (String × Value))
  | [] => pure []
  | (key, p) :: rest => do
    let v ← argument e render scope p
    pure ((key, v) :: (← namedArguments e render scope rest))

end

/-- The subject of a call: its first argument, or the model it stands in. -/
def subjectOf (e : Engine) (render : Renderer) (scope : Scope) : List Param → Render Value
  | [] => pure scope.here.model
  | first :: _ => argument e render scope first

/-- What a helper is told when a tag calls it in a scope; the arguments after the first and the
named ones are evaluated there. -/
def callOf (e : Engine) (render : Renderer) (name : String) (tag : TagKind) (scope : Scope)
    (args : List Param) (hash : HashParams) (blockParams : List String) : Render Call := do
  let params ← arguments e render scope (args.drop 1)
  let named ← namedArguments e render scope hash
  pure { helper := name, tag, scope, params, hash := Bindings.ofPairs named, blockParams,
         arity := args.length }

/-- The name that the markup of lambdas is compiled under. -/
def lambdaName : String := "<lambda>"

/-- What a function answers to the text of a section, or to nothing. -/
def callFunction (call : Callable) (text : String) : Except Failure Value :=
  match call with
  | .returns v => pure v
  | .surround before after => pure (.text (before ++ text ++ after))
  | .raises message => throw (.fault (.raised .runtime message))

/-- What a lambda answers; `section_` is the source of the section it governs. -/
def lambdaAnswer (scope : Scope) (section_ : Option String) : Value → Render Value
  | .lambda _ _ call => Render.ofExcept (callFunction call (section_.getD ""))
  | .pathLambda _ path => Render.get scope path
  | v => pure v

/-- The markup of a lambda: a text is compiled with the delimiters of the tag, and everything else
is displayed. -/
def lambdaMarkup (e : Engine) (scope : Scope) (section_ : Option String) (marks : Delimiters)
    (lambda : Value) : Render Fragment := do
  match ← lambdaAnswer scope section_ lambda with
  | .text source =>
    let template ← Render.ofExcept
      (e.parse (e.delimitersOr marks.opening marks.closing) lambdaName source)
    pure template.fragment
  | v => do pure ⟨none, [.text none (← Render.display v)]⟩

/-- The value that an output tag writes; null writes nothing. -/
def outputValue (e : Engine) (render : Renderer) (scope : Scope) (style : OutputStyle)
    (call : Invocation) (marks : Delimiters) : Render Value := do
  let told := callOf e render call.name style.tag scope call.args call.hash []
  let invokeMissing (helper : Helper) : Render Value := do
    invoke e render helper .null (← told) { hasSink := true }
  match call.helper with
  | some helper => do
    let subject ← transform e (← subjectOf e render scope call.args)
    invoke e render helper subject (← told) { hasSink := true }
  | none =>
    if !call.args.isEmpty || !call.hash.isEmpty then
      match e.missing? with
      | some helper => invokeMissing helper
      | none => throw (.atRender (.helperNotFound call.name))
    else do
      let value ← transform e (← Render.get scope call.name)
      if value.isNull then
        match e.missing? with
        | some helper => invokeMissing helper
        | none => pure .null
      else if value.isLambda then do
        let markup ← lambdaMarkup e scope none marks value
        pure (.text (← Render.captured (render markup scope)))
      else pure value

/-- The text of a value in an output tag: escaped by a plain tag, unless it is safe. -/
def outputText (e : Engine) (style : OutputStyle) (value : Value) : Render String := do
  let text ← Render.display value
  match style, value with
  | .plain, .safe _ => pure text
  | .plain, _ => pure (e.escaping.escape text)
  | _, _ => pure text

/-- An output tag. -/
def renderOutput (e : Engine) (render : Renderer) (scope : Scope) (style : OutputStyle)
    (call : Invocation) (marks : Delimiters) : Render Unit := do
  let value ← outputValue e render scope style call marks
  if value.isNull then pure () else Render.emit (← outputText e style value)

/-- How a section without a helper of its own treats its value: which helper takes it, what the body
is, and the scope of the call. -/
structure Treatment where
  helper : Builtin
  body : Fragment
  scope : Scope

/-- Inverted sections negate; iterables are iterated over, booleans decide, a lambda's markup takes
the place of the body, and any other value is entered. -/
def treatment (e : Engine) (scope : Scope) (head : BlockHead) (body : List Node) (value : Value) :
    Render Treatment := do
  if head.inverted then pure ⟨.negate, ⟨none, body⟩, scope⟩
  else if value.isIterable then pure ⟨.each, ⟨none, body⟩, scope⟩
  else
    match value with
    | .bool _ => pure ⟨.branch, ⟨none, body⟩, scope⟩
    | _ =>
      if value.isLambda then do
        let markup ← lambdaMarkup e scope (some (Node.sources body)) head.delimiters value
        pure ⟨.enter, markup, scope⟩
      else pure ⟨.enter, ⟨none, body⟩, scope.child value []⟩

/-- The helper that takes the value of a section without one of its own, and the name it is called
by. The helper for missing names takes a value that is not there. -/
def implicitHelper (e : Engine) (head : BlockHead) (which : Builtin) (value : Value) :
    Render (Helper × String) :=
  match value.isNull, e.missing? with
  | true, some helper => pure (helper, head.call.name)
  | _, _ =>
    match e.registry.lookup which.name with
    | some helper => pure (helper, which.name)
    | none => throw (.atRender (.helperNotFound which.name))

/-- The value that a section's helper answers. -/
def blockValue (e : Engine) (render : Renderer) (scope : Scope) (head : BlockHead)
    (body : List Node) (inverse : Fragment) : Render Value := do
  match head.call.helper with
  | some helper => do
    let subject ← transform e (← subjectOf e render scope head.call.args)
    let call ← callOf e render head.call.name .block scope head.call.args head.call.hash
      head.blockParams
    invoke e render helper subject call ⟨⟨none, body⟩, inverse, true⟩
  | none => do
    let subject ← transform e (← Render.get scope head.call.name)
    let treated ← treatment e scope head body subject
    let (helper, name) ← implicitHelper e head treated.helper subject
    let call ← callOf e render name .block treated.scope head.call.args head.call.hash
      head.blockParams
    invoke e render helper subject call ⟨treated.body, inverse, true⟩

/-- A section. Its inline partials are visible from its helper's first request to its end. -/
def renderBlock (e : Engine) (render : Renderer) (scope : Scope) (head : BlockHead)
    (body : List Node) (inverse : Fragment) : Render Unit :=
  Render.inFrame do
    defineInlines body
    Render.located head.place do
      let value ← blockValue e render scope head body inverse
      if value.isNull then pure () else Render.emit (← Render.display value)

/-- The fault of something that cannot be rendered as a partial. -/
def noPartial : Fault := .raised .attribute "the inline partial has no nodes"

/-- A partial: the visible inline partial of the name, or else the template at that location. -/
def partialOf (e : Engine) (name : String) : Render Fragment := do
  let visible ← Render.ofFault (← Render.read (·.side.frames)).visible
  match visible.lookup name with
  | some (.nodes body) => pure ⟨none, body⟩
  | some (.foreign v) => if v.isNull then compiled else Render.fault noPartial
  | none => compiled
where
  /-- The template at the location, compiled through the cache. -/
  compiled : Render Fragment :=
    Render.ofOutcome fun w =>
      let (result, cache, nextTree) := e.compile w.cache w.nextTree name
      some (result.map (·.template.fragment), { w with cache, nextTree })

/-- The scope of a partial: a child for its argument, with its named arguments bound. -/
def partialScope (e : Engine) (render : Renderer) (scope : Scope) (args : List Param)
    (hash : HashParams) : Render Scope := do
  let inner ← match args with
    | [] => pure scope
    | first :: _ => do pure (scope.child (← argument e render scope first) [])
  if hash.isEmpty then pure inner
  else do pure (inner.withBindings (Bindings.ofPairs (← namedArguments e render scope hash)))

/-- A tag that renders a partial. -/
def renderInclusion (e : Engine) (render : Renderer) (scope : Scope) (name : String)
    (args : List Param) (hash : HashParams) : Render Unit := do
  let fragment ← partialOf e name
  let inner ← partialScope e render scope args hash
  render fragment inner

/-- A node. -/
def renderNode (e : Engine) (render : Renderer) (scope : Scope) : Node → Render Unit
  | .text _ content => Render.emit content
  | .comment .. => pure ()
  | .inlinePartial .. => pure ()
  | .output place style call marks =>
    Render.located place (renderOutput e render scope style (call.placed place) marks)
  | .block _ none _ => pure ()
  | .block head (some body) inverse =>
    renderBlock e render scope head.placed body ⟨head.elsePlace, inverse.getD []⟩
  | .inclusion place name args hash _ =>
    Render.located place <| renderInclusion e render scope name (Param.placedArgs place [] args)
      (Param.placedHash place [] hash)

/-- Nodes one after the other. -/
def renderNodes (e : Engine) (render : Renderer) (scope : Scope) : List Node → Render Unit
  | [] => pure ()
  | n :: rest => do
    renderNode e render scope n
    renderNodes e render scope rest

/-- A fragment, with fragments nested at most `depth` deep. Its inline partials are visible to all
its nodes, those before the definition too. -/
def renderFragment (e : Engine) : Nat → Renderer
  | 0, _, _ => Render.exhausted
  | depth + 1, fragment, scope => do
    defineInlines fragment.nodes
    Render.located fragment.place (renderNodes e (renderFragment e depth) scope fragment.nodes)

/-- How deep fragments may nest in a host that sets no other bound. -/
def standardDepth : Nat := 400

/-- A template rendered in a scope. -/
def Template.render (t : Template) (e : Engine) (scope : Scope) : Render Unit :=
  renderFragment e standardDepth t.fragment scope

end Stencil
