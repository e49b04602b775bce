import Stencil.Proofs.Render.FrameStack
import Stencil.Proofs.Render.Keeps
import Stencil.Proofs.Scope.Holding
import Stencil.Render.Evaluate

/-!
# Regimes

A regime says what the values, the texts, the failures and the nodes of a render are like. It is
lawful for an engine when every single thing that the engine does stays within it: reading a member,
transforming a value, writing a text, compiling a partial, calling a helper. What a lawful regime
says of the start of a render then holds at its end, whatever happens between.
-/

namespace Stencil

/-- What the values and texts of a render are like. -/
structure Regime where
  /-- Values that are read, answered and passed around. -/
  value : Value → Prop
  /-- Texts that have been written. -/
  text : String → Prop
  /-- Texts that may be compiled while the render is under way. -/
  source : String → Prop
  failure : Failure → Prop
  /-- Nodes, each by itself. -/
  node : Node → Prop
  cache : Cache → Prop

/-- Reading the inline partials fails with a fault of the stack only when more is popped than was
pushed. -/
def Fault.IsUnderflow (cause : Fault) : Prop := cause = .frameUnderflow

/-- The fault of popping too much, bare or blamed on a helper. -/
def Failure.IsUnderflow : Failure → Prop
  | fault cause | render (.helperFailed _ cause) _ => cause.IsUnderflow
  | _ => False

/-- The text of an output tag for a value that is displayed as `text`. -/
def OutputStyle.written (style : OutputStyle) (e : Escaping) (v : Value) (text : String) : String :=
  match style, v with
  | .plain, .safe _ => text
  | .plain, _ => e.escape text
  | _, _ => text

namespace Regime

variable (R : Regime)

/-- Nodes, and all nodes inside them, are those of the regime. -/
abbrev Tree (nodes : List Node) : Prop := Node.Every R.node nodes

/-- What helpers are told. -/
structure Tells (call : Call) : Prop where
  scope : call.scope.All R.value
  params : ∀ v ∈ call.params, R.value v
  hash : call.hash.All R.value

/-- Requests that helpers may make: the data are theirs to set, but not the frames. -/
def Admits : Request → Prop
  | .render (.source _ text) scope => R.source text ∧ scope.All R.value
  | .render _ scope => scope.All R.value
  | .write text => R.text text
  | .setData name v => name ≠ SideChannel.framesName ∧ R.value v
  | .items v => R.value v
  | _ => True

/-- The answers to requests. -/
def Answers : (q : Request) → q.Reply → Prop
  | .render .., text => R.text text
  | .get _, v => R.value v
  | .data name, found => name ≠ SideChannel.framesName → ∀ v, found = some v → R.value v
  | .items _, items => ∀ v ∈ items, R.value v
  | _, _ => True

/-- An action makes requests that are admitted as long as it gets answers of the regime, and ends
with a failure of the regime or a result with `V`. -/
def Obeys {α : Type} (V : α → Prop) : Action α → Prop
  | .done a => V a
  | .fail f => R.failure f
  | .ask q next => R.Admits q ∧ ∀ reply, Meets R.failure (R.Answers q) reply → Obeys V (next reply)

/-- Values whose text may be written as it is. -/
def Shown (v : Value) : Prop :=
  ∀ drawn text drawn', v.display drawn = .ok (text, drawn') → R.text text

/-- What helpers answer: a section writes the answer of its helper as it is. -/
def Result (tag : TagKind) (v : Value) : Prop := R.value v ∧ (tag = .block → R.Shown v)

/-- Helpers that stay within the regime when a tag of some kind calls them. -/
def Serves (tag : TagKind) (helper : Helper) : Prop :=
  ∀ subject call, R.value subject → R.Tells call → call.tag = tag →
    R.Obeys (R.Result tag) (helper.act subject call)

/-- The helpers bound among arguments stay within the regime. -/
def ServesAll (bound : List Bound) : Prop := ∀ b ∈ bound, R.Serves .call b.2

/-- A regime that demands nothing of values and texts. -/
structure Free : Prop where
  value : ∀ v, R.value v
  text : ∀ s, R.text s
  source : ∀ s, R.source s
  node : ∀ place s, R.node (.text place s)

/-- The names under which sections look for helpers on their own. -/
def sectionNames : List String :=
  [Builtin.each, .branch, .negate, .enter, .missing].map Builtin.name

/-- The regime is closed under what happens to values, texts and failures in every engine. -/
structure Closed : Prop where
  text_empty : R.text ""
  text_append : ∀ {s t}, R.text s → R.text t → R.text (s ++ t)
  failure_own : ∀ {f : Failure}, ¬f.IsUnderflow → R.failure f
  failure_locate : ∀ {f : Failure} place, R.failure f → R.failure (f.locate place)
  failure_fromHelper : ∀ {f : Failure} name, R.failure f → R.failure (f.fromHelper name)
  value_literal : ∀ l : Literal, R.value l.value
  value_member : MembersKeep R.value
  value_inner : ∀ {v : Value}, R.value v → ∀ u ∈ v.inner, R.value u

/-- What an engine does stays within the regime. -/
structure Lawful (e : Engine) : Prop extends R.Closed where
  value_transform : ∀ {v : Value} label, R.value v → R.value (e.transformer.apply label v)
  node_text : ∀ {place content}, R.node (.text place content) → R.text content
  node_output : ∀ {place style call marks}, R.node (.output place style call marks) →
    R.ServesAll call.argBound ∧ (∀ helper, call.helper = some helper → R.Serves style.tag helper)
  node_written : ∀ {place style call marks v drawn text drawn'},
    R.node (.output place style call marks) → R.value v → v.display drawn = .ok (text, drawn') →
    R.text (style.written e.escaping v text)
  node_block : ∀ {head body inverse}, R.node (.block head body inverse) →
    R.ServesAll head.call.argBound ∧
      (∀ helper, head.call.helper = some helper → R.Serves .block helper)
  node_inclusion : ∀ {place name args hash marks}, R.node (.inclusion place name args hash marks) →
    R.ServesAll (Param.argsBound args ++ Param.hashBound hash)
  compile : ∀ {place name args hash marks} cache next,
    R.node (.inclusion place name args hash marks) → R.cache cache →
    R.cache (e.compile cache next name).2.1 ∧
      Meets R.failure (fun found => R.Tree found.template.root) (e.compile cache next name).1
  registry : ∀ {name helper}, e.registry.lookup name = some helper →
    ∀ tag, (tag = .block → name ∈ sectionNames) → R.Serves tag helper
  parse : ∀ {text} marks name, R.source text →
    Meets R.failure (fun t => R.Tree t.root) (e.parse marks name text)
  lambda : ∀ {v : Value}, R.value v → v.isLambda = true → R.Free

/-- What the regime says of a world: the frames are as they were except for the innermost one. -/
structure Holds (f : Frames) (w : World) : Prop where
  data : w.side.data.All R.value
  output : R.text w.output
  cache : R.cache w.cache
  partials : w.side.frames.Every R.node
  below : f.SameBelow w.side.frames

end Regime

end Stencil
