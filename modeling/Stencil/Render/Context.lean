import Stencil.Render.Evaluate

/-!
# Contexts

A context is what a template is rendered against: a scope together with the side channel that its
scopes share. It outlives the render, so data that helpers set and partials that a template leaves
behind are seen by the next render against it.
-/

namespace Stencil

/-- A scope with its side channel. -/
structure Context where
  scope : Scope
  side : SideChannel

namespace Context

/-- The context of a model, with data variables. -/
def ofModel (model : Value) (data : List (String × Value)) (resolvers : List Resolver) : Context :=
  ⟨.ofModel model resolvers, .ofData data⟩

/-- The value of a reference. -/
def get (c : Context) (reference : String) : Except Failure Value :=
  c.scope.get c.side.readable reference

end Context

/-- What a render comes to: how it ended, what it wrote by then, and the world and context after
it. -/
structure Rendering where
  result : Except Failure Unit
  output : String
  context : Context
  world : World

/-- A template rendered against a context. There is no rendering when fragments nest too deep. -/
def Template.renderAgainst (t : Template) (e : Engine) (c : Context) (w : World) :
    Option Rendering :=
  ((t.render e c.scope).outcome { w with side := c.side, output := "" }).map
    fun (result, after) =>
      { result, output := after.output, context := { c with side := after.side },
        world := { after with side := w.side, output := w.output } }

/-- The fault of a helper that is called without a tag and asks for something of it. -/
def noCall : Fault := .raised .attribute "the helper is not called by a tag"

/-- Answers to a helper that is called without a tag. -/
def answerAlone : (q : Request) → Render q.Reply
  | .display v => Render.display v
  | .items v => Render.items v
  | .label => Render.freshLabel
  | _ => Render.fault noCall

/-- A helper called without a tag. -/
def Helper.applyAlone (helper : Helper) (subject : Value) : Render Value :=
  match helper.behaviour with
  | .builtin _ => Render.fault noCall
  | .host act =>
    (act subject
      { helper := "", tag := .plain, scope := .ofModel .null [], params := [], hash := [],
        blockParams := [], arity := 0 }).perform answerAlone

end Stencil
