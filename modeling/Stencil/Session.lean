import Stencil.Render.Context

/-!
# Sessions

An engine at work. A session keeps what renders leave behind for one another: the cache, the
iterators that have been drawn, the calls that helpers noted, and the log.
-/

namespace Stencil

/-- An engine and the world it works in. -/
structure Session where
  engine : Engine
  world : World

namespace Session

/-- A session that starts with a cache; the labels of all values at hand are below `next`. -/
def start (e : Engine) (cache : Cache) (next : Label) : Session := ⟨e, { cache, nextLabel := next }⟩

/-- The cache changed. -/
def changeCache (s : Session) (f : Cache → Cache) : Session :=
  { s with world := { s.world with cache := f s.world.cache } }

/-- The session in which the labels of all values at hand are below `next`. -/
def reserve (s : Session) (next : Label) : Session :=
  { s with world := { s.world with nextLabel := max s.world.nextLabel next } }

/-- A compilation and the session after it. -/
def compiling (s : Session) (compile : Cache → Nat → Except Failure Compiled × Cache × Nat) :
    Except Failure Compiled × Session :=
  let (result, cache, nextTree) := compile s.world.cache s.world.nextTree
  (result, { s with world := { s.world with cache, nextTree } })

/-- The template at a location. -/
def compile (s : Session) (location : String) : Except Failure Compiled × Session :=
  s.compiling fun cache next => s.engine.compile cache next location

/-- The template that source given as it is compiles to. -/
def compileInline (s : Session) (text : String) (marks : Delimiters) :
    Except Failure Compiled × Session :=
  s.compiling fun cache next => s.engine.compileInline cache next text marks

/-- The context of a model, with the engine's way of reading members. -/
def contextOf (s : Session) (model : Value) (data : List (String × Value)) : Context :=
  .ofModel model data s.engine.resolvers

/-- A template rendered against a context. -/
def render (s : Session) (t : Template) (c : Context) : Option Rendering :=
  t.renderAgainst s.engine c s.world

/-- The template at a location rendered against a context. One that does not compile writes
nothing. -/
def renderAt (s : Session) (location : String) (c : Context) : Option Rendering :=
  match s.compile location with
  | (.ok compiled, s) => s.render compiled.template c
  | (.error failure, s) =>
    some { result := .error failure, output := "", context := c, world := s.world }

end Session

end Stencil
