import Stencil.Cache
import Stencil.Escaping
import Stencil.Helper.Registry
import Stencil.Loader.Basic
import Stencil.Node.OfTokens
import Stencil.Transformer

/-!
# Engines

An engine is what templates are compiled and rendered with: the helpers, the sources, the delimiters,
and the ways of escaping, transforming and reading values. It does not change while it renders; the
cache does, and is kept apart.
-/

namespace Stencil

/-- An engine. -/
structure Engine where
  registry : Registry
  loader : Loader
  delimiters : Delimiters
  escaping : Escaping
  transformer : Transformer
  resolvers : List Resolver

namespace Engine

/-- The engine with sources in memory and everything else as it is without the host's wishes. -/
def standard : Engine :=
  { registry := .standard false 0, loader := .memory ⟨⟨"", ""⟩, []⟩, delimiters := .standard,
    escaping := .html, transformer := .standard, resolvers := Resolver.standard }

/-- The delimiters asked for, the engine's own where none are. -/
def delimitersOr (e : Engine) (opening closing : String) : Delimiters :=
  ⟨if opening == "" then e.delimiters.opening else opening,
    if closing == "" then e.delimiters.closing else closing⟩

/-- Source compiled under a name. The helpers are bound as they are now. -/
def parse (e : Engine) (marks : Delimiters) (name text : String) : Except Failure Template :=
  Template.ofSource e.registry.lookup marks name text

/-- A source compiled. -/
def compileSource (e : Engine) (marks : Delimiters) (source : Source) : Except Failure Template := do
  e.parse marks source.name (← source.content)

/-- The template at a location, through a cache. -/
def compile (e : Engine) (cache : Cache) (next : Nat) (location : String) :
    Except Failure Compiled × Cache × Nat :=
  match e.loader.source location with
  | .ok source => cache.get next source (e.compileSource e.delimiters)
  | .error failure => (.error failure, cache, next)

/-- The name that inline source is remembered under: it depends on the text and the delimiters. -/
def inlineName (marks : Delimiters) (text : String) : String :=
  let digest := Digest.sha1 (marks.opening ++ "\x00" ++ marks.closing ++ "\x00" ++ text)
  "inline@" ++ String.ofList (digest.toList.take 16)

/-- Source compiled as it is given, through a cache. -/
def compileInline (e : Engine) (cache : Cache) (next : Nat) (text : String) (marks : Delimiters) :
    Except Failure Compiled × Cache × Nat :=
  cache.get next (.memory (inlineName marks text) text) (e.compileSource marks)

/-- A helper registered. -/
def register (e : Engine) (name : String) (candidate : Candidate) : Except Fault Engine := do
  pure { e with registry := ← e.registry.register name candidate }

end Engine

end Stencil
