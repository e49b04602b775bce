import Stencil.Engine
import Stencil.Settings.Basic

/-!
# Engines from settings

The engine and the cache that settings ask for. Its sources are files below the base directory.
-/

namespace Stencil.Settings

/-- The loader that settings ask for. -/
def fileLoader (t : FileTree) (s : Settings) : FileLoader :=
  { naming := .ofTexts s.templates.folder s.templates.ending
    base := t.resolve (.ofText s.templates.baseDir)
    exclude := s.templates.exclude }

/-- The engine that settings ask for. -/
def engine (t : FileTree) (s : Settings) : Engine :=
  { Engine.standard with
    registry := .standard s.strict 0
    loader := .files (s.fileLoader t) t
    delimiters := s.delimiters
    escaping := if s.escapeHtml then .html else .off }

/-- The cache that settings ask for, empty. -/
def emptyCache (s : Settings) : Cache := if s.cache.enabled then .empty s.cache.reload else .none

end Stencil.Settings
