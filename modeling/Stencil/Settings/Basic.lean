import Stencil.Token.Basic
import Stencil.Typed.Shape

/-!
# Settings

What a settings file says about an engine: its delimiters, whether it escapes and whether it is
strict, how it caches, and where its templates are. Everything has a standard value. Settings are
read from what a settings document loads as, and can be written back to that.
-/

namespace Stencil

/-- How compiled templates are remembered. -/
structure CacheSettings where
  enabled : Bool := true
  reload : Bool := false
deriving DecidableEq, Repr

/-- Where templates are and how they are named. -/
structure TemplateSettings where
  baseDir : String := "."
  folder : String := ""
  ending : String := ".hbs"
  exclude : List String := []
deriving DecidableEq, Repr

/-- The settings of an engine. -/
structure Settings where
  delimiters : Delimiters := .standard
  escapeHtml : Bool := true
  strict : Bool := false
  cache : CacheSettings := {}
  templates : TemplateSettings := {}
deriving DecidableEq, Repr

namespace Settings

open Typed

/-- A text as it loads. -/
def loadedText (s : String) : Loaded := .raw (.text s)

/-- A truth value as it loads. -/
def loadedTruth (b : Bool) : Loaded := .raw (.bool b)

/-- Delimiters as they load. -/
def loadedDelimiters (d : Delimiters) : Loaded :=
  .record "DelimitersCfg" [("start", loadedText d.opening), ("end", loadedText d.closing)]

/-- Cache settings as they load. -/
def loadedCache (c : CacheSettings) : Loaded :=
  .record "CacheCfg" [("enabled", loadedTruth c.enabled), ("reload", loadedTruth c.reload)]

/-- Template settings as they load. -/
def loadedTemplates (t : TemplateSettings) : Loaded :=
  .record "TemplatesCfg"
    [("base_dir", loadedText t.baseDir), ("prefix", loadedText t.folder),
      ("suffix", loadedText t.ending), ("exclude", .list (t.exclude.map loadedText))]

/-- Settings as they load. -/
def toLoaded (s : Settings) : Loaded :=
  .record "EngineConfig"
    [("delimiters", loadedDelimiters s.delimiters), ("escape_html", loadedTruth s.escapeHtml),
      ("strict", loadedTruth s.strict), ("cache", loadedCache s.cache),
      ("templates", loadedTemplates s.templates)]

/-- The shape of delimiters. -/
def delimitersShape : Shape :=
  .record "DelimitersCfg"
    [⟨"start", .scalar .text, some (loadedText Delimiters.standard.opening)⟩,
      ⟨"end", .scalar .text, some (loadedText Delimiters.standard.closing)⟩]

/-- The shape of cache settings. -/
def cacheShape : Shape :=
  let standard : CacheSettings := {}
  .record "CacheCfg"
    [⟨"enabled", .scalar .truth, some (loadedTruth standard.enabled)⟩,
      ⟨"reload", .scalar .truth, some (loadedTruth standard.reload)⟩]

/-- The shape of template settings. -/
def templatesShape : Shape :=
  let standard : TemplateSettings := {}
  .record "TemplatesCfg"
    [⟨"base_dir", .scalar .text, some (loadedText standard.baseDir)⟩,
      ⟨"prefix", .scalar .text, some (loadedText standard.folder)⟩,
      ⟨"suffix", .scalar .text, some (loadedText standard.ending)⟩,
      ⟨"exclude", .listOf (.scalar .text), some (.list (standard.exclude.map loadedText))⟩]

/-- The shape of settings: every section may be left out or null, and so may every value in it. -/
def shape : Shape :=
  let standard : Settings := {}
  .record "EngineConfig"
    [⟨"delimiters", delimitersShape, some (loadedDelimiters standard.delimiters)⟩,
      ⟨"escape_html", .scalar .truth, some (loadedTruth standard.escapeHtml)⟩,
      ⟨"strict", .scalar .truth, some (loadedTruth standard.strict)⟩,
      ⟨"cache", cacheShape, some (loadedCache standard.cache)⟩,
      ⟨"templates", templatesShape, some (loadedTemplates standard.templates)⟩]

/-- A field of a loaded record. -/
def field? (name : String) : Loaded → Option Loaded
  | .record _ fields => fields.lookup name
  | _ => none

/-- A text field of a loaded record. -/
def textField? (name : String) (l : Loaded) : Option String :=
  match field? name l with
  | some (.raw v) => v.asText?
  | _ => none

/-- A truth value in a field of a loaded record. -/
def truthField? (name : String) (l : Loaded) : Option Bool :=
  match field? name l with
  | some (.raw (.bool b)) => some b
  | _ => none

/-- The texts in a list field of a loaded record. -/
def textsField? (name : String) (l : Loaded) : Option (List String) :=
  match field? name l with
  | some (.list items) => some <| items.filterMap fun
    | .raw v => v.asText?
    | _ => none
  | _ => none

/-- The delimiters that are loaded. -/
def delimitersOf? (l : Loaded) : Option Delimiters := do
  pure ⟨← textField? "start" l, ← textField? "end" l⟩

/-- The cache settings that are loaded. -/
def cacheOf? (l : Loaded) : Option CacheSettings := do
  pure ⟨← truthField? "enabled" l, ← truthField? "reload" l⟩

/-- The template settings that are loaded. -/
def templatesOf? (l : Loaded) : Option TemplateSettings := do
  pure ⟨← textField? "base_dir" l, ← textField? "prefix" l, ← textField? "suffix" l,
    ← textsField? "exclude" l⟩

/-- The settings that are loaded. -/
def ofLoaded? (l : Loaded) : Option Settings := do
  pure ⟨← delimitersOf? (← field? "delimiters" l), ← truthField? "escape_html" l,
    ← truthField? "strict" l, ← cacheOf? (← field? "cache" l),
    ← templatesOf? (← field? "templates" l)⟩

/-- Settings are read back from what they load as. -/
theorem ofLoaded?_toLoaded (s : Settings) : ofLoaded? s.toLoaded = some s := by
  have hlist : (s.templates.exclude.map loadedText).filterMap
      (fun | .raw v => v.asText? | _ => none) = s.templates.exclude := by
    rw [List.filterMap_map]
    exact List.filterMap_some
  simp only [ofLoaded?, toLoaded, field?, loadedDelimiters, loadedCache, loadedTemplates]
  simp [List.lookup_cons, delimitersOf?, cacheOf?, templatesOf?, textField?, truthField?, textsField?,
    field?, loadedText, loadedTruth, Value.asText?] at hlist ⊢
  exact congrArg _ (by simp_all)

end Settings

end Stencil
