import Stencil.Proofs.Typed.Records
import Stencil.Settings.Read

/-!
# Settings that fit

A settings document fits when it is null or a mapping of the known keys, its sections are too, and
what stands under the other keys is of their kind. Such a document, and no other, is loaded: as the
settings that say what it says and are standard where it says nothing.
-/

namespace Stencil.Settings

open Typed

/-! ### The documents that fit -/

/-- A text. -/
def IsText (v : Value) : Prop := ∃ s, v = .text s

/-- A truth value. -/
def IsTruth (v : Value) : Prop := ∃ b, v = .bool b

/-- A list of texts. -/
def AreTexts (v : Value) : Prop := ∃ label items, v = .list label items ∧ ∀ u ∈ items, IsText u

/-- Null or a mapping of known keys, each with what has to hold of the value under it. -/
def FitsSection (known : List (String × (Value → Prop))) (v : Value) : Prop :=
  v.Within (known.map (·.1)) ∧ ∀ key ∈ known, ∀ u, v.under? [key.1] = some u → key.2 u

/-- A section of delimiters. -/
def FitsDelimiters : Value → Prop := FitsSection [("start", IsText), ("end", IsText)]

/-- A section on the cache. -/
def FitsCache : Value → Prop := FitsSection [("enabled", IsTruth), ("reload", IsTruth)]

/-- A section on templates. -/
def FitsTemplates : Value → Prop :=
  FitsSection [("base_dir", IsText), ("prefix", IsText), ("suffix", IsText), ("exclude", AreTexts)]

/-- The keys of a settings document. -/
def knownKeys : List (String × (Value → Prop)) :=
  [("delimiters", FitsDelimiters), ("escape_html", IsTruth), ("strict", IsTruth),
    ("cache", FitsCache), ("templates", FitsTemplates)]

/-- A document fits the settings. -/
def Fits : Value → Prop := FitsSection knownKeys

/-! ### What fitting documents say -/

/-- The text that a text is. -/
def saidText (v : Value) : String := v.asText?.getD ""

/-- The truth value that a truth value is. -/
def saidTruth : Value → Bool
  | .bool b => b
  | _ => false

/-- The texts of a list of texts. -/
def saidTexts : Value → List String
  | .list _ items => items.map saidText
  | _ => []

/-- What is said under keys, or the standard if nothing is. -/
def saidAt {α : Type} (said : Value → α) (keys : List String) (standard : α) (v : Value) : α :=
  ((v.under? keys).map said).getD standard

/-- The delimiters that a section says. -/
def saidDelimiters (v : Value) : Delimiters :=
  ⟨saidAt saidText ["start"] Delimiters.standard.opening v,
    saidAt saidText ["end"] Delimiters.standard.closing v⟩

/-- What a section says on the cache. -/
def saidCache (v : Value) : CacheSettings :=
  let standard : CacheSettings := {}
  ⟨saidAt saidTruth ["enabled"] standard.enabled v, saidAt saidTruth ["reload"] standard.reload v⟩

/-- What a section says on templates. -/
def saidTemplates (v : Value) : TemplateSettings :=
  let standard : TemplateSettings := {}
  ⟨saidAt saidText ["base_dir"] standard.baseDir v, saidAt saidText ["prefix"] standard.folder v,
    saidAt saidText ["suffix"] standard.ending v, saidAt saidTexts ["exclude"] standard.exclude v⟩

/-- The settings that a document says. -/
def said (v : Value) : Settings :=
  let standard : Settings := {}
  ⟨saidAt saidDelimiters ["delimiters"] standard.delimiters v,
    saidAt saidTruth ["escape_html"] standard.escapeHtml v,
    saidAt saidTruth ["strict"] standard.strict v, saidAt saidCache ["cache"] standard.cache v,
    saidAt saidTemplates ["templates"] standard.templates v⟩

/-! ### Loading -/

/-- The texts of a list as they load. -/
def madeTexts : Value → Loaded
  | .list _ items => .list (items.map .raw)
  | _ => .list []

/-- A section of delimiters as it loads. -/
def madeDelimiters (v : Value) : Loaded :=
  .record "DelimitersCfg"
    [("start", madeAt .raw "start" (loadedText Delimiters.standard.opening) v),
      ("end", madeAt .raw "end" (loadedText Delimiters.standard.closing) v)]

/-- A section on the cache as it loads. -/
def madeCache (v : Value) : Loaded :=
  let standard : CacheSettings := {}
  .record "CacheCfg"
    [("enabled", madeAt .raw "enabled" (loadedTruth standard.enabled) v),
      ("reload", madeAt .raw "reload" (loadedTruth standard.reload) v)]

/-- A section on templates as it loads. -/
def madeTemplates (v : Value) : Loaded :=
  let standard : TemplateSettings := {}
  .record "TemplatesCfg"
    [("base_dir", madeAt .raw "base_dir" (loadedText standard.baseDir) v),
      ("prefix", madeAt .raw "prefix" (loadedText standard.folder) v),
      ("suffix", madeAt .raw "suffix" (loadedText standard.ending) v),
      ("exclude", madeAt madeTexts "exclude" (.list (standard.exclude.map loadedText)) v)]

/-- A settings document as it loads. -/
def made (v : Value) : Loaded :=
  let standard : Settings := {}
  .record "EngineConfig"
    [("delimiters", madeAt madeDelimiters "delimiters" (loadedDelimiters standard.delimiters) v),
      ("escape_html", madeAt .raw "escape_html" (loadedTruth standard.escapeHtml) v),
      ("strict", madeAt .raw "strict" (loadedTruth standard.strict) v),
      ("cache", madeAt madeCache "cache" (loadedCache standard.cache) v),
      ("templates", madeAt madeTemplates "templates" (loadedTemplates standard.templates) v)]

theorem text_reads : (Shape.scalar .text).Reads IsText .raw := by
  intro v hv path x
  cases hv with
  | text s => simp [load, Scalar.holds, Value.asText?, IsText, pure, Except.pure, eq_comm]
  | _ => simp [load, Scalar.holds, Value.asText?, IsText, misfit_ne_ok]

theorem truth_reads : (Shape.scalar .truth).Reads IsTruth .raw := by
  intro v hv path x
  cases hv with
  | bool b => simp [load, Scalar.holds, IsTruth, pure, Except.pure, eq_comm]
  | _ => simp [load, Scalar.holds, IsTruth, misfit_ne_ok]

theorem loadItems_texts {items : List Value} (h : ∀ u ∈ items, u.IsRaw) (path : String)
    (index : Nat) (loaded : List Loaded) :
    loadItems (fun v p => load (.scalar .text) v p) path index items = .ok loaded ↔
      (∀ u ∈ items, IsText u) ∧ loaded = items.map .raw := by
  induction items generalizing index loaded with
  | nil => simp [loadItems, pure, Except.pure, eq_comm]
  | cons v rest ih =>
    obtain ⟨hv, hrest⟩ := List.forall_mem_cons.1 h
    rw [loadItems, List.forall_mem_cons, List.map_cons]
    simp only [bind_eq_ok_iff, text_reads hv, ih hrest]
    simp [pure, Except.pure, and_assoc, @eq_comm _ loaded]

theorem texts_reads : (Shape.listOf (.scalar .text)).Reads AreTexts madeTexts := by
  intro v hv path x
  cases hv with
  | @list label items hitems =>
    rw [load, bind_eq_ok_iff]
    simp only [loadItems_texts hitems]
    simp [AreTexts, madeTexts, pure, Except.pure, @eq_comm _ x]
  | _ => simp [load, AreTexts, misfit_ne_ok]

theorem delimiters_reads : delimitersShape.Reads FitsDelimiters madeDelimiters := by
  intro v hv path x
  rw [delimitersShape, load_record_eq_ok_iff hv]
  simp only [List.forall₂_cons_left_iff, List.forall₂_nil_left_iff, text_reads.loadsField_iff hv]
  simp [FitsDelimiters, FitsSection, madeDelimiters, and_comm, and_left_comm]

theorem cache_reads : cacheShape.Reads FitsCache madeCache := by
  intro v hv path x
  rw [cacheShape, load_record_eq_ok_iff hv]
  simp only [List.forall₂_cons_left_iff, List.forall₂_nil_left_iff, truth_reads.loadsField_iff hv]
  simp [FitsCache, FitsSection, madeCache, and_comm, and_left_comm]

theorem templates_reads : templatesShape.Reads FitsTemplates madeTemplates := by
  intro v hv path x
  rw [templatesShape, load_record_eq_ok_iff hv]
  simp only [List.forall₂_cons_left_iff, List.forall₂_nil_left_iff, text_reads.loadsField_iff hv,
    texts_reads.loadsField_iff hv]
  simp [FitsTemplates, FitsSection, madeTemplates, and_comm, and_left_comm]

theorem shape_reads : shape.Reads Fits made := by
  intro v hv path x
  rw [shape, load_record_eq_ok_iff hv]
  simp only [List.forall₂_cons_left_iff, List.forall₂_nil_left_iff, truth_reads.loadsField_iff hv,
    delimiters_reads.loadsField_iff hv, cache_reads.loadsField_iff hv,
    templates_reads.loadsField_iff hv]
  simp [Fits, knownKeys, FitsSection, made, and_comm, and_left_comm]

/-! ### The settings that are loaded -/

section
variable {v : Value} {key name : String} {fields : List (String × Loaded)}

theorem textField?_record {standard : String} (h : ∀ u, v.under? [key] = some u → IsText u)
    (hfield : fields.lookup key = some (madeAt .raw key (loadedText standard) v)) :
    textField? key (.record name fields) = some (saidAt saidText [key] standard v) := by
  rw [textField?, field?, hfield, madeAt, saidAt]
  cases hu : v.under? [key] with
  | none => rfl
  | some u =>
    obtain ⟨s, rfl⟩ := h u hu
    rfl

theorem truthField?_record {standard : Bool} (h : ∀ u, v.under? [key] = some u → IsTruth u)
    (hfield : fields.lookup key = some (madeAt .raw key (loadedTruth standard) v)) :
    truthField? key (.record name fields) = some (saidAt saidTruth [key] standard v) := by
  rw [truthField?, field?, hfield, madeAt, saidAt]
  cases hu : v.under? [key] with
  | none => rfl
  | some u =>
    obtain ⟨b, rfl⟩ := h u hu
    rfl

theorem textsField?_record {standard : List String}
    (h : ∀ u, v.under? [key] = some u → AreTexts u)
    (hfield : fields.lookup key =
      some (madeAt madeTexts key (.list (standard.map loadedText)) v)) :
    textsField? key (.record name fields) = some (saidAt saidTexts [key] standard v) := by
  rw [textsField?, field?, hfield, madeAt, saidAt]
  cases hu : v.under? [key] with
  | none =>
    refine congrArg some ?_
    rw [List.filterMap_map]
    exact List.filterMap_some
  | some u =>
    obtain ⟨label, items, rfl, hitems⟩ := h u hu
    refine congrArg some ?_
    rw [List.filterMap_map]
    calc items.filterMap _ = items.filterMap (some ∘ saidText) := by
          refine List.filterMap_congr fun w hw => ?_
          obtain ⟨s, rfl⟩ := hitems w hw
          rfl
      _ = items.map saidText := by rw [List.filterMap_eq_map]

/-- A section that is left out says what a section of null does. -/
theorem section_madeAt {α : Type} {known : List (String × (Value → Prop))} {made : Value → Loaded}
    {said : Value → α} {of? : Loaded → Option α}
    (hmade : ∀ {u}, FitsSection known u → of? (made u) = some (said u))
    (h : ∀ u, v.under? [key] = some u → FitsSection known u) :
    of? (madeAt made key (made .null) v) = some (saidAt said [key] (said .null) v) := by
  rw [madeAt, saidAt]
  cases hu : v.under? [key] with
  | none => exact hmade ⟨.inl rfl, fun _ _ _ h => by cases h⟩
  | some u => exact hmade (h u hu)

end

theorem delimitersOf?_made {v : Value} (h : FitsDelimiters v) :
    delimitersOf? (madeDelimiters v) = some (saidDelimiters v) := by
  have hstart := h.2 ("start", IsText) (by simp)
  have hend := h.2 ("end", IsText) (by simp)
  rw [delimitersOf?, madeDelimiters, textField?_record hstart rfl, textField?_record hend rfl]
  rfl

theorem cacheOf?_made {v : Value} (h : FitsCache v) :
    cacheOf? (madeCache v) = some (saidCache v) := by
  have henabled := h.2 ("enabled", IsTruth) (by simp)
  have hreload := h.2 ("reload", IsTruth) (by simp)
  rw [cacheOf?, madeCache, truthField?_record henabled rfl, truthField?_record hreload rfl]
  rfl

theorem templatesOf?_made {v : Value} (h : FitsTemplates v) :
    templatesOf? (madeTemplates v) = some (saidTemplates v) := by
  have hbase := h.2 ("base_dir", IsText) (by simp)
  have hfolder := h.2 ("prefix", IsText) (by simp)
  have hending := h.2 ("suffix", IsText) (by simp)
  have hexclude := h.2 ("exclude", AreTexts) (by simp)
  rw [templatesOf?, madeTemplates, textField?_record hbase rfl, textField?_record hfolder rfl,
    textField?_record hending rfl, textsField?_record hexclude rfl]
  rfl

/-- The settings of a document that fits are those that it says. -/
theorem ofLoaded?_made {v : Value} (h : Fits v) : ofLoaded? (made v) = some (said v) := by
  have hdelimiters := section_madeAt delimitersOf?_made
    (h.2 ("delimiters", FitsDelimiters) (by simp [knownKeys]))
  have hcache := section_madeAt cacheOf?_made (h.2 ("cache", FitsCache) (by simp [knownKeys]))
  have htemplates := section_madeAt templatesOf?_made
    (h.2 ("templates", FitsTemplates) (by simp [knownKeys]))
  have hescape : truthField? "escape_html" (made v) = some (said v).escapeHtml :=
    truthField?_record (h.2 ("escape_html", IsTruth) (by simp [knownKeys])) rfl
  have hstrict : truthField? "strict" (made v) = some (said v).strict :=
    truthField?_record (h.2 ("strict", IsTruth) (by simp [knownKeys])) rfl
  calc ofLoaded? (made v)
    _ = (do
          pure (Settings.mk
            (← delimitersOf? (madeAt madeDelimiters "delimiters" (madeDelimiters .null) v))
            (← truthField? "escape_html" (made v)) (← truthField? "strict" (made v))
            (← cacheOf? (madeAt madeCache "cache" (madeCache .null) v))
            (← templatesOf? (madeAt madeTemplates "templates" (madeTemplates .null) v)))) := rfl
    _ = some (said v) := by
      rw [hdelimiters, hescape, hstrict, hcache, htemplates]
      rfl

end Stencil.Settings
