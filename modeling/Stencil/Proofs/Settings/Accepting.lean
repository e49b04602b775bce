import Stencil.Proofs.Settings.Fitting
import Stencil.Proofs.Settings.Json

/-!
# Settings files that are accepted

Of the JSON that its reader takes, a settings file is accepted exactly if that fits or is blank, and
the base directory it gives is one that a file can be below. The settings that are read say what the
JSON says; the base directory is counted from the file, and the reload variable overrules the
JSON. What does not fit is reported. Blank JSON includes some that is no object: false, zero, the
empty text and the empty array are read like an empty file.
-/

namespace Stencil.Settings

open Typed

/-! ### The text of a file -/

/-- The text of a content, its line ends unified. -/
def heldText (content : String) : String := String.ofList (Text.unifyLineEnds content.toList)

/-- Documents that are taken for an empty one. -/
inductive IsBlank : Value → Prop where
  | null : IsBlank .null
  | untrue : IsBlank (.bool false)
  | zero {n : Particular Int} : n.content = 0 → IsBlank (.int n)
  | zeroFloat {x : Particular Float} : (x.content == 0.0) = true → IsBlank (.float x)
  | noText {s : Particular String} : s.content = "" → IsBlank (.text s)
  | noItems (label : Label) : IsBlank (.list label [])
  | noEntries (label : Label) : IsBlank (.map label [])

theorem isBlank_iff {v : Value} (hv : v.IsRaw) : v.isEmpty false = true ↔ IsBlank v := by
  constructor
  · intro h
    cases hv with
    | null => exact .null
    | bool b =>
      cases b with
      | true => cases h
      | false => exact .untrue
    | int n => exact .zero (by simpa [Value.isEmpty] using h)
    | float x => exact .zeroFloat (by simpa [Value.isEmpty] using h)
    | text s => exact .noText (by simpa [Value.isEmpty] using h)
    | @list label items _ =>
      obtain rfl : items = [] := by simpa [Value.isEmpty] using h
      exact .noItems label
    | @map label entries _ _ =>
      obtain rfl : entries = [] := by simpa [Value.isEmpty] using h
      exact .noEntries label
  · intro h
    cases h with
    | zero hn => simp [Value.isEmpty, hn]
    | zeroFloat hx => simpa [Value.isEmpty] using hx
    | noText hs => simp [Value.isEmpty, hs]
    | _ => rfl

theorem IsBlank.under? {v : Value} (h : IsBlank v) (key : String) (rest : List String) :
    v.under? (key :: rest) = none := by
  cases h <;> rfl

/-! ### Settings that say what a document says -/

/-- What stands under keys stands for `x`; or nothing stands there and `x` is standard. -/
def Said {α : Type} (v : Value) (keys : List String) (stands : α → Value → Prop) (standard x : α) :
    Prop :=
  (v.under? keys = none ∧ x = standard) ∨ ∃ u, v.under? keys = some u ∧ stands x u

/-- A value is a text. -/
def StandsForText (s : String) (v : Value) : Prop := ∃ origin, v = .text ⟨s, origin⟩

/-- A value is a truth value. -/
def StandsForTruth (b : Bool) (v : Value) : Prop := v = .bool b

/-- A value is a list of texts. -/
def StandsForTexts (ss : List String) (v : Value) : Prop :=
  ∃ label items, v = .list label items ∧ List.Forall₂ StandsForText ss items

/-- A base directory as settings have it: one that is not absolute is meant from the directory of
the file. -/
def placed (t : FileTree) (file : FilePath) (base : String) : String :=
  if (FilePath.ofText base).isAbsolute then base
  else FileTree.textOf (t.resolve (file.parent.below (.ofText base)))

/-- A base directory that is absolute, or that files can be below. -/
def Placeable (base : String) : Prop :=
  (FilePath.ofText base).isAbsolute = true ∨ '\x00' ∉ base.toList

/-- The settings of a file that holds a document: every field is as the document says, or standard.
The base directory is counted from the file, and the reload variable comes before the document. -/
structure Reflects (t : FileTree) (file : FilePath) (reload : Option String) (v : Value)
    (s : Settings) : Prop where
  opening : Said v ["delimiters", "start"] StandsForText Delimiters.standard.opening
    s.delimiters.opening
  closing : Said v ["delimiters", "end"] StandsForText Delimiters.standard.closing
    s.delimiters.closing
  escapeHtml : Said v ["escape_html"] StandsForTruth true s.escapeHtml
  strict : Said v ["strict"] StandsForTruth false s.strict
  enabled : Said v ["cache", "enabled"] StandsForTruth true s.cache.enabled
  reload : match reload with
    | some word => s.cache.reload = saysReload word
    | none => Said v ["cache", "reload"] StandsForTruth false s.cache.reload
  baseDir : ∃ base, Said v ["templates", "base_dir"] StandsForText "." base ∧
    s.templates.baseDir = placed t file base
  folder : Said v ["templates", "prefix"] StandsForText "" s.templates.folder
  ending : Said v ["templates", "suffix"] StandsForText ".hbs" s.templates.ending
  exclude : Said v ["templates", "exclude"] StandsForTexts [] s.templates.exclude

theorem Said.of_leaf {α : Type} {v : Value} {keys : List String} {stands : α → Value → Prop}
    {said : Value → α} {standard : α} (h : ∀ u, v.under? keys = some u → stands (said u) u) :
    Said v keys stands standard (saidAt said keys standard v) := by
  rw [Said, saidAt]
  cases hfound : v.under? keys with
  | none => exact .inl ⟨rfl, rfl⟩
  | some u => exact .inr ⟨u, rfl, h u hfound⟩

theorem Said.of_section {α β : Type} {v : Value} {key : String} {rest : List String}
    {stands : α → Value → Prop} {said : Value → β} {standard : β} (field : β → α)
    (h : ∀ u, v.under? [key] = some u → Said u rest stands (field standard) (field (said u))) :
    Said v (key :: rest) stands (field standard) (field (saidAt said [key] standard v)) := by
  rw [Said, saidAt, Value.under?_cons]
  cases hfound : v.under? [key] with
  | none => exact .inl ⟨rfl, rfl⟩
  | some u => exact h u hfound

theorem IsText.stands (v : Value) (h : IsText v) : StandsForText (saidText v) v := by
  obtain ⟨s, rfl⟩ := h
  exact ⟨s.origin, rfl⟩

theorem IsTruth.stands (v : Value) (h : IsTruth v) : StandsForTruth (saidTruth v) v := by
  obtain ⟨b, rfl⟩ := h
  rfl

theorem AreTexts.stands (v : Value) (h : AreTexts v) : StandsForTexts (saidTexts v) v := by
  obtain ⟨label, items, rfl, hitems⟩ := h
  refine ⟨label, items, rfl, ?_⟩
  rw [saidTexts, List.forall₂_map_left_iff, List.forall₂_same]
  exact fun u hu => (hitems u hu).stands u

/-- A document is taken: it fits, or it counts as an empty one. -/
def Taken (v : Value) : Prop := Fits v ∨ IsBlank v

/-- What stands in a document that is taken is of the kind that has to stand there. -/
theorem Taken.holds {v : Value} (h : Taken v) {key : String} {P : Value → Prop}
    (hkey : (key, P) ∈ knownKeys) {u : Value} (hu : v.under? [key] = some u) : P u := by
  rcases h with hfits | hblank
  · exact hfits.2 (key, P) hkey u hu
  · rw [hblank.under?] at hu
    cases hu

/-- A field outside of sections is as the document says. -/
theorem Taken.said {α : Type} {v : Value} (h : Taken v) {key : String} {P : Value → Prop}
    (hkey : (key, P) ∈ knownKeys) {stands : α → Value → Prop} {said : Value → α}
    (hstands : ∀ u, P u → stands (said u) u) (standard : α) :
    Said v [key] stands standard (saidAt said [key] standard v) :=
  Said.of_leaf fun _ hu => hstands _ (h.holds hkey hu)

/-- A field of a section is as the document says. -/
theorem Taken.said_within {α β : Type} {v : Value} (h : Taken v) {key leaf : String}
    {known : List (String × (Value → Prop))} (hkey : (key, FitsSection known) ∈ knownKeys)
    {P : Value → Prop} (hleaf : (leaf, P) ∈ known) {stands : α → Value → Prop} {said : Value → α}
    (hstands : ∀ u, P u → stands (said u) u) (field : β → α) {saidSection : Value → β}
    (standard : β) (hfield : ∀ u, field (saidSection u) = saidAt said [leaf] (field standard) u) :
    Said v [key, leaf] stands (field standard) (field (saidAt saidSection [key] standard v)) := by
  refine Said.of_section field fun u hu => ?_
  rw [hfield]
  exact Said.of_leaf fun w hw => hstands w ((h.holds hkey hu).2 (leaf, P) hleaf w hw)

/-- The settings that a document says, with the base directory counted from the file, reflect the
document. -/
theorem Taken.reflects {v : Value} (h : Taken v) (t : FileTree) (file : FilePath) :
    Reflects t file none v { Settings.said v with
      templates := { (Settings.said v).templates with
        baseDir := placed t file (Settings.said v).templates.baseDir } } := by
  have hdelimiters : ("delimiters", FitsDelimiters) ∈ knownKeys := by simp [knownKeys]
  have hcache : ("cache", FitsCache) ∈ knownKeys := by simp [knownKeys]
  have htemplates : ("templates", FitsTemplates) ∈ knownKeys := by simp [knownKeys]
  exact
    { opening := h.said_within hdelimiters (by simp) IsText.stands Delimiters.opening _ fun _ => rfl
      closing := h.said_within hdelimiters (by simp) IsText.stands Delimiters.closing _ fun _ => rfl
      escapeHtml := h.said (by simp [knownKeys]) IsTruth.stands _
      strict := h.said (by simp [knownKeys]) IsTruth.stands _
      enabled := h.said_within hcache (by simp) IsTruth.stands CacheSettings.enabled _ fun _ => rfl
      reload := h.said_within hcache (by simp) IsTruth.stands CacheSettings.reload _ fun _ => rfl
      baseDir := ⟨_, h.said_within htemplates (by simp) IsText.stands TemplateSettings.baseDir _
        fun _ => rfl, rfl⟩
      folder := h.said_within htemplates (by simp) IsText.stands TemplateSettings.folder _
        fun _ => rfl
      ending := h.said_within htemplates (by simp) IsText.stands TemplateSettings.ending _
        fun _ => rfl
      exclude := h.said_within htemplates (by simp) AreTexts.stands TemplateSettings.exclude _
        fun _ => rfl }

/-- The reload variable changes what is said of checking for changes, and nothing else. -/
theorem Reflects.overruled {t : FileTree} {file : FilePath} {v : Value} {s : Settings}
    (h : Reflects t file none v s) (reload : Option String) :
    Reflects t file reload v (s.overruled reload) := by
  cases reload with
  | none => exact h
  | some word =>
    rw [Settings.overruled]
    exact { h with reload := by dsimp only }

/-! ### Reading -/

/-- Blank documents say nothing. -/
theorem said_of_isBlank {v : Value} (h : IsBlank v) : said v = said (.map 0 []) := by
  simp only [said, saidAt, h.under?, (IsBlank.noEntries 0).under?]

/-- The settings have no choices, and a standard for every field. -/
theorem shape_isLenient : shape.IsLenient := by
  have hscalar (kind : Scalar) : (Shape.scalar kind).IsLenient :=
    .of (fun _ _ h => by cases h) (fun _ _ h => by cases h) fun t ht => absurd ht List.not_mem_nil
  have hexclude : (Shape.listOf (.scalar .text)).IsLenient :=
    .of (fun _ _ h => by cases h) (fun _ _ h => by cases h)
      (List.forall_mem_singleton.2 (hscalar .text))
  have hrecord {name : String} {fields : List (Typed.Field Shape)}
      (h : ∀ f ∈ fields, f.fallback ≠ none ∧ f.shape.IsLenient) :
      (Shape.record name fields).IsLenient := by
    refine .of (fun _ _ h => by cases h) ?_ (List.forall_mem_map.2 fun f hf => (h f hf).2)
    intro _ _ heq f hf
    cases heq
    exact (h f hf).1
  have hdelimiters : delimitersShape.IsLenient := hrecord (by simp [hscalar])
  have hcache : cacheShape.IsLenient := hrecord (by simp [hscalar])
  have htemplates : templatesShape.IsLenient := hrecord (by simp [hscalar, hexclude])
  exact hrecord (by simp [hscalar, hdelimiters, hcache, htemplates])

/-- The settings of a mapping, or the report that it does not fit. -/
theorem ofMapping_meets (name : String) {v : Value} (hv : v.IsRaw) :
    Meets (fun error => ¬Fits v ∧ ∃ path cause, error = .mismatch path cause)
      (fun s => Fits v ∧ s = said v) (ofMapping name v) := by
  rw [ofMapping]
  cases hload : load shape v name with
  | error error =>
    refine Meets.throw ⟨fun hfits => ?_, shape_isLenient.misfits hv hload⟩
    cases hload.symm.trans ((shape_reads hv name _).2 ⟨hfits, rfl⟩)
  | ok x =>
    obtain ⟨hfits, rfl⟩ := (shape_reads hv name x).1 hload
    refine Meets.pure ⟨hfits, ?_⟩
    rw [ofLoaded?_made hfits]
    rfl

/-- The settings of a document, or the report that it is not taken. -/
theorem ofDocument_meets (file : FilePath) {v : Value} (hv : v.IsRaw) :
    Meets (fun error => ¬Taken v ∧ ∀ cause, error ≠ .fault cause) (fun s => Taken v ∧ s = said v)
      (mappingOf file v >>= ofMapping file.name) := by
  by_cases hempty : v.isEmpty false = true
  · have hblank : IsBlank v := (isBlank_iff hv).1 hempty
    have hnone : (Value.map 0 []).IsRaw :=
      .map (fun _ h => absurd h List.not_mem_nil) fun _ h => absurd h List.not_mem_nil
    have hfits : Fits (.map 0 []) := by
      refine ⟨.inr ⟨0, [], rfl, fun _ h => absurd h List.not_mem_nil⟩, fun key _ u hu => ?_⟩
      rw [(IsBlank.noEntries 0).under?] at hu
      cases hu
    unfold mappingOf
    rw [if_pos hempty]
    refine (ofMapping_meets file.name hnone).mono (fun error h => absurd hfits h.1) fun s hs => ?_
    exact ⟨.inr hblank, (said_of_isBlank hblank).symm ▸ hs.2⟩
  · have hfull : ¬IsBlank v := fun hblank => hempty ((isBlank_iff hv).2 hblank)
    unfold mappingOf
    rw [if_neg hempty]
    cases hv with
    | @map label entries htexts hentries =>
      have hraw : (Value.map label entries).IsRaw := .map htexts hentries
      have hmeets := ofMapping_meets file.name hraw
      refine hmeets.mono (fun error h => ?_) fun s hs => ?_
      · obtain ⟨hfits, path, cause, rfl⟩ := h
        exact ⟨not_or.2 ⟨hfits, hfull⟩, fun _ h => by cases h⟩
      · exact ⟨.inl hs.1, hs.2⟩
    | null => exact absurd .null hfull
    | _ =>
      refine Meets.throw ⟨not_or.2 ⟨fun hfits => ?_, hfull⟩, fun _ h => by cases h⟩
      rcases hfits.1 with hnull | ⟨label, entries, hmap, -⟩
      · cases hnull
      · cases hmap

theorem anchored_of_placeable {t : FileTree} {file : FilePath} {s : Settings}
    (h : Placeable s.templates.baseDir) :
    s.anchored t file = .ok { s with
      templates := { s.templates with baseDir := placed t file s.templates.baseDir } } := by
  rw [anchored, placed]
  by_cases habsolute : (FilePath.ofText s.templates.baseDir).isAbsolute = true
  · rw [if_pos habsolute, if_pos habsolute]
    rfl
  · have hfree : s.templates.baseDir.toList.contains '\x00' = false := by
      simpa using h.resolve_left habsolute
    rw [if_neg habsolute, if_neg habsolute, hfree]
    rfl

theorem anchored_of_not_placeable {t : FileTree} {file : FilePath} {s : Settings}
    (h : ¬Placeable s.templates.baseDir) : s.anchored t file = .error (.fault unusablePath) := by
  obtain ⟨habsolute, hnull⟩ := not_or.1 h
  have hfound : s.templates.baseDir.toList.contains '\x00' = true := by simpa using hnull
  rw [anchored, if_neg habsolute, if_pos hfound]
  rfl

/-- The base directory that a document gives, if it gives one, is absolute or one that files can be
below. -/
def Based (v : Value) : Prop :=
  ∀ base : Particular String, v.under? ["templates", "base_dir"] = some (.text base) →
    Placeable base

theorem Taken.placeable_iff {v : Value} (h : Taken v) :
    Placeable (Settings.said v).templates.baseDir ↔ Based v := by
  have htemplates : ("templates", FitsTemplates) ∈ knownKeys := by simp [knownKeys]
  have hbase : Said v ["templates", "base_dir"] StandsForText "."
      (Settings.said v).templates.baseDir :=
    h.said_within htemplates (by simp) IsText.stands TemplateSettings.baseDir _ fun _ => rfl
  rw [Based]
  rcases hbase with ⟨hnone, hbase⟩ | ⟨u, hu, origin, rfl⟩
  · rw [hnone, hbase]
    exact iff_of_true (.inr (by decide)) fun _ h => by cases h
  · rw [hu]
    refine ⟨fun hplace base hbase => ?_, fun hbased => ?_⟩
    · cases hbase
      exact hplace
    · exact hbased ⟨(Settings.said v).templates.baseDir, origin⟩ rfl

section
variable {reader : Document.Reader} {t : FileTree} {given : Option FilePath} {content : String}
  {document : Document}

/-- The settings of a file that is read as a document. -/
theorem read_of_document (hfile : t.read? (fileAt t given) = some content)
    (hread : reader (heldText content) = .ok document) (reload : Option String) :
    read reader t given reload = (do
      let s ← mappingOf (fileAt t given) (document.toValue 0).1 >>= ofMapping (fileAt t given).name
      pure ((← s.anchored t (fileAt t given)).overruled reload)) := by
  rw [heldText] at hread
  rw [read, hfile, ofContent, readDocument, hread]
  simp only [pure_bind, bind_assoc]

/-- The settings of a file that is read as a document: those that the document says, or why there
are none. -/
theorem read_meets (hfile : t.read? (fileAt t given) = some content)
    (hread : reader (heldText content) = .ok document) (hraw : (document.toValue 0).1.IsRaw)
    (reload : Option String) :
    Meets
      (fun error => (¬Taken (document.toValue 0).1 ∧ ∀ cause, error ≠ .fault cause) ∨
        (Taken (document.toValue 0).1 ∧ ¬Based (document.toValue 0).1 ∧
          error = .fault unusablePath))
      (fun s => Taken (document.toValue 0).1 ∧ Based (document.toValue 0).1 ∧
        Reflects t (fileAt t given) reload (document.toValue 0).1 s)
      (read reader t given reload) := by
  rw [read_of_document hfile hread]
  refine ((ofDocument_meets (fileAt t given) hraw).mono (fun error h => .inl h) fun s hs => hs).bind
    fun s hs => ?_
  obtain ⟨htaken, rfl⟩ := hs
  by_cases hplace : Placeable (Settings.said (document.toValue 0).1).templates.baseDir
  · rw [anchored_of_placeable hplace]
    exact Meets.pure ⟨htaken, htaken.placeable_iff.1 hplace, (htaken.reflects t _).overruled reload⟩
  · rw [anchored_of_not_placeable hplace]
    exact Meets.throw (.inr ⟨htaken, fun h => hplace (htaken.placeable_iff.2 h), rfl⟩)

/-- A document under texts is accepted exactly if it is taken and no file stands in the way of its
base directory. -/
theorem read_succeeds_iff (hfile : t.read? (fileAt t given) = some content)
    (hread : reader (heldText content) = .ok document) (hraw : (document.toValue 0).1.IsRaw)
    (reload : Option String) :
    (∃ s, read reader t given reload = .ok s) ↔
      Taken (document.toValue 0).1 ∧ Based (document.toValue 0).1 := by
  have hmeets := read_meets hfile hread hraw reload
  constructor
  · rintro ⟨s, hs⟩
    obtain ⟨htaken, hbased, -⟩ := hmeets.of_ok hs
    exact ⟨htaken, hbased⟩
  · rintro ⟨htaken, hbased⟩
    cases hsettings : read reader t given reload with
    | ok s => exact ⟨s, rfl⟩
    | error error =>
      rcases hmeets.of_error hsettings with h | h
      · exact absurd htaken h.1
      · exact absurd hbased h.2.1

/-- A file whose text is refused as no document is reported, and any other refusal is passed on. -/
theorem read_of_refusal (hfile : t.read? (fileAt t given) = some content)
    {refusal : Document.ReadError} (hread : reader (heldText content) = .error refusal)
    (reload : Option String) :
    read reader t given reload = .error (match refusal with
      | .malformed => .malformed (fileAt t given).text
      | .fault cause => .fault cause) := by
  rw [heldText] at hread
  rw [read, hfile, ofContent, readDocument, hread]
  cases refusal <;> rfl

end

/-! ### The result -/

/-- What reading an existing settings file comes to, with a reader that JSON is part of. A text that
is refused as no document is reported, and a fault of its reading is passed on. JSON is accepted
exactly if the reader takes the text, the JSON fits or is blank, and it gives no base directory that
files cannot be below; the settings then reflect it. What is taken and neither fits nor is blank is
reported. -/
theorem file_accepted_iff {reader : Document.Reader} (hreader : reader.ReadsJson) (t : FileTree)
    (given : Option FilePath) (reload : Option String) {content : String}
    (hfile : t.read? (fileAt t given) = some content) :
    (reader (heldText content) = .error .malformed →
      read reader t given reload = .error (.malformed (fileAt t given).text)) ∧
    (∀ cause, reader (heldText content) = .error (.fault cause) →
      read reader t given reload = .error (.fault cause)) ∧
    ∀ json, Json.held? (heldText content) = some json → Unfolded (heldText content) →
      ∀ v, v = (json.document.toValue 0).1 →
      ((∃ s, read reader t given reload = .ok s) ↔
        (∃ document, reader (heldText content) = .ok document) ∧ (Fits v ∨ IsBlank v) ∧ Based v) ∧
      (∀ s, read reader t given reload = .ok s → Reflects t (fileAt t given) reload v s) ∧
      ∀ document, reader (heldText content) = .ok document →
        ∀ error, read reader t given reload = .error error →
          (¬(Fits v ∨ IsBlank v) ∧ ∀ cause, error ≠ .fault cause) ∨
            ((Fits v ∨ IsBlank v) ∧ ¬Based v ∧ error = .fault unusablePath) := by
  refine ⟨fun h => read_of_refusal hfile h reload, fun cause h => read_of_refusal hfile h reload,
    fun json hheld hunfolded v hv => ?_⟩
  subst hv
  have hraw := json.isRaw_document 0
  cases hread : reader (heldText content) with
  | error refusal =>
    have hrefused := read_of_refusal hfile hread reload
    refine ⟨⟨fun ⟨s, hs⟩ => ?_, fun ⟨⟨document, h⟩, _⟩ => by cases h⟩, fun s hs => ?_,
      fun document h => by cases h⟩
    · cases hs.symm.trans hrefused
    · cases hs.symm.trans hrefused
  | ok document =>
    obtain rfl := hreader.eq_document hheld hunfolded hread
    have hmeets := read_meets hfile hread hraw reload
    refine ⟨?_, fun s hs => (hmeets.of_ok hs).2.2, fun _ _ error herror => hmeets.of_error herror⟩
    rw [read_succeeds_iff hfile hread hraw reload]
    exact (and_iff_right ⟨_, rfl⟩).symm

/-- Files with a settings file. -/
def siteWith (content : String) : FileTree :=
  ⟨["site"], [(["site", "hbs.yaml"], ⟨content, 0⟩)]⟩

/-- A file that makes rendering strict and gives a base directory. -/
def strictContent : String :=
  "\x7b\"strict\": true, \"templates\": \x7b\"base_dir\": \"views\"\x7d\x7d"

/-- What it holds. -/
def strictJson : Json :=
  .object [("strict", .truth true), ("templates", .object [("base_dir", .text "views")])]

theorem held?_strictContent : Json.held? (heldText strictContent) = some strictJson := by
  have hpieces : Json.scan .between (heldText strictContent).toList =
      some [.openObject, .text "strict", .colon, .word ['t', 'r', 'u', 'e'], .comma,
        .text "templates", .colon, .openObject, .text "base_dir", .colon, .text "views",
        .closeObject, .closeObject] := by
    decide +kernel
  have hword : Json.ofWord? ['t', 'r', 'u', 'e'] = some (.truth true) := rfl
  rw [Json.held?, if_neg (by decide +kernel), Json.ofText?, hpieces]
  simp [Json.ofPieces?, Json.value, Json.members, hword, strictJson]

theorem file_accepted_iff_strict :
    Document.Reader.ReadsJson Json.reader ∧
      (siteWith strictContent).read? (fileAt (siteWith strictContent) none) = some strictContent ∧
      Json.held? (heldText strictContent) = some strictJson ∧ Unfolded (heldText strictContent) ∧
      ∃ s, read Json.reader (siteWith strictContent) none (some " ON ") = .ok s ∧
        s.strict = true ∧ s.cache.reload = true ∧ s.templates.baseDir = "/site/views" ∧
        s.templates.ending = ".hbs" := by
  have hfile : (siteWith strictContent).read? (fileAt (siteWith strictContent) none) =
      some strictContent := by decide +kernel
  have hread : Json.reader (heldText strictContent) = .ok strictJson.document := by
    rw [Json.reader, held?_strictContent]
  have hunfolded : Unfolded (heldText strictContent) := by
    have hall : (heldText strictContent).toList.all (fun c => !foldedEnds.contains c) = true := by
      decide +kernel
    intro c hc
    simpa using List.all_eq_true.1 hall c hc
  have hvalue : (strictJson.document.toValue 0).1 =
      .map 0 [(.text ⟨"strict", .given 1⟩, .bool true), (.text ⟨"templates", .given 3⟩,
        .map 4 [(.text ⟨"base_dir", .given 5⟩, .text ⟨"views", .given 6⟩)])] := rfl
  have hfits : Fits (strictJson.document.toValue 0).1 := by
    rw [hvalue]
    refine ⟨.inr ⟨0, _, rfl, by simp [knownKeys, Value.asText?]⟩, ?_⟩
    simp [knownKeys, FitsTemplates, FitsSection, Value.Within, Value.under?, Value.entry?,
      Value.asText?, IsText, IsTruth]
  have hbased : Based (strictJson.document.toValue 0).1 := by
    intro base hbase
    cases hbase
    exact .inr (by decide)
  obtain ⟨-, -, hjson⟩ :=
    file_accepted_iff Json.reader_readsJson (siteWith strictContent) none (some " ON ") hfile
  obtain ⟨hiff, hreflects, -⟩ := hjson _ held?_strictContent hunfolded _ rfl
  obtain ⟨s, hs⟩ := hiff.2 ⟨⟨_, hread⟩, .inl hfits, hbased⟩
  have hsays := hreflects s hs
  refine ⟨Json.reader_readsJson, hfile, held?_strictContent, hunfolded, s, hs, ?_, ?_, ?_, ?_⟩
  · rcases hsays.strict with ⟨hnone, -⟩ | ⟨u, hu, hstands⟩
    · cases hnone
    · cases hu
      exact (Value.bool.inj hstands).symm
  · have hreload : s.cache.reload = saysReload " ON " := hsays.reload
    rw [hreload]
    decide +kernel
  · obtain ⟨base, hbase, hplaced⟩ := hsays.baseDir
    rcases hbase with ⟨hnone, -⟩ | ⟨u, hu, hstands⟩
    · cases hnone
    · cases hu
      obtain ⟨origin, htext⟩ := hstands
      cases htext
      rw [hplaced]
      decide +kernel
  · rcases hsays.ending with ⟨-, hstandard⟩ | ⟨u, hu, -⟩
    · exact hstandard
    · cases hu

/-- The empty array neither fits nor is null, and a file that holds it is accepted. -/
theorem empty_list_accepted :
    (siteWith "[]").read? (fileAt (siteWith "[]") none) = some "[]" ∧
      Json.held? (heldText "[]") = some (.array []) ∧
      ¬Fits ((Json.array []).document.toValue 0).1 ∧
      ∃ s, read Json.reader (siteWith "[]") none none = .ok s := by
  have hfile : (siteWith "[]").read? (fileAt (siteWith "[]") none) = some "[]" := by decide +kernel
  have hpieces : Json.scan .between (heldText "[]").toList = some [.openArray, .closeArray] := by
    decide +kernel
  have hheld : Json.held? (heldText "[]") = some (.array []) := by
    rw [Json.held?, if_neg (by decide +kernel), Json.ofText?, hpieces]
    simp [Json.ofPieces?, Json.value]
  have hread : Json.reader (heldText "[]") = .ok (Json.array []).document := by
    rw [Json.reader, hheld]
  refine ⟨hfile, hheld, fun hfits => ?_, ?_⟩
  · rcases hfits.1 with hnull | ⟨label, entries, hmap, -⟩
    · cases hnull
    · cases hmap
  · refine (read_succeeds_iff hfile hread ((Json.array []).isRaw_document 0) none).2
      ⟨.inr (.noItems 0), fun base hbase => ?_⟩
    cases hbase

end Stencil.Settings
