import Mathlib.Data.List.Forall2
import Stencil.Proofs.Typed.Loading

/-!
# Loading records of fallbacks

A record whose fields all have fallbacks is loaded from null, and from a mapping that has no keys
but its fields and in which every field that is there loads. Each field is then what its own value
loads as, or its fallback. Whether a value loads, and as what, has nothing to do with the path that
messages call it by.
-/

namespace Stencil

namespace Value

/-- The value under keys, one within the other. -/
def under? : List String → Value → Option Value
  | [], v => some v
  | key :: rest, .map _ entries => (Value.entry? key entries).bind (under? rest)
  | _ :: _, _ => none

theorem under?_cons (key : String) (rest : List String) (v : Value) :
    v.under? (key :: rest) = (v.under? [key]).bind (under? rest) := by
  cases v with
  | map label entries =>
    rw [under?, under?]
    cases entry? key entries with
    | none => rfl
    | some u => rfl
  | _ => rfl

/-- Null, or a mapping without other keys than some. -/
def Within (keys : List String) (v : Value) : Prop :=
  v = .null ∨ ∃ label entries, v = .map label entries ∧
    ∀ entry ∈ entries, ∃ key ∈ keys, entry.1.asText? = some key

theorem IsRaw.under? {v u : Value} (hv : v.IsRaw) {key : String} (h : v.under? [key] = some u) :
    u.IsRaw := by
  cases hv with
  | map _ hentries =>
    obtain ⟨w, hentry, hw⟩ := Option.bind_eq_some_iff.1 h
    cases hw
    obtain ⟨k, hmem⟩ := Typed.mem_of_entry? hentry
    exact hentries _ hmem
  | _ => cases h

theorem literals_length {keys : List Value} {shown : List String} (h : literals keys = .ok shown) :
    shown.length = keys.length := by
  induction keys generalizing shown with
  | nil =>
    cases h
    rfl
  | cons k rest ih =>
    rw [literals] at h
    cases hfirst : literal k with
    | error cause =>
      rw [hfirst] at h
      cases h
    | ok first =>
      cases hothers : literals rest with
      | error cause =>
        rw [hfirst, hothers] at h
        cases h
      | ok others =>
        rw [hfirst, hothers] at h
        cases h
        exact congrArg _ (ih hothers)

end Value

namespace Typed

/-- All keys of a mapping are known exactly if there are none to be named in a message. -/
theorem unknownKeys_isEmpty (names : List String) {entries : List (Value × Value)}
    (h : ∀ entry ∈ entries, ∃ s, entry.1 = .text s) :
    ∃ shown, unknownKeys names entries = .ok shown ∧
      (shown.isEmpty = true ↔ ∀ entry ∈ entries, ∃ name ∈ names, entry.1.asText? = some name) := by
  let unknown := (entries.map (·.1)).filter fun k => !(k.asText?.any names.contains)
  have htexts : ∀ k ∈ unknown, ∃ s, k = .text s := by
    intro k hk
    obtain ⟨entry, hentry, rfl⟩ := List.mem_map.1 (List.mem_filter.1 hk).1
    exact h entry hentry
  have hknown : unknown = [] ↔
      ∀ entry ∈ entries, ∃ name ∈ names, entry.1.asText? = some name := by
    rw [List.filter_eq_nil_iff, List.forall_mem_map]
    refine forall_congr' fun entry => forall_congr' fun hentry => ?_
    obtain ⟨s, hs⟩ := h entry hentry
    simp [hs, Value.asText?]
  obtain ⟨shown, hshown⟩ := unknownKeys_texts names h
  refine ⟨shown, hshown, ?_⟩
  rw [← hknown, List.isEmpty_iff_length_eq_zero, ← List.length_eq_zero_iff]
  rw [unknownKeys] at hshown
  cases hsorted : Value.sortKeys? unknown with
  | none =>
    rw [hsorted] at hshown
    cases hshown
  | some keys =>
    have hlength : keys.length = unknown.length := by
      rw [Value.sortKeys?] at hsorted
      split at hsorted
      · cases hsorted
        exact List.length_mergeSort _
      · cases hsorted
    rw [hsorted] at hshown
    cases hliterals : Value.literals keys with
    | error cause =>
      simp only [hliterals] at hshown
      cases hshown
    | ok found =>
      simp only [hliterals] at hshown
      cases hshown
      rw [Value.literals_length hliterals, hlength]

/-- A field of a record is loaded from a value: it is what the value under its name loads as, or its
fallback if there is none. -/
def LoadsField (v : Value) (path : String) (f : Field Shape) (loaded : String × Loaded) : Prop :=
  loaded.1 = f.name ∧
    (∀ u, v.under? [f.name] = some u → load f.shape u s!"{path}.{f.name}" = .ok loaded.2) ∧
    (v.under? [f.name] = none → f.fallback = some loaded.2)

theorem fallbacks?_eq_some_iff {fields : List (Field Shape)} {values : List (String × Loaded)}
    (path : String) :
    fallbacks? fields = some values ↔ List.Forall₂ (LoadsField .null path) fields values := by
  have hfield (f : Field Shape) (loaded : String × Loaded) :
      LoadsField .null path f loaded ↔ loaded.1 = f.name ∧ f.fallback = some loaded.2 := by
    simp [LoadsField, Value.under?]
  induction fields generalizing values with
  | nil => simp [fallbacks?, eq_comm]
  | cons f rest ih =>
    cases values with
    | nil =>
      rw [fallbacks?]
      cases f.fallback <;> cases fallbacks? rest <;> simp
    | cons loaded others =>
      rw [fallbacks?, List.forall₂_cons, hfield]
      simp only [← ih]
      cases f.fallback <;> cases fallbacks? rest <;> simp [Prod.ext_iff, and_assoc, eq_comm]

theorem misfit_ne_ok {α : Type} (path : String) (cause : Mismatch) (x : α) :
    misfit path cause ≠ .ok x := by
  intro h
  cases h

theorem loadFields_eq_ok_iff {fields : List (Field Shape)} {label : Label}
    {entries : List (Value × Value)} {path : String} {values : List (String × Loaded)} :
    loadFields fields entries path = .ok values ↔
      List.Forall₂ (LoadsField (.map label entries) path) fields values := by
  induction fields generalizing values with
  | nil =>
    rw [loadFields, List.forall₂_nil_left_iff]
    exact ⟨fun h => by cases h; rfl, fun h => h ▸ rfl⟩
  | cons f rest ih =>
    obtain ⟨name, shape, fallback⟩ := f
    unfold loadFields
    dsimp only
    cases values with
    | nil =>
      cases Value.entry? name entries <;> cases fallback <;>
        simp [bind_eq_ok_iff, pure, Except.pure]
    | cons loaded others =>
      have hunder : (Value.map label entries).under? [name] = Value.entry? name entries :=
        Option.bind_fun_some _
      rw [List.forall₂_cons, LoadsField, hunder]
      simp only [← ih, @eq_comm _ loaded.1]
      cases Value.entry? name entries <;> cases fallback <;>
        simp [bind_eq_ok_iff, pure, Except.pure, misfit_ne_ok, Prod.ext_iff, and_comm, and_assoc,
          and_left_comm]

/-- A record of fallbacks loads from null and from mappings of its fields, field by field. -/
theorem load_record_eq_ok_iff {name : String} {fields : List (Field Shape)} {v : Value}
    (hv : v.IsRaw) {path : String} {x : Loaded} :
    load (.record name fields) v path = .ok x ↔ v.Within (fields.map (·.name)) ∧
      ∃ values, x = .record name values ∧ List.Forall₂ (LoadsField v path) fields values := by
  cases hv with
  | null =>
    rw [load]
    simp only [← fallbacks?_eq_some_iff, Value.Within, true_or, true_and]
    cases fallbacks? fields with
    | none => simp [throw, throwThe, MonadExceptOf.throw]
    | some known => simp [pure, Except.pure, eq_comm]
  | @map label entries htexts hentries =>
    obtain ⟨shown, hshown, hknown⟩ := unknownKeys_isEmpty (fields.map (·.name)) htexts
    have hwithin : (Value.map label entries).Within (fields.map (·.name)) ↔
        shown.isEmpty = true := by
      rw [hknown]
      simp [Value.Within]
    rw [load, bind_eq_ok_iff, hwithin]
    simp only [hshown, Except.ok.injEq, exists_eq_left', ← loadFields_eq_ok_iff]
    by_cases hempty : shown.isEmpty = true
    · rw [if_pos hempty, bind_eq_ok_iff, and_iff_right hempty]
      refine exists_congr fun values => ?_
      rw [and_comm]
      exact and_congr_left' ⟨fun h => by cases h; rfl, fun h => h ▸ rfl⟩
    · simp [hempty, misfit_ne_ok]
  | _ => simp [load, Value.Within, misfit_ne_ok]

/-! ### Shapes that read -/

/-- A shape takes the raw values of which `P` holds, as `made` makes them. -/
def Shape.Reads (s : Shape) (P : Value → Prop) (made : Value → Loaded) : Prop :=
  ∀ ⦃v : Value⦄, v.IsRaw → ∀ path x, load s v path = .ok x ↔ P v ∧ x = made v

/-- What a value loads as under a key, or the fallback if nothing is there. -/
def madeAt (made : Value → Loaded) (key : String) (fallback : Loaded) (v : Value) : Loaded :=
  ((v.under? [key]).map made).getD fallback

theorem Shape.Reads.loadsField_iff {s : Shape} {P : Value → Prop} {made : Value → Loaded}
    (h : s.Reads P made) {v : Value} (hv : v.IsRaw) (path name : String) (fallback : Loaded)
    (loaded : String × Loaded) :
    LoadsField v path ⟨name, s, some fallback⟩ loaded ↔
      (∀ u, v.under? [name] = some u → P u) ∧ loaded = (name, madeAt made name fallback v) := by
  rw [LoadsField, madeAt]
  cases hfound : v.under? [name] with
  | none => simp [Prod.ext_iff, eq_comm]
  | some u =>
    simp only [Option.some.injEq, forall_eq', h (hv.under? hfound), Prod.ext_iff]
    simp [and_left_comm]

/-! ### Shapes that refuse by misfits only -/

/-- Shapes without choices in which every field of a record has a fallback. -/
inductive Shape.IsLenient : Shape → Prop where
  | of {s : Shape} : (∀ name choices, s ≠ .choiceOf name choices) →
      (∀ name fields, s = .record name fields → ∀ f ∈ fields, f.fallback ≠ none) →
      (∀ t ∈ s.inner, t.IsLenient) → s.IsLenient

theorem Shape.IsLenient.inner {s t : Shape} (hs : s.IsLenient) (ht : t ∈ s.inner) :
    t.IsLenient := by
  cases hs with
  | of _ _ hinner => exact hinner t ht

theorem Confronts.isLenient {s t : Shape} {v w : Value} (h : Confronts s v t w)
    (hs : s.IsLenient) : t.IsLenient := by
  induction h with
  | refl => exact hs
  | list _ _ ih | tuple _ _ ih | key _ _ ih => exact ih (hs.inner List.mem_cons_self)
  | value _ _ ih => exact ih (hs.inner (List.mem_cons_of_mem _ List.mem_cons_self))
  | variant _ _ ih => exact ih (hs.inner (List.mem_append_right _ List.mem_cons_self))
  | field hf _ _ ih => exact ih (hs.inner (List.mem_map_of_mem hf))

theorem Shape.IsLenient.misfits {s : Shape} (hs : s.IsLenient) {v : Value} (hv : v.IsRaw)
    {path : String} {error : LoadError} (h : load s v path = .error error) :
    ∃ p cause, error = .mismatch p cause := by
  cases (s.decides hv path).of_error h with
  | mismatch p cause => exact ⟨p, cause, rfl⟩
  | nullRecord hmet hfield =>
    obtain ⟨f, hf, hnone⟩ := hfield
    cases hmet.isLenient hs with
    | of _ hfallback _ => exact absurd hnone (hfallback _ _ rfl f hf)
  | overlong hmet _ =>
    cases hmet.isLenient hs with
    | of hchoice _ _ => exact absurd rfl (hchoice _ _)

end Typed

end Stencil
