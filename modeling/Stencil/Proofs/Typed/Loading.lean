import Stencil.Proofs.Value.Conversion
import Stencil.Settings.Basic
import Stencil.Typed.Load

/-!
# What loading comes to

A raw value is made of null, truth values, numbers and texts, lists and mappings under texts. Loading
one into a shape gives a value that belongs to the shape, or says at which path the value does not
fit. Two confrontations alone end in a fault: null meets a record that has a field without a fallback,
and an integer too long to be shown meets a choice that it is none of. Null under an optional shape
loads as null, unless a record, or a choice that null stands for, comes before it.
-/

namespace Stencil

/-- Values made of null, truth values, numbers, texts, lists, and mappings under texts. -/
inductive Value.IsRaw : Value → Prop where
  | null : IsRaw .null
  | bool (b : Bool) : IsRaw (.bool b)
  | int (n : Particular Int) : IsRaw (.int n)
  | float (x : Particular Float) : IsRaw (.float x)
  | text (s : Particular String) : IsRaw (.text s)
  | list {label : Label} {items : List Value} : (∀ v ∈ items, IsRaw v) → IsRaw (.list label items)
  | map {label : Label} {entries : List (Value × Value)} :
      (∀ entry ∈ entries, ∃ s, entry.1 = .text s) → (∀ entry ∈ entries, IsRaw entry.2) →
      IsRaw (.map label entries)

/-- Texts can be ordered. -/
theorem Value.sortKeys?_texts {keys : List Value} (h : ∀ k ∈ keys, ∃ s, k = .text s) :
    ∃ sorted, sortKeys? keys = some sorted ∧ ∀ k ∈ sorted, ∃ s, k = .text s := by
  have hless : (keys.all fun a => keys.all fun b => (less? a b).isSome) = true := by
    refine List.all_eq_true.2 fun a ha => List.all_eq_true.2 fun b hb => ?_
    obtain ⟨s, rfl⟩ := h a ha
    obtain ⟨t, rfl⟩ := h b hb
    simp [less?, isNumber, asText?]
  refine ⟨_, by rw [sortKeys?, hless, Bool.or_true, if_pos rfl], fun k hk => h k ?_⟩
  exact List.mem_mergeSort.1 hk

/-- Texts can be written out. -/
theorem Value.literals_texts {keys : List Value} (h : ∀ k ∈ keys, ∃ s, k = .text s) :
    ∃ shown, literals keys = .ok shown := by
  induction keys with
  | nil => exact ⟨[], rfl⟩
  | cons k rest ih =>
    obtain ⟨⟨s, rfl⟩, hrest⟩ := List.forall_mem_cons.1 h
    obtain ⟨others, hothers⟩ := ih hrest
    exact ⟨Text.quoted s :: others, by rw [literals, literal, hothers]; rfl⟩

namespace Typed

/-! ### Shapes and what belongs to them -/

mutual

/-- A loaded value belongs to a shape. -/
inductive Belongs : Shape → Loaded → Prop where
  | scalar {kind : Scalar} {v : Value} : kind.holds v = true → Belongs (.scalar kind) (.raw v)
  | anything (name : String) (v : Value) : Belongs (.anything name) (.raw v)
  | null : Belongs .null (.raw .null)
  | list {item : Shape} {items : List Loaded} : (∀ x ∈ items, Belongs item x) →
      Belongs (.listOf item) (.list items)
  | tuple {item : Shape} {items : List Loaded} : (∀ x ∈ items, Belongs item x) →
      Belongs (.tupleOf item) (.tuple items)
  | map {key value : Shape} {entries : List (Loaded × Loaded)} :
      (∀ entry ∈ entries, Belongs key entry.1) → (∀ entry ∈ entries, Belongs value entry.2) →
      Belongs (.mapOf key value) (.map entries)
  | variant {variants : List Shape} {variant : Shape} {x : Loaded} : variant ∈ variants →
      Belongs variant x → Belongs (.oneOf variants) x
  | choice {name choice : String} {choices : List (String × Value)} {v : Value} :
      (choice, v) ∈ choices → Belongs (.choiceOf name choices) (.choice choice)
  | record {name : String} {fields : List (Field Shape)} {values : List (String × Loaded)} :
      FieldsBelong fields values → Belongs (.record name fields) (.record name values)

/-- The fields of a record in the order they are declared, each with a value that belongs to its
shape or with its fallback. -/
inductive FieldsBelong : List (Field Shape) → List (String × Loaded) → Prop where
  | nil : FieldsBelong [] []
  | loaded {name : String} {shape : Shape} {fallback : Option Loaded} {rest : List (Field Shape)}
      {x : Loaded} {values : List (String × Loaded)} : Belongs shape x → FieldsBelong rest values →
      FieldsBelong (⟨name, shape, fallback⟩ :: rest) ((name, x) :: values)
  | leftOut {name : String} {shape : Shape} {rest : List (Field Shape)} {x : Loaded}
      {values : List (String × Loaded)} : FieldsBelong rest values →
      FieldsBelong (⟨name, shape, some x⟩ :: rest) ((name, x) :: values)

end

/-- The shapes directly inside a shape. -/
def Shape.inner : Shape → List Shape
  | listOf item | tupleOf item => [item]
  | mapOf key value => [key, value]
  | oneOf variants => variants
  | record _ fields => fields.map (·.shape)
  | _ => []

/-- What holds of a shape when it holds of the shapes inside it holds of every shape. -/
theorem Shape.induct {P : Shape → Prop} (step : ∀ s : Shape, (∀ t ∈ s.inner, P t) → P s) :
    ∀ s, P s := by
  have leaf (s : Shape) (hs : s.inner = []) : P s := step s (by simp [hs])
  refine @Shape.rec P (fun shapes => ∀ s ∈ shapes, P s) (fun fields => ∀ f ∈ fields, P f.shape)
    (fun f => P f.shape) (fun _ => leaf _ rfl) (fun _ => leaf _ rfl) (leaf _ rfl)
    (fun _ => leaf _ rfl) ?listOf ?tupleOf ?mapOf (fun _ h => step _ h) (fun _ _ => leaf _ rfl)
    ?record ?noShape ?shapes ?noField ?fields (fun _ _ _ h => h)
  case listOf | tupleOf => exact fun item h => step _ (List.forall_mem_singleton.2 h)
  case mapOf =>
    intro key value hkey hvalue
    exact step _ (List.forall_mem_cons.2 ⟨hkey, List.forall_mem_singleton.2 hvalue⟩)
  case record =>
    intro name fields h
    refine step _ fun t ht => ?_
    obtain ⟨f, hf, rfl⟩ := List.mem_map.1 ht
    exact h f hf
  case noShape | noField => exact fun _ h => absurd h List.not_mem_nil
  case shapes | fields => exact fun _ _ hfirst hrest => List.forall_mem_cons.2 ⟨hfirst, hrest⟩

/-! ### What can go wrong -/

/-- Loading a value into a shape can come to loading another one into another shape. A variant is come
to only if null, where it is the value, has not been loaded before. -/
inductive Confronts : Shape → Value → Shape → Value → Prop where
  | refl (s : Shape) (v : Value) : Confronts s v s v
  | list {item t : Shape} {label : Label} {items : List Value} {u w : Value} : u ∈ items →
      Confronts item u t w → Confronts (.listOf item) (.list label items) t w
  | tuple {item t : Shape} {label : Label} {items : List Value} {u w : Value} : u ∈ items →
      Confronts item u t w → Confronts (.tupleOf item) (.list label items) t w
  | key {key value t : Shape} {label : Label} {entries : List (Value × Value)}
      {entry : Value × Value} {w : Value} : entry ∈ entries → Confronts key entry.1 t w →
      Confronts (.mapOf key value) (.map label entries) t w
  | value {key value t : Shape} {label : Label} {entries : List (Value × Value)}
      {entry : Value × Value} {w : Value} : entry ∈ entries → Confronts value entry.2 t w →
      Confronts (.mapOf key value) (.map label entries) t w
  | variant {before after : List Shape} {variant t : Shape} {v w : Value} :
      (v.isNull = true → .null ∉ before) → Confronts variant v t w →
      Confronts (.oneOf (before ++ variant :: after)) v t w
  | field {name : String} {fields : List (Field Shape)} {f : Field Shape} {label : Label}
      {entries : List (Value × Value)} {t : Shape} {u w : Value} : f ∈ fields →
      Value.entry? f.name entries = some u → Confronts f.shape u t w →
      Confronts (.record name fields) (.map label entries) t w

/-- Why a value is not loaded into a shape: it does not fit, or it comes to one of two confrontations
that are faults. -/
inductive Refuses (s : Shape) (v : Value) : LoadError → Prop where
  | mismatch (path : String) (cause : Mismatch) : Refuses s v (.mismatch path cause)
  | nullRecord {name : String} {fields : List (Field Shape)} :
      Confronts s v (.record name fields) .null → (∃ f ∈ fields, f.fallback = none) →
      Refuses s v (.fault (incompleteRecord name))
  | overlong {name : String} {choices : List (String × Value)} {u : Value} :
      Confronts s v (.choiceOf name choices) u → u.Overlong →
      Refuses s v (.fault (.longInteger none))

/-- What is refused where a confrontation leads is refused from the start. -/
theorem Refuses.through {s t : Shape} {u v : Value} {error : LoadError}
    (hled : ∀ r w, Confronts t u r w → Confronts s v r w) (h : Refuses t u error) :
    Refuses s v error := by
  cases h with
  | mismatch path cause => exact .mismatch path cause
  | nullRecord hmet hfield => exact .nullRecord (hled _ _ hmet) hfield
  | overlong hmet hlong => exact .overlong (hled _ _ hmet) hlong

/-! ### Parts of values -/

section

variable {F : LoadError → Prop}

theorem misfit_meets {α : Type} {V : α → Prop} (hF : ∀ path cause, F (.mismatch path cause))
    (path : String) (cause : Mismatch) : Meets F V (misfit path cause) :=
  Meets.throw (hF path cause)

theorem loadItems_meets {V : Loaded → Prop} {load : Value → String → Load Loaded}
    {items : List Value} (h : ∀ v ∈ items, ∀ path, Meets F V (load v path)) (path : String)
    (index : Nat) : Meets F (fun loaded => ∀ x ∈ loaded, V x) (loadItems load path index items) := by
  induction items generalizing index with
  | nil => exact Meets.pure fun _ hx => absurd hx List.not_mem_nil
  | cons v rest ih =>
    obtain ⟨hv, hrest⟩ := List.forall_mem_cons.1 h
    rw [loadItems]
    refine (hv _).bind fun first hfirst => (ih hrest (index + 1)).bind fun others hothers => ?_
    exact Meets.pure (List.forall_mem_cons.2 ⟨hfirst, hothers⟩)

/-- An entry that is put in has a key that was there or its own, and a value that was there or its
own. -/
theorem forall_putEntry {K V : Loaded → Prop} {key value : Loaded} {done : List (Loaded × Loaded)}
    (hkey : K key) (hvalue : V value) (hdone : ∀ entry ∈ done, K entry.1 ∧ V entry.2) :
    ∀ entry ∈ Loaded.putEntry key value done, K entry.1 ∧ V entry.2 := by
  induction done with
  | nil => exact List.forall_mem_singleton.2 ⟨hkey, hvalue⟩
  | cons entry rest ih =>
    obtain ⟨k, v⟩ := entry
    obtain ⟨⟨hk, hv⟩, hrest⟩ := List.forall_mem_cons.1 hdone
    rw [Loaded.putEntry]
    split
    · exact List.forall_mem_cons.2 ⟨⟨hk, hvalue⟩, hrest⟩
    · exact List.forall_mem_cons.2 ⟨⟨hk, hv⟩, ih hrest⟩

/-- Entries under texts load one by one, if what a text loads as can be a key. -/
theorem loadEntries_meets {K V : Loaded → Prop} {loadKey loadValue : Value → String → Load Loaded}
    (hK : ∀ x, K x → x.isKey = true) {entries : List (Value × Value)}
    (htexts : ∀ entry ∈ entries, ∃ s, entry.1 = .text s)
    (hkeys : ∀ entry ∈ entries, ∀ path, Meets F K (loadKey entry.1 path))
    (hvalues : ∀ entry ∈ entries, ∀ path, Meets F V (loadValue entry.2 path)) (path : String)
    {done : List (Loaded × Loaded)} (hdone : ∀ entry ∈ done, K entry.1 ∧ V entry.2) :
    Meets F (fun loaded => ∀ entry ∈ loaded, K entry.1 ∧ V entry.2)
      (loadEntries loadKey loadValue path done entries) := by
  induction entries generalizing done with
  | nil => exact Meets.pure hdone
  | cons entry rest ih =>
    obtain ⟨k, v⟩ := entry
    obtain ⟨⟨s, hs⟩, htexts⟩ := List.forall_mem_cons.1 htexts
    obtain ⟨hkey, hkeys⟩ := List.forall_mem_cons.1 hkeys
    obtain ⟨hvalue, hvalues⟩ := List.forall_mem_cons.1 hvalues
    have hshown : ofFault (keyText k) = .ok s := by
      dsimp only at hs
      rw [hs]
      rfl
    rw [loadEntries]
    refine (hkey _).bind fun key hk => ?_
    simp only [hshown]
    refine (hvalue _).bind fun value hv => ?_
    rw [if_pos (hK key hk)]
    exact ih htexts hkeys hvalues (forall_putEntry hk hv hdone)

theorem loadFields_meets (hF : ∀ path cause, F (.mismatch path cause)) {fields : List (Field Shape)}
    {entries : List (Value × Value)}
    (h : ∀ f ∈ fields, ∀ v, Value.entry? f.name entries = some v → ∀ path,
      Meets F (Belongs f.shape) (load f.shape v path)) (path : String) :
    Meets F (FieldsBelong fields) (loadFields fields entries path) := by
  induction fields with
  | nil =>
    rw [loadFields]
    exact Meets.pure .nil
  | cons f rest ih =>
    obtain ⟨name, shape, fallback⟩ := f
    obtain ⟨hf, hrest⟩ := List.forall_mem_cons.1 h
    unfold loadFields
    dsimp only
    cases hfound : Value.entry? name entries with
    | some v =>
      refine (hf v hfound _).bind fun x hx => (ih hrest).bind fun values hvalues => ?_
      exact Meets.pure (.loaded hx hvalues)
    | none =>
      cases fallback with
      | none => exact (misfit_meets (V := fun _ => False) hF _ _).bind fun _ h => h.elim
      | some x =>
        refine (ih hrest).bind fun values hvalues => ?_
        exact Meets.pure (.leftOut hvalues)

/-- The first variant that fits decides. -/
theorem loadVariant_meets (hF : ∀ path cause, F (.mismatch path cause)) {V : Loaded → Prop}
    {v : Value} {path : String} {variants : List Shape}
    (h : ∀ before variant after, variants = before ++ variant :: after →
      (v.isNull = true → .null ∉ before) → Meets F V (load variant v path))
    (hnull : v.isNull = true → .null ∈ variants → V (.raw .null)) (reasons : List String) :
    Meets F V (loadVariant variants v path reasons) := by
  induction variants generalizing reasons with
  | nil =>
    rw [loadVariant]
    exact misfit_meets hF _ _
  | cons variant rest ih =>
    by_cases hvariant : variant = .null
    · subst hvariant
      rw [loadVariant]
      refine Meets.ite (fun hv => Meets.pure (hnull hv List.mem_cons_self)) fun hv => ?_
      refine ih (fun before variant after hrest _ => ?_) (fun hv' => absurd hv' hv) reasons
      exact h (.null :: before) variant after (congrArg _ hrest) fun hv' => absurd hv' hv
    · have hfirst := h [] variant rest rfl fun _ => List.not_mem_nil
      have hothers (reasons : List String) : Meets F V (loadVariant rest v path reasons) := by
        refine ih (fun before other after hrest hbefore => ?_)
          (fun hv hmem => hnull hv (List.mem_cons_of_mem _ hmem)) reasons
        refine h (variant :: before) other after (congrArg _ hrest) fun hv hmem => ?_
        rcases List.mem_cons.1 hmem with heq | hmem
        · exact hvariant heq.symm
        · exact hbefore hv hmem
      rw [loadVariant]
      · cases hload : load variant v path with
        | ok x =>
          rw [hload] at hfirst
          exact hfirst
        | error error =>
          rw [hload] at hfirst
          cases error with
          | fault cause => exact Meets.throw ((Meets.error_iff _).1 hfirst)
          | _ => exact hothers _
      · exact fun heq => hvariant heq

end

/-! ### Choices, keys and fallbacks -/

theorem mem_of_choose? {choices : List (String × Value)} {v : Value} {name : String}
    (h : choose? choices v = some name) : ∃ u, (name, u) ∈ choices := by
  unfold choose? at h
  split at h
  · rename_i found u hfound
    cases h
    obtain ⟨s, -, hfind⟩ := Option.bind_eq_some_iff.1 hfound
    exact ⟨u, List.mem_of_find?_eq_some hfind⟩
  · obtain ⟨⟨found, u⟩, hfind, rfl⟩ := Option.map_eq_some_iff.1 h
    exact ⟨u, List.mem_of_find?_eq_some hfind⟩

/-- Texts can be ordered and written out, so it can be said which of them are no fields. -/
theorem unknownKeys_texts (names : List String) {entries : List (Value × Value)}
    (h : ∀ entry ∈ entries, ∃ s, entry.1 = .text s) :
    ∃ shown, unknownKeys names entries = .ok shown := by
  have htexts : ∀ k ∈ (entries.map (·.1)).filter fun k => !(k.asText?.any names.contains),
      ∃ s, k = .text s := by
    intro k hk
    obtain ⟨entry, hentry, rfl⟩ := List.mem_map.1 (List.mem_filter.1 hk).1
    exact h entry hentry
  obtain ⟨sorted, hsorted, htexts⟩ := Value.sortKeys?_texts htexts
  obtain ⟨shown, hshown⟩ := Value.literals_texts htexts
  refine ⟨shown, ?_⟩
  rw [unknownKeys, hsorted]
  dsimp only
  rw [hshown]
  rfl

theorem mem_of_entry? {name : String} {entries : List (Value × Value)} {v : Value}
    (h : Value.entry? name entries = some v) : ∃ k, (k, v) ∈ entries := by
  induction entries with
  | nil => cases h
  | cons entry rest ih =>
    obtain ⟨k, u⟩ := entry
    rw [Value.entry?] at h
    split at h
    · cases h
      exact ⟨k, List.mem_cons_self⟩
    · obtain ⟨k', hmem⟩ := ih h
      exact ⟨k', List.mem_cons_of_mem _ hmem⟩

/-- The fallbacks of all fields make up the record, unless one of them is missing. -/
theorem fallbacks?_cases (fields : List (Field Shape)) :
    (∃ known, fallbacks? fields = some known ∧ FieldsBelong fields known) ∨
      fallbacks? fields = none ∧ ∃ f ∈ fields, f.fallback = none := by
  induction fields with
  | nil => exact .inl ⟨[], rfl, .nil⟩
  | cons f rest ih =>
    obtain ⟨name, shape, fallback⟩ := f
    cases fallback with
    | none => exact .inr ⟨rfl, _, List.mem_cons_self, rfl⟩
    | some x =>
      rcases ih with ⟨known, hknown, hbelong⟩ | ⟨hnone, f, hf, hfallback⟩
      · exact .inl ⟨(name, x) :: known, by rw [fallbacks?, hknown], .leftOut hbelong⟩
      · exact .inr ⟨by rw [fallbacks?, hnone], f, List.mem_cons_of_mem _ hf, hfallback⟩

/-! ### Loading -/

/-- Every raw value loads as a value that belongs to the shape, and as one that can be a key if it is a
text, or else it is refused. -/
def Shape.Decides (s : Shape) : Prop :=
  ∀ {v : Value}, v.IsRaw → ∀ path, Meets (Refuses s v)
    (fun x => Belongs s x ∧ (v.asText?.isSome = true → x.isKey = true)) (load s v path)

theorem keyable_of_asText? {v : Value} (h : v.asText?.isSome = true) :
    Loaded.keyable v = true := by
  cases v with
  | text | safe => rfl
  | _ => exact absurd h Bool.false_ne_true

section

variable {s : Shape} {v : Value} {α : Type} {V : α → Prop}

theorem misfit_refuses (path : String) (cause : Mismatch) :
    Meets (Refuses s v) V (misfit path cause) :=
  misfit_meets .mismatch path cause

/-- The items of a list load or are refused if they do so one by one. -/
theorem loadItems_decides {item : Shape} (hdecides : item.Decides) {items : List Value}
    (hraw : ∀ u ∈ items, u.IsRaw)
    (hled : ∀ u ∈ items, ∀ t w, Confronts item u t w → Confronts s v t w) (path : String) :
    Meets (Refuses s v) (fun loaded => ∀ x ∈ loaded, Belongs item x)
      (loadItems (fun u p => load item u p) path 0 items) :=
  loadItems_meets (fun u hu p => (hdecides (hraw u hu) p).mono
    (fun _ hf => hf.through (hled u hu)) fun _ hx => hx.1) path 0

end

namespace Shape.Decides

attribute [local simp] load

theorem scalar (kind : Scalar) : (Shape.scalar kind).Decides := by
  intro v _ path
  rw [load]
  refine Meets.ite (fun hholds => Meets.pure ⟨.scalar hholds, fun htext => ?_⟩) fun _ =>
    misfit_refuses _ _
  rw [Loaded.isKey]
  exact keyable_of_asText? htext

theorem anything (name : String) : (Shape.anything name).Decides := by
  intro v _ path
  rw [load]
  refine Meets.pure ⟨.anything name v, fun htext => ?_⟩
  rw [Loaded.isKey]
  exact keyable_of_asText? htext

theorem listOf {item : Shape} (h : item.Decides) : (Shape.listOf item).Decides := by
  intro v hv path
  cases hv with
  | list hitems =>
    rw [load]
    refine (loadItems_decides h hitems (fun u hu _ _ => .list hu) path).bind fun loaded hx => ?_
    exact Meets.pure ⟨.list hx, fun htext => absurd htext Bool.false_ne_true⟩
  | _ => simpa using misfit_refuses _ _

theorem tupleOf {item : Shape} (h : item.Decides) : (Shape.tupleOf item).Decides := by
  intro v hv path
  cases hv with
  | list hitems =>
    rw [load]
    refine (loadItems_decides h hitems (fun u hu _ _ => .tuple hu) path).bind fun loaded hx => ?_
    exact Meets.pure ⟨.tuple hx, fun htext => absurd htext Bool.false_ne_true⟩
  | _ => simpa using misfit_refuses _ _

/-- The keys of a mapping are texts, so what they load as can be keys. -/
theorem mapOf {key value : Shape} (hkey : key.Decides) (hvalue : value.Decides) :
    (Shape.mapOf key value).Decides := by
  intro v hv path
  cases hv with
  | @map label entries htexts hentries =>
    have hkeys : ∀ entry ∈ entries, ∀ p, Meets (Refuses (.mapOf key value) (.map label entries))
        (fun x => Belongs key x ∧ x.isKey = true) (load key entry.1 p) := by
      intro entry hentry p
      obtain ⟨t, ht⟩ := htexts entry hentry
      have hraw : entry.1.IsRaw := ht ▸ .text t
      refine (hkey hraw p).mono (fun _ hf => hf.through fun _ _ => .key hentry) fun x hx => ?_
      exact ⟨hx.1, hx.2 (by rw [ht]; rfl)⟩
    have hvalues : ∀ entry ∈ entries, ∀ p, Meets (Refuses (.mapOf key value) (.map label entries))
        (Belongs value) (load value entry.2 p) := fun entry hentry p =>
      (hvalue (hentries entry hentry) p).mono (fun _ hf => hf.through fun _ _ => .value hentry)
        fun _ hx => hx.1
    rw [load]
    refine (loadEntries_meets (fun _ hx => hx.2) htexts hkeys hvalues path
      fun _ h => absurd h List.not_mem_nil).bind fun loaded hloaded => Meets.pure ⟨.map ?_ ?_, ?_⟩
    · exact fun entry hentry => (hloaded entry hentry).1.1
    · exact fun entry hentry => (hloaded entry hentry).2
    · exact fun htext => absurd htext Bool.false_ne_true
  | _ => simpa using misfit_refuses _ _

theorem oneOf {variants : List Shape} (h : ∀ variant ∈ variants, variant.Decides) :
    (Shape.oneOf variants).Decides := by
  intro v hv path
  rw [load]
  refine loadVariant_meets .mismatch (fun before variant after hvariants hbefore => ?_)
    (fun hnull hmem => ⟨.variant hmem .null, fun _ => rfl⟩) []
  have hmem : variant ∈ variants := by simp [hvariants]
  refine (h variant hmem hv path).mono (fun _ hf => ?_) fun _ hx => ⟨.variant hmem hx.1, hx.2⟩
  subst hvariants
  exact hf.through fun _ _ => .variant hbefore

/-- A value that is no choice is shown in the message, which an integer in it may be too long for. -/
theorem choiceOf (name : String) (choices : List (String × Value)) :
    (Shape.choiceOf name choices).Decides := by
  intro v _ path
  rw [load]
  cases hchosen : choose? choices v with
  | some choice =>
    obtain ⟨u, hu⟩ := mem_of_choose? hchosen
    exact Meets.pure ⟨.choice hu, fun _ => rfl⟩
  | none =>
    cases hliteral : v.literal with
    | ok shown => exact misfit_refuses _ _
    | error cause =>
      obtain ⟨rfl, hlong⟩ := (Value.literal_faultsAt v).of_error hliteral
      exact Meets.throw (.overlong (.refl _ _) hlong)

theorem record (name : String) {fields : List (Field Shape)} (h : ∀ f ∈ fields, f.shape.Decides) :
    (Shape.record name fields).Decides := by
  intro v hv path
  cases hv with
  | null =>
    rw [load]
    rcases fallbacks?_cases fields with ⟨known, hknown, hbelong⟩ | ⟨hnone, hfield⟩
    · rw [hknown]
      exact Meets.pure ⟨.record hbelong, fun htext => absurd htext Bool.false_ne_true⟩
    · rw [hnone]
      exact Meets.throw (.nullRecord (.refl _ _) hfield)
  | @map label entries htexts hentries =>
    have hfields : ∀ f ∈ fields, ∀ u, Value.entry? f.name entries = some u → ∀ p,
        Meets (Refuses (.record name fields) (.map label entries)) (Belongs f.shape)
          (load f.shape u p) := by
      intro f hf u hu p
      obtain ⟨k, hmem⟩ := mem_of_entry? hu
      exact (h f hf (hentries _ hmem) p).mono
        (fun _ hrefused => hrefused.through fun _ _ => .field hf hu) fun _ hx => hx.1
    obtain ⟨shown, hshown⟩ := unknownKeys_texts (fields.map (·.name)) htexts
    rw [load, hshown]
    refine Meets.ite (fun _ => ?_) fun _ => misfit_refuses _ _
    refine (loadFields_meets .mismatch hfields path).bind fun values hvalues => ?_
    exact Meets.pure ⟨.record hvalues, fun htext => absurd htext Bool.false_ne_true⟩
  | _ => simpa using misfit_refuses _ _

end Shape.Decides

/-- Every shape decides all raw values, by induction on the shape. -/
theorem Shape.decides (s : Shape) : s.Decides := by
  induction s using Shape.induct with
  | step s ih =>
    cases s with
    | scalar kind => exact Decides.scalar kind
    | anything name => exact Decides.anything name
    | null | unsupported =>
      intro v _ path
      rw [load]
      exact misfit_refuses _ _
    | listOf item => exact Decides.listOf (ih item List.mem_cons_self)
    | tupleOf item => exact Decides.tupleOf (ih item List.mem_cons_self)
    | mapOf key value =>
      exact Decides.mapOf (ih key List.mem_cons_self)
        (ih value (List.mem_cons_of_mem _ List.mem_cons_self))
    | oneOf variants => exact Decides.oneOf ih
    | choiceOf name choices => exact Decides.choiceOf name choices
    | record name fields => exact Decides.record name fun f hf => ih _ (List.mem_map_of_mem hf)

/-! ### Null -/

/-- Null under the shape comes to a record, or to a choice that null stands for. -/
def Shape.TakesNull (s : Shape) : Prop :=
  (∃ name fields, Confronts s .null (.record name fields) .null) ∨
    ∃ name choices choice, Confronts s .null (.choiceOf name choices) .null ∧
      (choice, .null) ∈ choices

theorem Shape.TakesNull.through {s t : Shape}
    (hled : ∀ r w, Confronts t .null r w → Confronts s .null r w) (h : t.TakesNull) :
    s.TakesNull := by
  rcases h with ⟨name, fields, hmet⟩ | ⟨name, choices, choice, hmet, hmem⟩
  · exact .inl ⟨name, fields, hled _ _ hmet⟩
  · exact .inr ⟨name, choices, choice, hled _ _ hmet, hmem⟩

/-- Null loads as null, does not fit, or is taken for something else. -/
def Shape.PassesNull (s : Shape) : Prop :=
  ∀ path, load s .null path = .ok (.raw .null) ∨
    (∃ p cause, load s .null path = .error (.mismatch p cause)) ∨ s.TakesNull

/-- Null is tried on the variants in turn, as far as the null among them. -/
theorem loadVariant_null {P : Prop} {variants : List Shape} {path : String}
    (h : ∀ before variant after, variants = before ++ variant :: after → .null ∉ before →
      load variant .null path = .ok (.raw .null) ∨
        (∃ p cause, load variant .null path = .error (.mismatch p cause)) ∨ P)
    (reasons : List String) :
    loadVariant variants .null path reasons = .ok (.raw .null) ∨
      (.null ∉ variants ∧
        ∃ p cause, loadVariant variants .null path reasons = .error (.mismatch p cause)) ∨ P := by
  induction variants generalizing reasons with
  | nil =>
    refine .inr (.inl ⟨List.not_mem_nil, path, .noVariant reasons, ?_⟩)
    rw [loadVariant]
    rfl
  | cons variant rest ih =>
    by_cases hvariant : variant = .null
    · subst hvariant
      refine .inl ?_
      rw [loadVariant]
      rfl
    · rw [loadVariant]
      · rcases h [] variant rest rfl List.not_mem_nil with hload | ⟨p, cause, hload⟩ | hP
        · rw [hload]
          exact .inl rfl
        · rw [hload]
          have hrest := ih (fun before other after hrest hbefore => ?_)
            (reasons ++ [(LoadError.mismatch p cause).message])
          · rcases hrest with hok | ⟨hnot, p', cause', herror⟩ | hP
            · exact .inl hok
            · exact .inr (.inl ⟨List.not_mem_cons_of_ne_of_not_mem (Ne.symm hvariant) hnot, p',
                cause', herror⟩)
            · exact .inr (.inr hP)
          · refine h (variant :: before) other after (congrArg _ hrest) ?_
            exact List.not_mem_cons_of_ne_of_not_mem (Ne.symm hvariant) hbefore
        · exact .inr (.inr hP)
      · exact hvariant

/-- Null under an optional shape loads as null, unless a variant before the null takes it. -/
theorem oneOf_null {variants : List Shape} (h : ∀ variant ∈ variants, variant.PassesNull)
    (path : String) :
    load (.oneOf variants) .null path = .ok (.raw .null) ∨
      (.null ∉ variants ∧
        ∃ p cause, load (.oneOf variants) .null path = .error (.mismatch p cause)) ∨
      (Shape.oneOf variants).TakesNull := by
  rw [load]
  refine loadVariant_null (fun before variant after hvariants hbefore => ?_) []
  have hmem : variant ∈ variants := by simp [hvariants]
  refine (h variant hmem path).imp id fun h => h.imp id fun htakes => ?_
  subst hvariants
  exact htakes.through fun _ _ => .variant fun _ => hbefore

/-- Null is the same key as null only. -/
theorem eq_null_of_sameKey {v : Value} (h : v.sameKey .null = true) : v = .null := by
  cases v with
  | null => rfl
  | float x =>
    unfold Value.sameKey at h
    cases hwhole : Value.wholeOf? x <;> simp [Value.wholeKey?, Value.asText?, Value.same, hwhole] at h
  | _ => simp [Value.sameKey, Value.wholeKey?, Value.asText?, Value.same] at h

/-- Null passes every shape, by induction on the shape. -/
theorem Shape.passesNull (s : Shape) : s.PassesNull := by
  induction s using Shape.induct with
  | step s ih =>
    intro path
    cases s with
    | scalar kind =>
      refine .inr (.inl ⟨path, .expected kind.name "NoneType", ?_⟩)
      cases kind <;> rfl
    | anything name => exact .inl rfl
    | null => exact .inr (.inl ⟨path, .unsupported "NoneType", rfl⟩)
    | unsupported name => exact .inr (.inl ⟨path, .unsupported name, rfl⟩)
    | listOf item => exact .inr (.inl ⟨path, .expected "list" "NoneType", rfl⟩)
    | tupleOf item => exact .inr (.inl ⟨path, .expected "list" "NoneType", rfl⟩)
    | mapOf key value => exact .inr (.inl ⟨path, .expected "dict" "NoneType", rfl⟩)
    | oneOf variants =>
      exact (oneOf_null ih path).imp id fun h => h.imp (fun h => h.2) id
    | choiceOf name choices =>
      cases hchosen : choose? choices .null with
      | none =>
        refine .inr (.inl ⟨path, .expectedChoice name "None", ?_⟩)
        rw [load, hchosen]
        rfl
      | some choice =>
        obtain ⟨⟨found, v⟩, hfind, rfl⟩ := Option.map_eq_some_iff.1 hchosen
        have hsame := List.find?_some hfind
        have hv : v = .null := eq_null_of_sameKey hsame
        have hmem := List.mem_of_find?_eq_some hfind
        exact .inr (.inr (.inr ⟨name, choices, found, .refl _ _, hv ▸ hmem⟩))
    | record name fields => exact .inr (.inr (.inl ⟨name, fields, .refl _ _⟩))

/-! ### The result -/

/-- A raw value loads as a value that belongs to the shape, or it is refused: it does not fit, or null
has met a record with a field that has no fallback, or an integer too long to be shown has met a
choice. Null under a shape that allows for it loads as null, unless it comes to a record or to a
choice that null stands for first. -/
theorem load_belongs_or_refuses (s : Shape) {v : Value} (hv : v.IsRaw) (path : String) :
    ((∃ x, load s v path = .ok x ∧ Belongs s x) ∨
      ∃ error, load s v path = .error error ∧ Refuses s v error) ∧
    ∀ variants, .null ∈ variants → load (.oneOf variants) .null path = .ok (.raw .null) ∨
      (Shape.oneOf variants).TakesNull := by
  constructor
  · have hdecides := s.decides hv path
    cases hload : load s v path with
    | ok x => exact .inl ⟨x, rfl, (hdecides.of_ok hload).1⟩
    | error error => exact .inr ⟨error, rfl, hdecides.of_error hload⟩
  · intro variants hnull
    rcases oneOf_null (fun variant _ => variant.passesNull) path with hok | ⟨hnot, -⟩ | htakes
    · exact .inl hok
    · exact absurd hnull hnot
    · exact .inr htakes

/-- The shape of a server: a port, tags that may be left out, and a mode that may be null. -/
def serverShape : Shape :=
  .record "Server" [⟨"port", .scalar .integer, none⟩,
    ⟨"tags", .listOf (.scalar .text), some (.list [])⟩,
    ⟨"mode", .oneOf [.choiceOf "Mode" [("FAST", .text "fast"), ("SAFE", .text "safe")], .null], none⟩]

/-- A server without tags and without a mode. -/
def plainServer : Value := .map 0 [(.text "port", .int 80), (.text "mode", .null)]

theorem load_belongs_or_refuses_server :
    plainServer.IsRaw ∧ ∃ x, load serverShape plainServer "$" = .ok x ∧ Belongs serverShape x := by
  have hraw : plainServer.IsRaw := by
    refine .map (fun entry hentry => ?_) fun entry hentry => ?_
    · rcases List.mem_cons.1 hentry with rfl | hentry
      · exact ⟨"port", rfl⟩
      · rw [List.mem_singleton.1 hentry]
        exact ⟨"mode", rfl⟩
    · rcases List.mem_cons.1 hentry with rfl | hentry
      · exact .int 80
      · rw [List.mem_singleton.1 hentry]
        exact .null
  refine ⟨hraw, ?_⟩
  have hload : load serverShape plainServer "$" = .ok (.record "Server"
      [("port", .raw (.int 80)), ("tags", .list []), ("mode", .raw .null)]) := by
    with_unfolding_all rfl
  rcases (load_belongs_or_refuses serverShape hraw "$").1 with hbelongs | ⟨error, herror, -⟩
  · exact hbelongs
  · cases hload.symm.trans herror

/-- Null for a record with a field that must be there is a fault, though the empty mapping, which does
not fit either, is reported with the path of the field. Null under an optional record of fallbacks is
the record. An integer with too many figures to be shown is a fault where it is no choice. -/
theorem null_not_loaded_as_null :
    load (.record "Inner" [⟨"name", .scalar .text, none⟩]) .null "$" =
        .error (.fault (incompleteRecord "Inner")) ∧
      load (.record "Inner" [⟨"name", .scalar .text, none⟩]) (.map 0 []) "$" =
        .error (.mismatch "$.name" .missingField) ∧
      load (.oneOf [Settings.delimitersShape, .null]) .null "$" =
        .ok (Settings.loadedDelimiters .standard) ∧
      load (.choiceOf "Mode" [("FAST", .text "fast")]) (.int (Nat.pow 10 Fault.digitLimit : Int)) "$" =
        .error (.fault (.longInteger none)) := by
  refine ⟨rfl, by with_unfolding_all rfl, rfl, ?_⟩
  have hshown : (Value.int (Nat.pow 10 Fault.digitLimit : Int)).literal =
      .error (.longInteger none) := by
    rw [Value.literal, Decimal.writeInteger, Int.natAbs_natCast, if_neg (Nat.lt_irrefl _)]
    rfl
  have hchosen (n : Particular Int) : choose? [("FAST", .text "fast")] (.int n) = none := rfl
  rw [load, hchosen]
  dsimp only
  rw [hshown]
  rfl

end Typed

end Stencil
