import Mathlib.Data.List.Forall2
import Stencil.Cache
import Stencil.Loader.Basic
import Stencil.Render.SideChannel

/-!
# Tables by name

Caches, sources in memory, frames and bindings are all lists of pairs into which an entry is put in
the same way: in place of the one of its name, or last. What reading finds afterwards is shown once.
-/

namespace Stencil

namespace Table

variable {α β : Type}

/-- An entry put into a table: in place of the one of its name, or last. -/
def put (name : String) (a : α) : List (String × α) → List (String × α)
  | [] => [(name, a)]
  | (n, b) :: rest => if n == name then (n, a) :: rest else (n, b) :: put name a rest

theorem lookup_cons_self (name : String) (a : α) (rest : List (String × α)) :
    ((name, a) :: rest).lookup name = some a := by
  simp

theorem lookup_cons_of_ne {name other : String} (h : other ≠ name) (a : α)
    (rest : List (String × α)) : ((name, a) :: rest).lookup other = rest.lookup other := by
  have hb : (other == name) = false := by simpa using h
  simp [List.lookup_cons, hb]

/-- A name finds what was put under it, and every other name what it found before. -/
theorem lookup_put (name other : String) (a : α) (table : List (String × α)) :
    (put name a table).lookup other = if other = name then some a else table.lookup other := by
  induction table with
  | nil =>
    by_cases h : other = name
    · subst h
      rw [if_pos rfl, put, lookup_cons_self]
    · rw [if_neg h, put, lookup_cons_of_ne h]
  | cons entry rest ih =>
    obtain ⟨n, b⟩ := entry
    unfold put
    by_cases hn : n = name
    · subst hn
      rw [if_pos (beq_self_eq_true n)]
      by_cases ho : other = n
      · subst ho
        rw [if_pos rfl, lookup_cons_self]
      · rw [if_neg ho, lookup_cons_of_ne ho, lookup_cons_of_ne ho]
    · rw [if_neg (by simpa using hn)]
      by_cases ho : other = n
      · subst ho
        rw [if_neg hn, lookup_cons_self, lookup_cons_self]
      · rw [lookup_cons_of_ne ho, lookup_cons_of_ne ho, ih]

/-- Without the entries of a name, that name finds nothing, and every other name what it found. -/
theorem lookup_without (name other : String) (table : List (String × α)) :
    (table.filter fun (n, _) => n != name).lookup other =
      if other = name then none else table.lookup other := by
  induction table with
  | nil => exact (ite_self none).symm
  | cons entry rest ih =>
    obtain ⟨n, b⟩ := entry
    by_cases hn : n = name
    · subst hn
      rw [List.filter_cons_of_neg (by simp), ih]
      by_cases ho : other = n
      · rw [if_pos ho, if_pos ho]
      · rw [if_neg ho, if_neg ho, lookup_cons_of_ne ho]
    · rw [List.filter_cons_of_pos (by simpa using hn)]
      by_cases ho : other = n
      · subst ho
        rw [if_neg hn, lookup_cons_self, lookup_cons_self]
      · rw [lookup_cons_of_ne ho, lookup_cons_of_ne ho, ih]

theorem mem_put {name : String} {a : α} {table : List (String × α)} {entry : String × α}
    (h : entry ∈ put name a table) : entry = (name, a) ∨ entry ∈ table := by
  induction table with
  | nil => exact .inl (List.mem_singleton.1 h)
  | cons first rest ih =>
    unfold put at h
    split at h
    · rename_i hname
      rcases List.mem_cons.1 h with rfl | h
      · exact .inl (congrArg (·, a) (eq_of_beq hname))
      · exact .inr (List.mem_cons_of_mem _ h)
    · rcases List.mem_cons.1 h with rfl | h
      · exact .inr List.mem_cons_self
      · exact (ih h).imp_right (List.mem_cons_of_mem _)

theorem put_cons_self (name : String) (a b : α) (rest : List (String × α)) :
    put name a ((name, b) :: rest) = (name, a) :: rest := by
  rw [put, if_pos (beq_self_eq_true name)]

theorem put_cons_of_ne {n name : String} (h : n ≠ name) (a b : α) (rest : List (String × α)) :
    put name a ((n, b) :: rest) = (n, b) :: put name a rest := by
  rw [put, if_neg (by simpa using h)]

/-- Whether an entry is put in before or after those of a name are left out makes no difference. -/
theorem without_put (key name : String) (a : α) (table : List (String × α)) :
    (put name a table).filter (fun (n, _) => n != key) =
      if name = key then table.filter fun (n, _) => n != key
      else put name a (table.filter fun (n, _) => n != key) := by
  induction table with
  | nil =>
    by_cases hkey : name = key
    · rw [if_pos hkey, put, List.filter_cons_of_neg (by simpa using hkey)]
    · rw [if_neg hkey, put, List.filter_cons_of_pos (by simpa using hkey)]
      rfl
  | cons entry rest ih =>
    obtain ⟨n, b⟩ := entry
    by_cases hname : n = name
    · subst hname
      rw [put_cons_self]
      by_cases hkey : n = key
      · rw [if_pos hkey, List.filter_cons_of_neg (by simpa using hkey),
          List.filter_cons_of_neg (by simpa using hkey)]
      · rw [if_neg hkey, List.filter_cons_of_pos (by simpa using hkey),
          List.filter_cons_of_pos (by simpa using hkey), put_cons_self]
    · rw [put_cons_of_ne hname]
      by_cases hkey : n = key
      · rw [List.filter_cons_of_neg (by simpa using hkey),
          List.filter_cons_of_neg (by simpa using hkey), ih]
      · rw [List.filter_cons_of_pos (by simpa using hkey),
          List.filter_cons_of_pos (by simpa using hkey), ih]
        by_cases hsame : name = key
        · rw [if_pos hsame, if_pos hsame]
        · rw [if_neg hsame, if_neg hsame, put_cons_of_ne hname]

theorem mem_of_lookup {name : String} {a : α} {table : List (String × α)}
    (h : table.lookup name = some a) : (name, a) ∈ table := by
  obtain ⟨before, after, rfl, -⟩ := List.lookup_eq_some_iff.1 h
  exact List.mem_append_right _ List.mem_cons_self

/-! ### Two tables -/

/-- Tables with the same names in the same order, whose entries are related one by one. -/
abbrev Alike (V : α → β → Prop) : List (String × α) → List (String × β) → Prop :=
  List.Forall₂ fun x y => x.1 = y.1 ∧ V x.2 y.2

namespace Alike

variable {V : α → β → Prop} {table : List (String × α)} {table' : List (String × β)}

theorem put (h : Alike V table table') (name : String) {a : α} {b : β} (hab : V a b) :
    Alike V (Table.put name a table) (Table.put name b table') := by
  induction h with
  | nil => exact .cons ⟨rfl, hab⟩ .nil
  | @cons x y rest rest' hxy hrest ih =>
    obtain ⟨n, c⟩ := x
    obtain ⟨n', d⟩ := y
    obtain ⟨rfl, hcd⟩ := hxy
    unfold Table.put
    by_cases hn : (n == name) = true
    · rw [if_pos hn, if_pos hn]
      exact .cons ⟨rfl, hab⟩ hrest
    · rw [if_neg hn, if_neg hn]
      exact .cons ⟨rfl, hcd⟩ ih

/-- A name finds related entries, or nothing in either table. -/
theorem lookup (h : Alike V table table') (name : String) :
    Option.Rel V (table.lookup name) (table'.lookup name) := by
  induction h with
  | nil => exact .none
  | @cons x y rest rest' hxy hrest ih =>
    obtain ⟨n, c⟩ := x
    obtain ⟨n', d⟩ := y
    obtain ⟨rfl, hcd⟩ := hxy
    by_cases hn : name = n
    · subst hn
      rw [lookup_cons_self, lookup_cons_self]
      exact .some hcd
    · rw [lookup_cons_of_ne hn, lookup_cons_of_ne hn]
      exact ih

end Alike

end Table

theorem Cache.putAt_eq (name : String) (entry : CacheEntry) (known : List (String × CacheEntry)) :
    putAt name entry known = Table.put name entry known := by
  induction known with
  | nil => rfl
  | cons first rest ih => simp only [putAt, Table.put, ih]

theorem MemoryLoader.putAt_eq (name text : String) (texts : List (String × String)) :
    putAt name text texts = Table.put name text texts := by
  induction texts with
  | nil => rfl
  | cons first rest ih => simp only [putAt, Table.put, ih]

theorem Frame.define_eq (name : String) (found : InlinePartial) (frame : Frame) :
    define name found frame = Table.put name found frame := by
  induction frame with
  | nil => rfl
  | cons first rest ih => simp only [define, Table.put, ih]

theorem Bindings.set_eq (name : String) (v : Value) (bindings : Bindings) :
    bindings.set name v = Table.put name v bindings := by
  induction bindings with
  | nil => rfl
  | cons first rest ih => simp only [set, Table.put, ih]

end Stencil
