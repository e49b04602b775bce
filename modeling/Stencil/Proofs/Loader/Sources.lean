import Stencil.Loader.Basic
import Stencil.Proofs.Outcome

/-!
# What loaders find

A loader finds a source or says that there is none, and what it finds depends on the completed name
of the location only. A source that it finds answers what it is asked, unless it is gone by then.
-/

namespace Stencil

/-- Something is not there. -/
def Failure.IsNotFound (f : Failure) : Prop := ∃ place name, f = .notFound place name

/-- The source fails to answer only by not being there. -/
structure Source.OnlyMissing (s : Source) : Prop where
  content : Meets Failure.IsNotFound (fun _ => True) s.content
  freshness : Meets Failure.IsNotFound (fun _ => True) s.freshness

namespace Source

theorem onlyMissing_memory (name text : String) : (memory name text).OnlyMissing :=
  ⟨.ok trivial, .ok trivial⟩

theorem name_file (name path : String) (found : Option StoredFile) :
    (file name path found).name = name := by
  cases found <;> rfl

theorem onlyMissing_file (name path : String) (found : Option StoredFile) :
    (file name path found).OnlyMissing := by
  cases found with
  | none => exact ⟨.error ⟨_, _, rfl⟩, .error ⟨_, _, rfl⟩⟩
  | some stored => exact ⟨.ok trivial, .ok trivial⟩

end Source

namespace Loader

/-- A source is found, or there is none at the location. -/
theorem source_meets (l : Loader) (location : String) :
    Meets Failure.IsNotFound Source.OnlyMissing (l.source location) := by
  cases l with
  | memory loader =>
    unfold Loader.source MemoryLoader.source
    dsimp only
    split
    · exact Meets.pure (Source.onlyMissing_memory _ _)
    · exact Meets.throw ⟨_, _, rfl⟩
  | files loader tree =>
    have hlocate : Meets Failure.IsNotFound (fun _ => True) (loader.locate tree location) := by
      unfold FileLoader.locate
      exact Meets.ite (fun _ => Meets.pure trivial) fun _ => Meets.throw ⟨_, _, rfl⟩
    exact hlocate.bind fun file _ => .pure (Source.onlyMissing_file _ _ _)

/-- The naming of a loader. -/
def naming : Loader → Naming
  | memory loader => loader.naming
  | files loader _ => loader.naming

/-- A source is named by its completed location. -/
theorem name_of_source {l : Loader} {location : String} {source : Source}
    (h : l.source location = .ok source) : source.name = l.naming.complete location := by
  cases l with
  | memory loader =>
    unfold Loader.source MemoryLoader.source at h
    dsimp only at h
    split at h
    · cases h
      rfl
    · cases h
  | files loader tree =>
    obtain ⟨file, hfile, hsource⟩ := bind_eq_ok_iff.1 h
    unfold FileLoader.locate at hfile
    dsimp only at hfile
    split at hfile
    · cases hfile
      cases hsource
      exact Source.name_file _ _ _
    · cases hfile

/-- Locations with one completed name have one source. -/
theorem source_eq_of_complete {l : Loader} {a b : String} {s t : Source} (hs : l.source a = .ok s)
    (ht : l.source b = .ok t) (h : l.naming.complete a = l.naming.complete b) : s = t := by
  cases l with
  | memory loader =>
    unfold Loader.source MemoryLoader.source at hs ht
    change loader.naming.complete a = loader.naming.complete b at h
    simp only [h] at hs
    split at hs
    · rename_i text htext
      simp only [htext] at ht
      cases hs
      cases ht
      rfl
    · cases hs
  | files loader tree =>
    change loader.naming.complete a = loader.naming.complete b at h
    obtain ⟨file, hfile, hread⟩ := bind_eq_ok_iff.1 hs
    obtain ⟨file', hfile', hread'⟩ := bind_eq_ok_iff.1 ht
    have hpath : loader.pathOf tree a = loader.pathOf tree b := by
      unfold FileLoader.pathOf
      rw [h]
    have hsame : file = file' := by
      unfold FileLoader.locate at hfile hfile'
      dsimp only at hfile hfile'
      rw [h, hpath] at hfile
      split at hfile
      · rename_i hfound
        rw [if_pos hfound] at hfile'
        cases hfile
        cases hfile'
        rfl
      · cases hfile
    rw [hsame, hread'] at hread
    exact (Except.ok.inj hread).symm

/-- A source is known by its name: two locations with sources of one name have one source. -/
theorem source_eq_of_name {l : Loader} {a b : String} {s t : Source} (hs : l.source a = .ok s)
    (ht : l.source b = .ok t) (hname : s.name = t.name) : s = t := by
  rw [name_of_source hs, name_of_source ht] at hname
  exact source_eq_of_complete hs ht hname

end Loader

end Stencil
