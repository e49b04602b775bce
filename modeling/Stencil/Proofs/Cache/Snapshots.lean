import Stencil.Proofs.Cache.Gets

/-!
# One snapshot per name

A cache that checks no freshness takes a snapshot of each name: the first template that compiling a
source of the name gives is what every get of the name answers from then on, whatever the sources say
later, until the name is evicted or everything is cleared. The calls on a cache are followed one after
the other; every get brings its own source and its own compiler, so one name may stand for several
sources, their texts may change, and their files may be gone.
-/

namespace Stencil

namespace Cache

variable {cache : Cache} {next : Nat} {source : Source}
  {compile : Source → Except Failure Template}

/-- The cache remembers, and never asks whether a source has changed. -/
def Unchecked : Cache → Prop
  | none => False
  | entries reload _ => reload = false

theorem Unchecked.ne_none (h : cache.Unchecked) : cache ≠ .none := by
  rintro rfl
  exact h

theorem find?_of_unchecked (h : cache.Unchecked) (source : Source) :
    cache.find? source = .ok ((cache.held? source.name).map (·.compiled)) := by
  cases cache with
  | none => exact h.elim
  | entries reload known =>
    cases (h : reload = false)
    dsimp only [find?, held?]
    cases known.lookup source.name <;> rfl

theorem Unchecked.store (h : cache.Unchecked) (name : String) (entry : CacheEntry) :
    (cache.store name entry).Unchecked := by
  cases cache with
  | none => exact h
  | entries reload known => exact h

/-! ## Calls -/

/-- A call on a cache. -/
inductive Call where
  | get (source : Source) (compile : Source → Except Failure Template)
  | evict (name : String)
  | clear

/-- A cache, and the number of the next tree. -/
structure Shelf where
  cache : Cache
  next : Nat

/-- What a get has come to. -/
structure Visit where
  source : Source
  /-- What the compiler has made of the source, if it has run. -/
  runs : List (Except Failure Template)
  answer : Except Failure Compiled

namespace Call

/-- The call forgets what is remembered under a name. -/
def Drops (name : String) : Call → Prop
  | get .. => False
  | evict other => other = name
  | clear => True

/-- The call has to do with a name: it gets or evicts the name, or clears everything. -/
def concerns (name : String) : Call → Bool
  | get source _ => source.name == name
  | evict other => other == name
  | clear => true

/-- What a call that gets a template comes to. -/
def visit? (shelf : Shelf) : Call → Option Visit
  | get source compile =>
    some ⟨source, shelf.cache.runs shelf.next source compile,
      (shelf.cache.get shelf.next source compile).1⟩
  | evict _ | clear => .none

/-- The cache after a call. -/
def after (shelf : Shelf) : Call → Shelf
  | get source compile =>
    let (_, cache, next) := shelf.cache.get shelf.next source compile
    ⟨cache, next⟩
  | evict name => ⟨shelf.cache.evict name, shelf.next⟩
  | clear => ⟨shelf.cache.clear, shelf.next⟩

end Call

namespace Shelf

/-- The cache after some calls. -/
def after (shelf : Shelf) (calls : List Call) : Shelf :=
  calls.foldl (fun shelf call => call.after shelf) shelf

/-- What the gets among some calls come to. -/
def visits (shelf : Shelf) : List Call → List Visit
  | [] => []
  | call :: rest => (call.visit? shelf).toList ++ visits (call.after shelf) rest

/-- What the gets of a name come to. -/
def visitsOf (shelf : Shelf) (name : String) (calls : List Call) : List Visit :=
  (shelf.visits calls).filter (·.source.name == name)

end Shelf

namespace Visit

/-- The get answers what is remembered, and no compiler runs. -/
def Serves (v : Visit) (held : Compiled) : Prop := v.runs = [] ∧ v.answer = .ok held

/-- The compiler runs and makes a template, which the get answers. -/
def Takes (v : Visit) (held : Compiled) : Prop := v.runs = [.ok held.template] ∧ v.answer = .ok held

/-- The get fails: the source does not say how fresh it is, and no compiler runs, or else the compiler
runs and fails. -/
def Fails (v : Visit) : Prop :=
  ∃ f, v.answer = .error f ∧
    (v.source.freshness = .error f ∧ v.runs = [] ∨
      (∃ fresh, v.source.freshness = .ok fresh) ∧ v.runs = [.error f])

/-- What can be told of a get when trees are not told apart by their numbers. -/
def told (v : Visit) : Source × List (Except Failure Template) × Except Failure Template :=
  (v.source, v.runs, v.answer.map (·.template))

end Visit

/-! ## One call -/

variable {shelf : Shelf} {name : String}

/-- What is remembered is served. -/
theorem get_of_held (h : shelf.cache.Unchecked) {entry : CacheEntry}
    (hheld : shelf.cache.held? source.name = some entry) :
    (Call.get source compile).visit? shelf = some ⟨source, [], .ok entry.compiled⟩ ∧
      (Call.get source compile).after shelf = shelf := by
  have hfound : shelf.cache.find? source = .ok (some entry.compiled) := by
    rw [find?_of_unchecked h, hheld]
    rfl
  obtain ⟨answer, made, hget, hruns, hgets⟩ := get_cases shelf.cache shelf.next source compile
  dsimp only [Call.visit?, Call.after]
  rw [hget, hruns]
  cases hgets with
  | served hfind =>
    cases hfind.symm.trans hfound
    exact ⟨rfl, rfl⟩
  | silent _ _ hfind =>
    rcases hfind with hfind | hfind
    · cases hfind.symm.trans hfound
    · cases hfind.symm.trans hfound
  | made hfind => cases hfind.symm.trans hfound
  | failed hfind => cases hfind.symm.trans hfound

/-- Where nothing is remembered, a get fails and changes nothing, or the compiler makes a template,
which is remembered. -/
theorem get_of_not_held (h : shelf.cache.Unchecked) (hheld : shelf.cache.held? source.name = .none)
    (compile : Source → Except Failure Template) :
    (∃ v, (Call.get source compile).visit? shelf = some v ∧ v.source = source ∧ v.Fails ∧
      (Call.get source compile).after shelf = shelf) ∨
    ∃ template freshness, source.freshness = .ok freshness ∧ compile source = .ok template ∧
      (Call.get source compile).visit? shelf =
        some ⟨source, [.ok template], .ok ⟨shelf.next, template⟩⟩ ∧
      (Call.get source compile).after shelf =
        ⟨shelf.cache.store source.name ⟨⟨shelf.next, template⟩, freshness⟩, shelf.next + 1⟩ := by
  have hfound : shelf.cache.find? source = .ok .none := by
    rw [find?_of_unchecked h, hheld]
    rfl
  obtain ⟨answer, made, hget, hruns, hgets⟩ := get_cases shelf.cache shelf.next source compile
  dsimp only [Call.visit?, Call.after]
  rw [hget, hruns]
  cases hgets with
  | served hfind => cases hfind.symm.trans hfound
  | silent hfails => exact .inl ⟨_, rfl, rfl, ⟨_, rfl, .inl ⟨hfails, rfl⟩⟩, rfl⟩
  | made _ hfresh hcompile =>
    exact .inr ⟨_, _, hfresh.resolve_left h.ne_none, hcompile, rfl, rfl⟩
  | failed _ hfresh _ =>
    exact .inl ⟨_, rfl, rfl, ⟨_, rfl, .inr ⟨⟨_, hfresh.resolve_left h.ne_none⟩, rfl⟩⟩, rfl⟩

/-- What a get of a source comes to where nothing is remembered under its name: the runs of the
compiler and the answer. -/
def anew (source : Source) (compile : Source → Except Failure Template) :
    List (Except Failure Template) × Except Failure Template :=
  match source.freshness with
  | .error failure => ([], .error failure)
  | .ok _ => ([compile source], compile source)

/-- Where nothing is remembered, what a get comes to and what it leaves depend on the source and the
compiler alone. -/
theorem told_of_not_held (h : shelf.cache.Unchecked)
    (hheld : shelf.cache.held? source.name = .none)
    (compile : Source → Except Failure Template) :
    ((Call.get source compile).visit? shelf).map Visit.told = some (source, anew source compile) ∧
      (((Call.get source compile).after shelf).cache.held? source.name).map (·.compiled.template) =
        (anew source compile).2.toOption := by
  have hfound : shelf.cache.find? source = .ok .none := by
    rw [find?_of_unchecked h, hheld]
    rfl
  obtain ⟨answer, made, hget, hruns, hgets⟩ := get_cases shelf.cache shelf.next source compile
  dsimp only [Call.visit?, Call.after]
  rw [hget, hruns]
  unfold anew
  cases hgets with
  | served hfind => cases hfind.symm.trans hfound
  | silent hfresh =>
    rw [hfresh]
    exact ⟨rfl, congrArg (Option.map _) hheld⟩
  | made _ hfresh hcompile =>
    rw [hfresh.resolve_left h.ne_none, hcompile]
    dsimp only
    rw [held?_store h.ne_none, if_pos rfl]
    exact ⟨rfl, rfl⟩
  | failed _ hfresh hcompile =>
    rw [hfresh.resolve_left h.ne_none, hcompile]
    exact ⟨rfl, congrArg (Option.map _) hheld⟩

theorem Call.after_unchecked (h : shelf.cache.Unchecked) (call : Call) :
    (call.after shelf).cache.Unchecked := by
  cases call with
  | get source compile =>
    cases hheld : shelf.cache.held? source.name with
    | some entry => rwa [(get_of_held h hheld).2]
    | none =>
      rcases get_of_not_held h hheld compile with
        ⟨_, -, -, -, hafter⟩ | ⟨_, _, -, -, -, hafter⟩
      · rwa [hafter]
      · rw [hafter]
        exact h.store source.name _
  | evict name =>
    obtain ⟨cache, next⟩ := shelf
    cases cache with
    | none => exact h
    | entries reload known => exact h
  | clear =>
    obtain ⟨cache, next⟩ := shelf
    cases cache with
    | none => exact h
    | entries reload known => exact h

/-- A get that fails leaves everything as it was. -/
theorem Call.after_of_error (h : shelf.cache.Unchecked) {call : Call} {v : Visit} {f : Failure}
    (hvisit : call.visit? shelf = some v) (hfails : v.answer = .error f) :
    call.after shelf = shelf := by
  cases call with
  | get source compile =>
    cases hheld : shelf.cache.held? source.name with
    | some entry => exact (get_of_held h hheld).2
    | none =>
      rcases get_of_not_held h hheld compile with
        ⟨_, -, -, -, hafter⟩ | ⟨_, _, -, -, htaken, -⟩
      · exact hafter
      · cases htaken.symm.trans hvisit
        cases hfails
  | evict _ | clear => cases hvisit

/-- What a get leaves under another name than that of its source. -/
theorem Call.held?_after_get (h : shelf.cache.Unchecked)
    (compile : Source → Except Failure Template) (hne : name ≠ source.name) :
    ((Call.get source compile).after shelf).cache.held? name = shelf.cache.held? name := by
  cases hheld : shelf.cache.held? source.name with
  | some entry => rw [(get_of_held h hheld).2]
  | none =>
    rcases get_of_not_held h hheld compile with
      ⟨_, -, -, -, hafter⟩ | ⟨_, _, -, -, -, hafter⟩
    · rw [hafter]
    · rw [hafter, held?_store h.ne_none, if_neg hne]

/-- A call that does not drop a name leaves what is remembered under it. -/
theorem Call.held?_after_of_some (h : shelf.cache.Unchecked) {call : Call}
    (hkeeps : ¬call.Drops name) {entry : CacheEntry}
    (hentry : shelf.cache.held? name = some entry) :
    (call.after shelf).cache.held? name = some entry := by
  cases call with
  | get source compile =>
    by_cases hname : name = source.name
    · subst hname
      rw [(get_of_held h hentry).2, hentry]
    · rw [held?_after_get h compile hname, hentry]
  | evict other =>
    have hne : name ≠ other := fun heq => hkeeps heq.symm
    exact (held?_evict shelf.cache other name).trans ((if_neg hne).trans hentry)
  | clear => exact absurd trivial hkeeps

/-- A call that has nothing to do with a name does not touch what is remembered under it. -/
theorem Call.held?_after_of_not_concerns (h : shelf.cache.Unchecked) {call : Call}
    (hother : call.concerns name = false) :
    (call.after shelf).cache.held? name = shelf.cache.held? name := by
  cases call with
  | get source compile =>
    have hne : name ≠ source.name := by
      rintro rfl
      simp [concerns] at hother
    exact held?_after_get h compile hne
  | evict other =>
    have hne : name ≠ other := by
      rintro rfl
      simp [concerns] at hother
    exact (held?_evict shelf.cache other name).trans (if_neg hne)
  | clear => cases hother

/-- Only a get of a name is a visit of the name. -/
theorem Call.concerns_of_visit {call : Call} {v : Visit} (hvisit : call.visit? shelf = some v) :
    call.concerns name = (v.source.name == name) := by
  cases call with
  | get source compile =>
    cases hvisit
    rfl
  | evict _ | clear => cases hvisit

/-! ## All calls -/

namespace Shelf

theorem visitsOf_cons (shelf : Shelf) (name : String) (call : Call) (rest : List Call) :
    shelf.visitsOf name (call :: rest) =
      (call.visit? shelf).toList.filter (·.source.name == name) ++
        (call.after shelf).visitsOf name rest :=
  List.filter_append _ _

theorem after_unchecked (h : shelf.cache.Unchecked) (calls : List Call) :
    (shelf.after calls).cache.Unchecked := by
  induction calls generalizing shelf with
  | nil => exact h
  | cons call rest ih => exact ih (call.after_unchecked h)

/-- What is remembered under a name is served to every get, by induction on the calls. -/
theorem serves_of_entry (h : shelf.cache.Unchecked) {calls : List Call}
    (hkeeps : ∀ call ∈ calls, ¬call.Drops name) {entry : CacheEntry}
    (hentry : shelf.cache.held? name = some entry) :
    ∀ v ∈ shelf.visitsOf name calls, v.Serves entry.compiled := by
  induction calls generalizing shelf with
  | nil => exact List.forall_mem_nil _
  | cons call rest ih =>
    obtain ⟨hcall, hrest⟩ := List.forall_mem_cons.1 hkeeps
    rw [visitsOf_cons]
    refine List.forall_mem_append.2 ⟨fun v hv => ?_, ih (call.after_unchecked h) hrest
      (Call.held?_after_of_some h hcall hentry)⟩
    obtain ⟨hvisit, hname⟩ := List.mem_filter.1 hv
    cases call with
    | get source compile =>
      have hsame : source.name = name := by
        cases Option.mem_toList.1 hvisit
        exact beq_iff_eq.1 hname
      subst hsame
      cases (get_of_held h hentry).1.symm.trans (Option.mem_toList.1 hvisit)
      exact ⟨rfl, rfl⟩
    | evict _ | clear => cases hvisit

/-- Where nothing is remembered under a name, its gets fail one after the other until the compiler
makes a template, and that one is served from then on. -/
theorem takes_of_none (h : shelf.cache.Unchecked) {calls : List Call}
    (hkeeps : ∀ call ∈ calls, ¬call.Drops name) (hentry : shelf.cache.held? name = .none) :
    ∃ failed rest, shelf.visitsOf name calls = failed ++ rest ∧ (∀ v ∈ failed, v.Fails) ∧
      (rest = [] ∨ ∃ first served held, rest = first :: served ∧ first.Takes held ∧
        ∀ v ∈ served, v.Serves held) := by
  induction calls generalizing shelf with
  | nil => exact ⟨[], [], rfl, List.forall_mem_nil _, .inl rfl⟩
  | cons call later ih =>
    obtain ⟨hcall, hlater⟩ := List.forall_mem_cons.1 hkeeps
    have hunchecked := call.after_unchecked h
    rw [visitsOf_cons]
    by_cases hconcerns : call.concerns name = true
    · cases call with
      | get source compile =>
        cases beq_iff_eq.1 hconcerns
        rcases get_of_not_held h hentry compile with
          ⟨v, hvisit, hsource, hfails, hafter⟩ | ⟨template, freshness, -, -, hvisit, hafter⟩
        · rw [hafter] at hunchecked ⊢
          obtain ⟨failed, rest, hsplit, hfailed, hrest⟩ := ih hunchecked hlater hentry
          refine ⟨v :: failed, rest, ?_, List.forall_mem_cons.2 ⟨hfails, hfailed⟩, hrest⟩
          rw [hvisit, Option.toList_some, List.filter_cons_of_pos (by simp [hsource]), hsplit]
          rfl
        · have hheld : ((Call.get source compile).after shelf).cache.held? source.name =
              some ⟨⟨shelf.next, template⟩, freshness⟩ := by
            rw [hafter, held?_store h.ne_none, if_pos rfl]
          refine ⟨[], _, rfl, List.forall_mem_nil _, .inr
            ⟨⟨source, [.ok template], .ok ⟨shelf.next, template⟩⟩, _, ⟨shelf.next, template⟩, ?_,
              ⟨rfl, rfl⟩, serves_of_entry hunchecked hlater hheld⟩⟩
          rw [hvisit, Option.toList_some, List.filter_cons_of_pos (by simp)]
          rfl
      | evict other => exact absurd (beq_iff_eq.1 hconcerns) hcall
      | clear => exact absurd trivial hcall
    · rw [Bool.not_eq_true] at hconcerns
      have hnone : (call.visit? shelf).toList.filter (·.source.name == name) = [] := by
        refine List.filter_eq_nil_iff.2 fun v hv => ?_
        rw [← Call.concerns_of_visit (Option.mem_toList.1 hv), hconcerns]
        exact Bool.false_ne_true
      rw [hnone, List.nil_append]
      exact ih hunchecked hlater ((Call.held?_after_of_not_concerns h hconcerns).trans hentry)

/-- Two caches remember the same template under a name, in whatever tree. -/
def SameUnder (name : String) (shelf other : Shelf) : Prop :=
  (shelf.cache.held? name).map (·.compiled.template) =
    (other.cache.held? name).map (·.compiled.template)

/-- A call that has to do with a name does the same to both. -/
theorem SameUnder.step {other : Shelf} (hsame : SameUnder name shelf other)
    (h : shelf.cache.Unchecked) (hother : other.cache.Unchecked) {call : Call}
    (hconcerns : call.concerns name = true) :
    (call.visit? shelf).map Visit.told = (call.visit? other).map Visit.told ∧
      SameUnder name (call.after shelf) (call.after other) := by
  unfold SameUnder at hsame ⊢
  cases call with
  | get source compile =>
    cases beq_iff_eq.1 hconcerns
    cases hheld : shelf.cache.held? source.name with
    | some entry =>
      cases hheld' : other.cache.held? source.name with
      | none =>
        rw [hheld, hheld'] at hsame
        cases hsame
      | some entry' =>
        rw [hheld, hheld'] at hsame
        have htemplate : entry.compiled.template = entry'.compiled.template :=
          Option.some.inj hsame
        rw [(get_of_held h hheld).1, (get_of_held hother hheld').1, (get_of_held h hheld).2,
          (get_of_held hother hheld').2, hheld, hheld']
        refine ⟨?_, hsame⟩
        simp only [Option.map_some, Visit.told, Except.map, htemplate]
    | none =>
      cases hheld' : other.cache.held? source.name with
      | some entry' =>
        rw [hheld, hheld'] at hsame
        cases hsame
      | none =>
        obtain ⟨htold, hafter⟩ := told_of_not_held h hheld compile
        obtain ⟨htold', hafter'⟩ := told_of_not_held hother hheld' compile
        exact ⟨htold.trans htold'.symm, hafter.trans hafter'.symm⟩
  | evict evicted =>
    cases beq_iff_eq.1 hconcerns
    refine ⟨rfl, ?_⟩
    show ((shelf.cache.evict name).held? name).map _ = ((other.cache.evict name).held? name).map _
    rw [held?_evict, held?_evict, if_pos rfl, if_pos rfl]
  | clear =>
    refine ⟨rfl, ?_⟩
    show (shelf.cache.clear.held? name).map _ = (other.cache.clear.held? name).map _
    rw [held?_clear, held?_clear]

/-- Calls that have nothing to do with a name may as well not be made, by induction on the calls. -/
theorem told_concerning {other : Shelf} (hsame : SameUnder name shelf other)
    (h : shelf.cache.Unchecked) (hother : other.cache.Unchecked) (calls : List Call) :
    (shelf.visitsOf name calls).map Visit.told =
      (other.visitsOf name (calls.filter (·.concerns name))).map Visit.told := by
  induction calls generalizing shelf other with
  | nil => rfl
  | cons call rest ih =>
    by_cases hconcerns : call.concerns name = true
    · obtain ⟨hvisit, hafter⟩ := hsame.step h hother hconcerns
      have hkeep (at_ : Shelf) : ((call.visit? at_).toList.filter (·.source.name == name)) =
          (call.visit? at_).toList := by
        refine List.filter_eq_self.2 fun v hv => ?_
        rw [← Call.concerns_of_visit (Option.mem_toList.1 hv), hconcerns]
      rw [List.filter_cons_of_pos hconcerns, visitsOf_cons, visitsOf_cons, List.map_append,
        List.map_append, ih hafter (call.after_unchecked h) (call.after_unchecked hother), hkeep,
        hkeep, ← Option.toList_map, ← Option.toList_map, hvisit]
    · have hfalse := Bool.not_eq_true _ ▸ hconcerns
      have hnone : (call.visit? shelf).toList.filter (·.source.name == name) = [] := by
        refine List.filter_eq_nil_iff.2 fun v hv => ?_
        rw [← Call.concerns_of_visit (Option.mem_toList.1 hv), hfalse]
        exact Bool.false_ne_true
      rw [List.filter_cons_of_neg hconcerns, visitsOf_cons, hnone, List.nil_append]
      refine ih ?_ (call.after_unchecked h) hother
      exact (congrArg (Option.map _) (Call.held?_after_of_not_concerns h hfalse)).trans hsame

/-- A get that fails, at any point, leaves everything as it was. -/
theorem after_of_failed (h : shelf.cache.Unchecked) (earlier : List Call) {call : Call} {v : Visit}
    {f : Failure} (hvisit : call.visit? (shelf.after earlier) = some v)
    (hfails : v.answer = .error f) : shelf.after (earlier ++ [call]) = shelf.after earlier := by
  have hstep : shelf.after (earlier ++ [call]) = call.after (shelf.after earlier) :=
    List.foldl_append
  rw [hstep]
  exact Call.after_of_error (after_unchecked h earlier) hvisit hfails

/-- Without reload checking a cache serves one snapshot per name. Among calls none of which drops a
name, every get of the name that succeeds answers the tree that was there before the calls, or else
the tree of the first success; the compiler runs for the name up to that success and not afterwards,
and before it on every get but those whose source does not say how fresh it is. A get that fails leaves
the cache as it was, and what the gets of a name come to is what they come to when the calls on other
names are left out. -/
theorem one_snapshot_per_name (h : shelf.cache.Unchecked) {calls : List Call}
    (hkeeps : ∀ call ∈ calls, ¬call.Drops name) :
    (∀ entry, shelf.cache.held? name = some entry →
      ∀ v ∈ shelf.visitsOf name calls, v.Serves entry.compiled) ∧
    (shelf.cache.held? name = .none →
      ∃ failed rest, shelf.visitsOf name calls = failed ++ rest ∧ (∀ v ∈ failed, v.Fails) ∧
        (rest = [] ∨ ∃ first served held, rest = first :: served ∧ first.Takes held ∧
          ∀ v ∈ served, v.Serves held)) ∧
    (∀ history call v f, call.visit? (shelf.after history) = some v → v.answer = .error f →
      shelf.after (history ++ [call]) = shelf.after history) ∧
    (∀ history, (shelf.visitsOf name history).map Visit.told =
      (shelf.visitsOf name (history.filter (·.concerns name))).map Visit.told) :=
  ⟨fun _ hentry => serves_of_entry h hkeeps hentry, takes_of_none h hkeeps,
    fun history _ _ _ => after_of_failed h history, told_concerning rfl h h⟩

/-- A page whose file is missing at first, does not compile then, is corrected, and is changed again,
next to another page. -/
def correctedPage : List Call :=
  [.get (.file "page" "/page" .none) fun _ => .error (Source.missing "page" "/page"),
    .get (.memory "page" "\x7b\x7b") fun _ => .error (.scan ⟨"page", 1, 1⟩ (.unclosedTag "\x7d\x7d")),
    .get (.memory "menu" "m") fun _ => .ok ⟨"menu", [], .none⟩,
    .get (.memory "page" "old") fun _ => .ok ⟨"page", [.text .none "old"], .none⟩,
    .evict "menu",
    .get (.file "page" "/page" (some ⟨"new", 3⟩)) fun _ => .ok ⟨"page", [.text .none "new"], .none⟩]

theorem one_snapshot_per_name_correctedPage :
    (∀ call ∈ correctedPage, ¬call.Drops "page") ∧
      ∃ failed rest, (⟨.empty false, 0⟩ : Shelf).visitsOf "page" correctedPage = failed ++ rest ∧
        (∀ v ∈ failed, v.Fails) ∧
        (rest = [] ∨ ∃ first served held, rest = first :: served ∧ first.Takes held ∧
          ∀ v ∈ served, v.Serves held) := by
  have hkeeps : ∀ call ∈ correctedPage, ¬call.Drops "page" := by
    simp [correctedPage, Call.Drops]
  have hunchecked : (⟨.empty false, 0⟩ : Shelf).cache.Unchecked := rfl
  exact ⟨hkeeps, (one_snapshot_per_name hunchecked hkeeps).2.1 rfl⟩

end Shelf

end Cache

end Stencil
