import Stencil.Proofs.Cache.Faithful
import Stencil.Session

/-!
# Reloading caches

Calls on a session whose sources are in memory come in any order: texts are put, templates are
compiled, entries are evicted, reload checking is turned on and off. A cache that has taken part in
all of this and checks freshness at last answers as if there were no cache.

The invariant is that the cache stays faithful to the compiler. Named and inline sources share the
cache, so it also takes that their names differ, and that digests tell the texts of the history
apart.
-/

namespace Stencil

namespace Engine

/-- A text put at a location. Only sources in memory can be put. -/
def put (e : Engine) (location text : String) : Engine :=
  match e.loader with
  | .memory loader => { e with loader := .memory (loader.put location text) }
  | .files .. => e

/-- What the name of inline source is a digest of. -/
def inlineKey (marks : Delimiters) (text : String) : String :=
  marks.opening ++ "\x00" ++ marks.closing ++ "\x00" ++ text

/-- The first sixteen digits of a digest. -/
def shortDigest (key : String) : String := String.ofList ((Digest.sha1 key).toList.take 16)

theorem inlineName_eq (marks : Delimiters) (text : String) :
    inlineName marks text = "inline@" ++ shortDigest (inlineKey marks text) :=
  rfl

/-- No delimiter contains the character that separates the parts of a key. -/
def NulFree (marks : Delimiters) : Prop :=
  '\x00' ∉ marks.opening.toList ∧ '\x00' ∉ marks.closing.toList

/-- The parts of two equal lists up to the first separator are equal, and so are the rests. -/
theorem append_sep_inj {α : Type} {sep : α} {as bs cs ds : List α} (ha : sep ∉ as)
    (hb : sep ∉ bs) (h : as ++ sep :: cs = bs ++ sep :: ds) : as = bs ∧ cs = ds := by
  -- The rests may hold the separator too, so it is the first one that counts.
  induction as generalizing bs with
  | nil =>
    cases bs with
    | nil => exact ⟨rfl, (List.cons.inj h).2⟩
    | cons b bs => exact absurd ((List.cons.inj h).1 ▸ List.mem_cons_self) hb
  | cons a as ih =>
    cases bs with
    | nil => exact absurd ((List.cons.inj h).1 ▸ List.mem_cons_self) ha
    | cons b bs =>
      obtain ⟨hhead, htail⟩ := List.cons.inj h
      have hrest := ih (fun hm => ha (List.mem_cons_of_mem _ hm))
        (fun hm => hb (List.mem_cons_of_mem _ hm)) htail
      exact ⟨by rw [hhead, hrest.1], hrest.2⟩

/-- A key tells the delimiters and the text it is made of. -/
theorem inlineKey_inj {marks marks' : Delimiters} {text text' : String} (hm : NulFree marks)
    (hm' : NulFree marks') (h : inlineKey marks text = inlineKey marks' text') :
    marks = marks' ∧ text = text' := by
  have hnul : "\x00".toList = ['\x00'] := rfl
  have hchars := congrArg String.toList h
  simp only [inlineKey, String.toList_append, hnul, List.append_assoc, List.singleton_append]
    at hchars
  obtain ⟨hopening, hrest⟩ := append_sep_inj hm.1 hm'.1 hchars
  obtain ⟨hclosing, htext⟩ := append_sep_inj hm.2 hm'.2 hrest
  refine ⟨?_, String.toList_inj.1 htext⟩
  cases marks
  cases marks'
  rw [Delimiters.mk.injEq]
  exact ⟨String.toList_inj.1 hopening, String.toList_inj.1 hclosing⟩

end Engine

namespace Session

/-- A call on a session whose sources are in memory. -/
inductive Call where
  | put (location text : String)
  | compile (location : String)
  /-- An empty delimiter stands for the engine's own. -/
  | compileInline (text opening closing : String)
  | evict (name : String)
  | clear
  | setReload (reload : Bool)

namespace Call

/-- A call made: what it compiles, if it compiles anything, and the session after it. -/
def make (call : Call) (s : Session) : Option (Except Failure Compiled) × Session :=
  match call with
  | put location text => (none, { s with engine := s.engine.put location text })
  | compile location => ((s.compile location).map some id)
  | compileInline text opening closing =>
    ((s.compileInline text (s.engine.delimitersOr opening closing)).map some id)
  | evict name => (none, s.changeCache (·.evict name))
  | clear => (none, s.changeCache Cache.clear)
  | setReload reload => (none, s.changeCache (·.setReload reload))

/-- The template that a call compiles, or why it fails. Which tree it is does not count. -/
def outcome (call : Call) (s : Session) : Option (Except Failure Template) :=
  (call.make s).1.map fun answer => answer.map (·.template)

/-- What a call would compile without remembering anything. -/
def fresh (call : Call) (e : Engine) : Option (Except Failure Template) :=
  match call with
  | compile location => some do e.compileSource e.delimiters (← e.loader.source location)
  | compileInline text opening closing =>
    let marks := e.delimitersOr opening closing
    some (e.compileSource marks (.memory (Engine.inlineName marks text) text))
  | _ => none

/-- The text that a call brings along. -/
def text? : Call → Option String
  | put _ text | compileInline text _ _ => some text
  | _ => none

/-- The name that a call puts a text at. -/
def name? (naming : Naming) : Call → Option String
  | put location _ => some (naming.complete location)
  | _ => none

/-- The inline source of a call, with its delimiters. -/
def inline? (e : Engine) : Call → Option (Delimiters × String)
  | compileInline text opening closing => some (e.delimitersOr opening closing, text)
  | _ => none

end Call

/-- The session after some calls. -/
def after (s : Session) (calls : List Call) : Session :=
  calls.foldl (fun s call => (call.make s).2) s

/-- All texts there are in a history that starts with some sources. -/
def textsOf (l : MemoryLoader) (calls : List Call) : List String :=
  l.texts.map (·.2) ++ calls.filterMap Call.text?

/-- All names there are in a history that starts with some sources. -/
def namesOf (l : MemoryLoader) (calls : List Call) : List String :=
  l.texts.map (·.1) ++ calls.filterMap (Call.name? l.naming)

/-- All inline sources of a history, with their delimiters. -/
def inlinesOf (e : Engine) (calls : List Call) : List (Delimiters × String) :=
  calls.filterMap (Call.inline? e)

/-- Nothing in a history is mistaken for something else. -/
structure Unmistaken (e : Engine) (l : MemoryLoader) (calls : List Call) : Prop where
  digests : ∀ a ∈ textsOf l calls, ∀ b ∈ textsOf l calls, Digest.sha1 a = Digest.sha1 b → a = b
  shortDigests : ∀ a ∈ inlinesOf e calls, ∀ b ∈ inlinesOf e calls,
    Engine.shortDigest (Engine.inlineKey a.1 a.2) = Engine.shortDigest (Engine.inlineKey b.1 b.2) →
      Engine.inlineKey a.1 a.2 = Engine.inlineKey b.1 b.2
  delimiters : ∀ a ∈ inlinesOf e calls, Engine.NulFree a.1
  names : ∀ name ∈ namesOf l calls, ¬ "inline@".toList <+: name.toList

/-- The sources that calls of a history can ask for, with the delimiters they are compiled with. -/
inductive Asked (e : Engine) (l : MemoryLoader) (calls : List Call) : Delimiters → Source → Prop
  | named {name text : String} (hname : name ∈ namesOf l calls) (htext : text ∈ textsOf l calls) :
    Asked e l calls e.delimiters (.memory name text)
  | inline {marks : Delimiters} {text : String} (hinline : (marks, text) ∈ inlinesOf e calls)
      (htext : text ∈ textsOf l calls) :
    Asked e l calls marks (.memory (Engine.inlineName marks text) text)

variable {e : Engine} {l : MemoryLoader} {calls : List Call} {s t : Session} {call : Call}

theorem Unmistaken.not_inlineName (h : Unmistaken e l calls) {name : String}
    (hname : name ∈ namesOf l calls) (marks : Delimiters) (text : String) :
    name ≠ Engine.inlineName marks text := by
  intro heq
  refine h.names name hname ?_
  rw [heq, Engine.inlineName_eq, String.toList_append]
  exact List.prefix_append _ _

theorem Unmistaken.toldApart (h : Unmistaken e l calls) : Cache.ToldApart (Asked e l calls) := by
  intro marks source marks' source' hasked hasked' hname hfresh
  rcases hasked with @⟨name, text, hn, ht⟩ | @⟨marks, text, hi, ht⟩ <;>
    rcases hasked' with @⟨name', text', hn', ht'⟩ | @⟨marks', text', hi', ht'⟩
  -- Digests tell named sources apart, names tell inline sources apart, and the prefix of inline
  -- names tells one kind from the other.
  · have hname : name = name' := hname
    have htext : text = text' :=
      h.digests _ ht _ ht' (Freshness.digest.inj (Except.ok.inj hfresh))
    rw [hname, htext]
    exact ⟨rfl, rfl⟩
  · exact absurd hname (h.not_inlineName hn marks' text')
  · exact absurd hname.symm (h.not_inlineName hn' marks text)
  · have hname : Engine.inlineName marks text = Engine.inlineName marks' text' := hname
    rw [Engine.inlineName_eq, Engine.inlineName_eq, String.append_right_inj] at hname
    have hkey := h.shortDigests _ hi _ hi' hname
    obtain ⟨rfl, rfl⟩ := Engine.inlineKey_inj (h.delimiters _ hi) (h.delimiters _ hi') hkey
    exact ⟨rfl, rfl⟩

/-- What every session of a history has in common: the engine differs from the first one in its
sources only, all of them come from the history, and the cache is faithful to the compiler. -/
structure Reached (e : Engine) (l : MemoryLoader) (calls : List Call) (s : Session) : Prop where
  engine : ∃ loader : MemoryLoader, s.engine = { e with loader := .memory loader } ∧
    loader.naming = l.naming ∧ ∀ name text, loader.texts.lookup name = some text →
      name ∈ namesOf l calls ∧ text ∈ textsOf l calls
  cache : s.world.cache.Faithful (Asked e l calls) e.compileSource

theorem Reached.start {cache : Cache} (next : Label) (he : e.loader = .memory l)
    (hcache : cache.Faithful (Asked e l calls) e.compileSource) :
    Reached e l calls (.start e cache next) := by
  refine ⟨⟨l, ?_, rfl, ?_⟩, hcache⟩
  · rw [← he]
    rfl
  · intro name text hlookup
    have hmem := Table.mem_of_lookup hlookup
    exact ⟨List.mem_append_left _ (List.mem_map.2 ⟨_, hmem, rfl⟩),
      List.mem_append_left _ (List.mem_map.2 ⟨_, hmem, rfl⟩)⟩

/-- A named source that is found is one that the history can ask for. -/
theorem Reached.asked_of_source (h : Reached e l calls s) {location : String} {source : Source}
    (hsource : s.engine.loader.source location = .ok source) :
    Asked e l calls e.delimiters source := by
  obtain ⟨loader, hengine, -, htexts⟩ := h.engine
  rw [hengine] at hsource
  unfold Loader.source MemoryLoader.source at hsource
  dsimp only at hsource
  split at hsource
  · rename_i text htext
    cases hsource
    exact .named (htexts _ _ htext).1 (htexts _ _ htext).2
  · cases hsource

/-- Sources of the history are in memory, so they say how fresh they are. -/
theorem Asked.freshness {marks : Delimiters} {source : Source} (h : Asked e l calls marks source) :
    ∃ fresh, source.freshness = .ok fresh := by
  cases h with
  | named _ _ => exact ⟨_, rfl⟩
  | inline _ _ => exact ⟨_, rfl⟩

theorem Reached.compileSource_eq (h : Reached e l calls s) :
    s.engine.compileSource = e.compileSource ∧ s.engine.delimiters = e.delimiters := by
  obtain ⟨loader, hengine, -, -⟩ := h.engine
  rw [hengine]
  exact ⟨rfl, rfl⟩

/-- The inline source of a call of the history is one that the history can ask for. -/
theorem Reached.asked_inline (h : Reached e l calls s) {text opening closing : String}
    (hcall : .compileInline text opening closing ∈ calls) :
    Asked e l calls (s.engine.delimitersOr opening closing)
      (.memory (Engine.inlineName (s.engine.delimitersOr opening closing) text) text) := by
  have hmarks : s.engine.delimitersOr opening closing = e.delimitersOr opening closing := by
    unfold Engine.delimitersOr
    rw [h.compileSource_eq.2]
  rw [hmarks]
  exact .inline (List.mem_filterMap.2 ⟨_, hcall, rfl⟩)
    (List.mem_append_right _ (List.mem_filterMap.2 ⟨_, hcall, rfl⟩))

/-- Every call of the history leads to a session that it reaches. -/
theorem Reached.make (h : Reached e l calls s) (hcall : call ∈ calls) :
    Reached e l calls (call.make s).2 := by
  obtain ⟨hcompile, hmarks⟩ := h.compileSource_eq
  cases call with
  | put location text =>
    obtain ⟨loader, hengine, hnaming, htexts⟩ := h.engine
    refine ⟨⟨loader.put location text, ?_, hnaming, ?_⟩, h.cache⟩
    · unfold Call.make Engine.put
      rw [hengine]
    · intro name found hfound
      rw [MemoryLoader.put, MemoryLoader.putAt_eq, Table.lookup_put] at hfound
      split at hfound
      · rename_i hname
        cases hfound
        rw [hname, hnaming]
        exact ⟨List.mem_append_right _ (List.mem_filterMap.2 ⟨_, hcall, rfl⟩),
          List.mem_append_right _ (List.mem_filterMap.2 ⟨_, hcall, rfl⟩)⟩
      · exact htexts name found hfound
  | compile location =>
    refine ⟨h.engine, ?_⟩
    change (s.engine.compile s.world.cache s.world.nextTree location).2.1.Faithful _ _
    unfold Engine.compile
    split
    · rename_i source hsource
      rw [hcompile, hmarks]
      exact h.cache.get (h.asked_of_source hsource) _
    · exact h.cache
  | compileInline text opening closing =>
    refine ⟨h.engine, ?_⟩
    exact hcompile ▸ h.cache.get (h.asked_inline hcall) _
  | evict name => exact ⟨h.engine, h.cache.evict name⟩
  | clear => exact ⟨h.engine, .clear s.world.cache⟩
  | setReload reload => exact ⟨h.engine, h.cache.setReload reload⟩

/-- Every run of calls of the history leads to a session that it reaches. -/
theorem Reached.after (h : Reached e l calls s) {history : List Call}
    (hhistory : ∀ call ∈ history, call ∈ calls) : Reached e l calls (s.after history) := by
  induction history generalizing s with
  | nil => exact h
  | cons call history ih =>
    exact ih (h.make (hhistory call List.mem_cons_self))
      fun other hother => hhistory other (List.mem_cons_of_mem _ hother)

/-- While freshness is checked, a call of the history compiles what its source is now. -/
theorem Reached.outcome_eq (h : Reached e l calls s) (hapart : Unmistaken e l calls)
    (hcall : call ∈ calls) (hchecks : s.world.cache.Checks) :
    call.outcome s = call.fresh s.engine := by
  obtain ⟨hcompile, hmarks⟩ := h.compileSource_eq
  cases call with
  | compile location =>
    change some ((s.engine.compile s.world.cache s.world.nextTree location).1.map _) = some _
    unfold Engine.compile
    cases hsource : s.engine.loader.source location with
    | error failure => rfl
    | ok source =>
      have hasked := h.asked_of_source hsource
      obtain ⟨fresh, hfresh⟩ := hasked.freshness
      have hanswer := h.cache.get_answer hapart.toldApart hchecks hasked hfresh s.world.nextTree
      rw [hcompile, hmarks]
      exact congrArg some hanswer
  | compileInline text opening closing =>
    have hanswer := h.cache.get_answer hapart.toldApart hchecks (h.asked_inline hcall) rfl
      s.world.nextTree
    rw [← hcompile] at hanswer
    exact congrArg some hanswer
  | put _ _ | evict _ | clear | setReload _ => rfl

/-- What a call does to the engine has nothing to do with the cache. -/
theorem Call.make_engine (h : s.engine = t.engine) :
    (call.make s).2.engine = (call.make t).2.engine := by
  cases call with
  | put location text => exact congrArg (·.put location text) h
  | compile _ | compileInline _ _ _ | evict _ | clear | setReload _ => exact h

theorem after_engine (h : s.engine = t.engine) (history : List Call) :
    (s.after history).engine = (t.after history).engine := by
  induction history generalizing s t with
  | nil => exact h
  | cons call history ih => exact ih (Call.make_engine h)

/-- Where nothing is remembered, nothing is remembered after a call. -/
theorem Call.make_cache_none (h : s.world.cache = .none) : (call.make s).2.world.cache = .none := by
  cases call with
  | put location text => exact h
  | compile location =>
    change (s.engine.compile s.world.cache s.world.nextTree location).2.1 = .none
    unfold Engine.compile
    split
    · rw [h]
      exact Cache.get_none _ _ _
    · exact h
  | compileInline text opening closing =>
    change (s.engine.compileInline s.world.cache s.world.nextTree text _).2.1 = .none
    rw [h]
    exact Cache.get_none _ _ _
  | evict name => exact congrArg (·.evict name) h
  | clear => exact congrArg Cache.clear h
  | setReload reload => exact congrArg (·.setReload reload) h

theorem after_cache_none (h : s.world.cache = .none) (history : List Call) :
    (s.after history).world.cache = .none := by
  induction history generalizing s with
  | nil => exact h
  | cons call history ih => exact ih (Call.make_cache_none h)

/-- A reloading cache is indistinguishable from no cache. Whatever calls there were, with reload
checking on or off, a call that finds it on compiles the same template, or fails in the same way, as
it does after the same calls in a session without a cache. -/
theorem reloading_eq_uncached {e : Engine} {l : MemoryLoader} {history : List Call} {call : Call}
    (he : e.loader = .memory l) (hapart : Unmistaken e l (history ++ [call])) (reload : Bool)
    (next : Label)
    (hchecks : ((Session.start e (.empty reload) next).after history).world.cache.Checks) :
    call.outcome ((Session.start e (.empty reload) next).after history) =
      call.outcome ((Session.start e .none next).after history) := by
  have hhistory : ∀ other ∈ history, other ∈ history ++ [call] :=
    fun other hother => List.mem_append_left _ hother
  have hcall : call ∈ history ++ [call] := List.mem_append_right _ List.mem_cons_self
  have hcached : Reached e l (history ++ [call])
      ((Session.start e (.empty reload) next).after history) :=
    (Reached.start next he (.empty reload)).after hhistory
  have huncached : Reached e l (history ++ [call]) ((Session.start e .none next).after history) :=
    (Reached.start next he .none).after hhistory
  have hnone : ((Session.start e .none next).after history).world.cache.Checks := by
    rw [after_cache_none rfl]
    exact trivial
  have hstart : (Session.start e (.empty reload) next).engine =
      (Session.start e .none next).engine := rfl
  rw [hcached.outcome_eq hapart hcall hchecks, huncached.outcome_eq hapart hcall hnone,
    after_engine hstart]

/-- A page compiled, and changed while nothing is checked. -/
def changedPage : List Call :=
  [.put "page" "old", .compile "page", .compileInline "old" "" "", .put "page" "new",
    .setReload true]

theorem changedPage_unmistaken :
    Unmistaken .standard ⟨⟨"", ""⟩, []⟩ (changedPage ++ [.compile "page"]) := by
  have hne : Digest.sha1 "old" ≠ Digest.sha1 "new" := by decide +kernel
  have htexts : textsOf ⟨⟨"", ""⟩, []⟩ (changedPage ++ [.compile "page"]) = ["old", "old", "new"] :=
    rfl
  have hinlines : inlinesOf .standard (changedPage ++ [.compile "page"]) =
      [(.standard, "old")] := rfl
  have hnames : namesOf ⟨⟨"", ""⟩, []⟩ (changedPage ++ [.compile "page"]) = ["page", "page"] := by
    decide
  refine ⟨?_, ?_, ?_, ?_⟩
  · intro a ha b hb h
    rw [htexts] at ha hb
    simp only [List.mem_cons, List.not_mem_nil, or_false, or_self_left] at ha hb
    rcases ha with rfl | rfl <;> rcases hb with rfl | rfl
    · rfl
    · exact absurd h hne
    · exact absurd h.symm hne
    · rfl
  · intro a ha b hb _
    rw [hinlines] at ha hb
    rw [List.mem_singleton.1 ha, List.mem_singleton.1 hb]
  · intro a ha
    rw [hinlines] at ha
    rw [List.mem_singleton.1 ha]
    exact ⟨by decide, by decide⟩
  · rw [hnames]
    decide

theorem reloading_eq_uncached_changedPage :
    Call.outcome (.compile "page") ((Session.start .standard (.empty false) 0).after changedPage) =
      Call.outcome (.compile "page") ((Session.start .standard .none 0).after changedPage) :=
  reloading_eq_uncached rfl changedPage_unmistaken false 0 (Cache.checks_setReload _)

end Session

end Stencil
