import Stencil.Proofs.Cache.Alike
import Stencil.Proofs.Node.Rereading
import Stencil.Proofs.Render.Mirrored
import Stencil.Session

/-!
# Strict rendering only adds errors

A strict engine has one more helper, which takes names that nothing stands for and always fails. As
long as a strict render succeeds that helper has not been called, so everything else has happened as
it does without it. Trees may be bound to it, though, in the page and in what is compiled on the way,
so the caches of the two engines differ as well.
-/

namespace Stencil

open Render

/-- The engine that answers names that nothing stands for with an error. -/
def Engine.strictly (e : Engine) (stamp : Nat) : Engine :=
  { e with registry := e.registry.strictly stamp }

namespace Mirroring

/-- A strict render beside one that is not: everything is the same as long as the strict one
succeeds. -/
def strict : Mirroring where
  value _ := True
  failures := False
  cache := Cache.Alike

theorem strict_closed : strict.Closed where
  value_literal _ := trivial
  value_member _ _ _ _ _ _ := trivial
  value_inner _ _ _ := trivial
  value_frames _ := trivial

theorem missing_refuses (stamp : Nat) : Helper.Refuses ⟨stamp, .builtin .missing⟩ :=
  fun _ _ => ⟨_, rfl⟩

section

variable {e : Engine} (he : e.registry.BuiltIn) (stamp : Nat)

include he

/-- Every name finds the same helper on both sides, except for the name of the helper that always
fails. -/
theorem strict_pairs (name : String) :
    strict.Pairs ((e.strictly stamp).registry.lookup name) (e.registry.lookup name) := by
  show strict.Pairs ((e.registry.put Builtin.missing.name _).lookup name) _
  rw [Registry.lookup_put]
  split
  · exact .refusing id (missing_refuses stamp)
  · cases hname : e.registry.lookup name with
    | none => exact .nothing
    | some helper => exact .serving (strict_closed.serves (he name helper hname))

/-- A source compiles on both sides or on neither, to trees that are alike. -/
theorem strict_parse (marks : Delimiters) (name text : String) :
    Agree Eq (Template.Alike strict.resemblance) ((e.strictly stamp).parse marks name text)
      (e.parse marks name text) :=
  (Template.ofSource_agree (strict_pairs he stamp) marks name text).mono
    (fun _ _ h => h.eq trivial) fun _ _ h => h

theorem strict_lawful : strict.Lawful (e.strictly stamp) e where
  toClosed := strict_closed
  value_transform _ _ := trivial
  transformer := rfl
  escaping := rfl
  delimiters := rfl
  registry name _ := strict_pairs he stamp name
  lambda _ _ := strict_parse he stamp

theorem strict_compile {cache cache' : Cache} (h : cache.Alike strict.resemblance cache')
    (next : Nat) (location : String) :
    Cache.GetAlike strict.resemblance Eq ((e.strictly stamp).compile cache next location)
      (e.compile cache' next location) := by
  have hloader : e.loader = (e.strictly stamp).loader := rfl
  exact Engine.compile_alike hloader (fun _ => rfl) (fun source =>
    Engine.compileSource_alike (fun _ => rfl) source fun text => strict_parse he stamp _ _ text) h next
    location

/-- Partials are compiled alike. -/
theorem mirrors_compiled (name : String) :
    strict.Mirrors (partialOf.compiled (e.strictly stamp) name) (partialOf.compiled e name)
      (Fragment.Alike strict.resemblance) := by
  intro w w' r after hw hr _
  cases hw with
  | @beside frames cache hdata hframes hcache =>
    obtain ⟨hresult, hleft, hnext⟩ := strict_compile he stamp hcache w.nextTree name
    cases hr
    refine ⟨_, _, rfl, ?_, ?_⟩
    · exact .map (hresult.mono (fun _ _ h => h) fun _ _ h => ⟨h.template.place, h.template.root⟩)
    · show strict.Worlds _ { w.beside frames cache with
        cache := _, nextTree := (e.compile cache w.nextTree name).2.2 }
      rw [← hnext]
      exact .beside hdata hframes hleft

/-- A page that a strict engine renders is rendered by the other engine, with the same output. -/
theorem strict_renderAgainst {t t' : Template} (ht : t.Alike strict.resemblance t')
    (model : Value) (data : List (String × Value)) {w : World} {cache : Cache}
    (hcache : w.cache.Alike strict.resemblance cache) {r : Rendering}
    (hr : t.renderAgainst (e.strictly stamp) (.ofModel model data e.resolvers) w = some r)
    (hok : r.result = .ok ()) :
    ∃ r', t'.renderAgainst e (.ofModel model data e.resolvers) { w with cache } = some r' ∧
      r'.result = .ok () ∧ r'.output = r.output := by
  have hscope : (Scope.ofModel model e.resolvers).All strict.value :=
    Scope.All.ofModel trivial e.resolvers
  have hdata : (SideChannel.ofData data).data.All strict.value ∧
      (SideChannel.ofData data).frames.Alike strict.resemblance strict.value
        (SideChannel.ofData data).frames :=
    SideChannel.ofData_alike (fun _ _ _ => trivial) fun _ _ => trivial
  have hmirrors := renderFragmentBy_alike (strict_lawful he stamp) (mirrors_compiled he stamp)
    standardDepth t.fragment t'.fragment _ ⟨ht.place, ht.root⟩ hscope
  rw [renderFragmentBy_compiled, renderFragmentBy_compiled] at hmirrors
  obtain ⟨⟨result, after⟩, hrun, rfl⟩ := Option.map_eq_some_iff.1 hr
  have hresult : result = .ok () := hok
  subst hresult
  have hstart : strict.Worlds { w with side := .ofData data, output := "" }
      (World.beside { w with side := .ofData data, output := "" } (SideChannel.ofData data).frames
        cache) := .beside hdata.1 hdata.2 hcache
  obtain ⟨r', after', hrun', hagree, hafter⟩ :=
    hmirrors _ _ (.ok ()) after hstart hrun (.inr ⟨(), rfl⟩)
  obtain ⟨_, rfl, -⟩ := hagree.of_ok rfl
  cases hafter with
  | beside => exact ⟨_, congrArg (Option.map _) hrun', rfl, rfl⟩

end

end Mirroring

/-- Whatever the first of two renderings succeeds in, the second succeeds in too, and it writes the
same. -/
def Rendering.Follows (x y : Option Rendering) : Prop :=
  ∀ r, x = some r → r.result = .ok () → ∃ r', y = some r' ∧ r'.result = .ok () ∧ r'.output = r.output

namespace Session

/-- What has been compiled, rendered against a context. What does not compile writes nothing. -/
def rendered (c : Context) : Except Failure Compiled × Session → Option Rendering
  | (.ok compiled, s) => s.render compiled.template c
  | (.error failure, s) =>
    some { result := .error failure, output := "", context := c, world := s.world }

/-- Source given as it is, rendered against a context. -/
def renderInline (s : Session) (text : String) (marks : Delimiters) (c : Context) :
    Option Rendering :=
  rendered c (s.compileInline text marks)

/-- When two engines have compiled alike, what the strict one renders is followed by the other. -/
theorem follows_of_compiled {e : Engine} (he : e.registry.BuiltIn) (stamp : Nat) {cache : Cache}
    (next : Label) (model : Value) (data : List (String × Value))
    {compile compile' : Cache → Nat → Except Failure Compiled × Cache × Nat}
    (h : Cache.GetAlike Mirroring.strict.resemblance Eq (compile cache 0) (compile' cache 0)) :
    Rendering.Follows
      (rendered (.ofModel model data e.resolvers)
        ((Session.start (e.strictly stamp) cache next).compiling compile))
      (rendered (.ofModel model data e.resolvers)
        ((Session.start e cache next).compiling compile')) := by
  intro r hr hok
  obtain ⟨hresult, hcache, hnext⟩ := h
  unfold compiling at hr ⊢
  dsimp only [Session.start] at hr ⊢
  generalize compile cache 0 = x at hr hresult hcache hnext
  generalize compile' cache 0 = y at hresult hcache hnext ⊢
  obtain ⟨result, left, number⟩ := x
  obtain ⟨result', left', number'⟩ := y
  cases (hnext : number = number')
  cases hresult with
  | ok hcompiled =>
    exact Mirroring.strict_renderAgainst he stamp hcompiled.template model data hcache hr hok
  | error =>
    cases hr
    cases hok

/-- Strict rendering only adds errors: what an engine that has not compiled anything yet compiles and
renders strictly, it compiles and renders without being strict, with the same output. The page may
be a template of the loader or source given as it is, and the model and the data may hold anything. -/
theorem strict_adds_errors_only {e : Engine} (he : e.registry.BuiltIn) (stamp : Nat) {cache : Cache}
    (hcache : cache.size = 0) (next : Label) (model : Value) (data : List (String × Value)) :
    (∀ location, Rendering.Follows
      ((Session.start (e.strictly stamp) cache next).renderAt location
        (.ofModel model data e.resolvers))
      ((Session.start e cache next).renderAt location (.ofModel model data e.resolvers))) ∧
    ∀ text marks, Rendering.Follows
      ((Session.start (e.strictly stamp) cache next).renderInline text marks
        (.ofModel model data e.resolvers))
      ((Session.start e cache next).renderInline text marks (.ofModel model data e.resolvers)) := by
  have halike : cache.Alike Mirroring.strict.resemblance cache := .of_size hcache
  constructor
  · intro location
    exact follows_of_compiled he stamp next model data
      (Mirroring.strict_compile he stamp halike 0 location)
  · intro text marks
    exact follows_of_compiled he stamp next model data
      (halike.get (fun _ => rfl) 0 (.memory (Engine.inlineName marks text) text)
        (Mirroring.strict_parse he stamp marks _ text))

/-- A page with a name that nothing stands for, in a clause that is rendered for nobody. -/
def doorkeeper : Engine :=
  { Engine.standard with
    loader := .memory ⟨⟨"", ""⟩,
      [("page", "\x7b\x7b#if name\x7d\x7dHi \x7b\x7bname\x7d\x7d\x7b\x7belse\x7d\x7d" ++
        "\x7b\x7bnobody\x7d\x7d\x7b\x7b/if\x7d\x7d")]⟩ }

/-- Who comes to the door. -/
def visitor : Value := .map 0 [(.text "name", .text "Ada")]

theorem strict_adds_errors_only_doorkeeper :
    (Cache.empty false).size = 0 ∧ ∃ r r' : Rendering,
      (Session.start (doorkeeper.strictly 1) (.empty false) 1).renderAt "page"
        (.ofModel visitor [] doorkeeper.resolvers) = some r ∧
      (Session.start doorkeeper (.empty false) 1).renderAt "page"
        (.ofModel visitor [] doorkeeper.resolvers) = some r' ∧
      r'.result = .ok () ∧ r'.output = r.output ∧ r.output = "Hi Ada" := by
  have hfresh : (Cache.empty false).size = 0 := rfl
  have hrun : ((Session.start (doorkeeper.strictly 1) (.empty false) 1).renderAt "page"
      (.ofModel visitor [] doorkeeper.resolvers)).map (fun r => (r.result.toBool, r.output)) =
        some (true, "Hi Ada") := by
    decide +kernel
  obtain ⟨r, hr, hends⟩ := Option.map_eq_some_iff.1 hrun
  have hok : r.result = .ok () := by
    cases hresult : r.result with
    | ok _ => rfl
    | error f =>
      rw [hresult] at hends
      cases hends
  obtain ⟨r', hr', hok', hsame⟩ := (strict_adds_errors_only (e := doorkeeper)
    (Registry.BuiltIn.standard false 0) 1 hfresh 1 visitor []).1 "page" r hr hok
  exact ⟨hfresh, r, r', hr, hr', hok', hsame, congrArg Prod.snd hends⟩

end Session

end Stencil
