import Stencil.Proofs.Cache.Giving
import Stencil.Proofs.Harmless
import Stencil.Proofs.Helper.BuiltIn
import Stencil.Proofs.Loader.Sources
import Stencil.Proofs.Node.Binding
import Stencil.Proofs.Render.Fragment
import Stencil.Proofs.Value.Clean
import Stencil.Render.Context

/-!
# What a page is made of

Rendered against clean data, templates that never ask for unescaped output come to nothing but their
own texts and harmless text: no data can bring markup into the page. The answers of sections are
written as they are, so what is carried through the render is that every text in any buffer is made
of such pieces already.
-/

namespace Stencil

/-- A text put together from texts with `T` and harmless ones. -/
def Composed (T : String → Prop) (s : String) : Prop :=
  ∃ pieces : List String, s = String.join pieces ∧ ∀ piece ∈ pieces, T piece ∨ Harmless piece

namespace Composed

variable {T : String → Prop} {s t : String}

theorem empty : Composed T "" := ⟨[], rfl, fun _ hpiece => nomatch hpiece⟩

theorem single (h : T s ∨ Harmless s) : Composed T s := by
  refine ⟨[s], by simp, fun piece hpiece => ?_⟩
  rw [List.mem_singleton.1 hpiece]
  exact h

theorem append (hs : Composed T s) (ht : Composed T t) : Composed T (s ++ t) := by
  obtain ⟨pieces, rfl, hpieces⟩ := hs
  obtain ⟨others, rfl, hothers⟩ := ht
  refine ⟨pieces ++ others, String.join_append.symm, fun piece hpiece => ?_⟩
  rcases List.mem_append.1 hpiece with hpiece | hpiece
  · exact hpieces piece hpiece
  · exact hothers piece hpiece

end Composed

/-- Nodes that ask for no unescaped output: neither tags in three braces or behind an ampersand nor
sections whose name is that of the helper `lookup`. -/
def Node.Inert : Node → Prop
  | output _ style _ _ => style = .plain
  | block head _ _ => head.call.name ≠ Builtin.lookup.name
  | _ => True

/-- All names of a template that are bound to helpers are bound to the built-ins of these names. -/
def Template.BuiltIn (t : Template) : Prop := t.Binds fun b => b.2.IsBuiltIn b.1

/-- The templates that a template reaches by the names of its partials, as the cache holds them or
as they will be compiled when it does not. -/
inductive Reached (e : Engine) (cache : Cache) (t : Template) : Template → Prop where
  | self : Reached e cache t t
  | cached {u : Template} {place name args hash marks source found} :
      Reached e cache t u → .inclusion place name args hash marks ∈ Node.withinAll u.root →
      e.loader.source name = .ok source → cache.find? source = .ok (some found) →
      Reached e cache t found.template
  | compiled {u v : Template} {place name args hash marks source} :
      Reached e cache t u → .inclusion place name args hash marks ∈ Node.withinAll u.root →
      e.loader.source name = .ok source → cache.find? source = .ok .none →
      e.compileSource e.delimiters source = .ok v → Reached e cache t v

/-- The texts of the templates that a template reaches. -/
def TextReached (e : Engine) (cache : Cache) (t : Template) (s : String) : Prop :=
  ∃ u, Reached e cache t u ∧ ∃ place, .text place s ∈ Node.withinAll u.root

/-- A cache that holds, for the sources of an engine, what another cache held, and otherwise only
what these sources compile to. -/
structure Cache.Extends (e : Engine) (initial cache : Cache) : Prop where
  remembers : cache = .none → initial = .none
  kept : ∀ {location source found}, e.loader.source location = .ok source →
    initial.find? source = .ok (some found) → cache.find? source = .ok (some found)
  added : ∀ {location source found}, e.loader.source location = .ok source →
    cache.find? source = .ok (some found) → initial.find? source = .ok (some found) ∨
      initial.find? source = .ok .none ∧ e.compileSource e.delimiters source = .ok found.template

namespace Cache.Extends

variable {e : Engine} {initial cache : Cache} {location : String} {source : Source}
  {freshness : Freshness}

theorem refl (e : Engine) (initial : Cache) : Cache.Extends e initial initial :=
  ⟨fun h => h, fun _ h => h, fun _ h => .inl h⟩

/-- Where nothing is remembered of a source that is then compiled, nothing was at first. -/
theorem find?_initial (h : Cache.Extends e initial cache)
    (hsource : e.loader.source location = .ok source) (hnone : cache.find? source = .ok .none)
    (hfresh : cache = .none ∨ source.freshness = .ok freshness) :
    initial.find? source = .ok .none := by
  cases hinitial : initial.find? source with
  | error failure =>
    obtain ⟨hsilent, hne⟩ := Cache.find?_error hinitial
    rcases hfresh with hfresh | hfresh
    · exact absurd (h.remembers hfresh) hne
    · cases hsilent.symm.trans hfresh
  | ok found =>
    cases found with
    | none => rfl
    | some found => cases (h.kept hsource hinitial).symm.trans hnone

/-- A template remembered for a source that had none. -/
theorem store (h : Cache.Extends e initial cache) {compiled : Compiled}
    (hsource : e.loader.source location = .ok source) (hnone : cache.find? source = .ok .none)
    (hfresh : cache = .none ∨ source.freshness = .ok freshness)
    (hcompiled : e.compileSource e.delimiters source = .ok compiled.template) :
    Cache.Extends e initial (cache.store source.name ⟨compiled, freshness⟩) := by
  refine ⟨fun hstored => ?_, fun {_ other found} hother hfound => ?_,
    fun {_ other found} hother hfound => ?_⟩
  · cases cache with
    | none => exact h.remembers rfl
    | entries reload known => cases hstored
  · have hkept := h.kept hother hfound
    by_cases hname : other.name = source.name
    · rw [Loader.source_eq_of_name hother hsource hname, hnone] at hkept
      cases hkept
    · rw [Cache.find?_store_of_ne hname]
      exact hkept
  · by_cases hname : other.name = source.name
    · have hsame := Loader.source_eq_of_name hother hsource hname
      subst hsame
      rw [Cache.find?_store_of_eq hfound]
      exact .inr ⟨h.find?_initial hother hnone hfresh, hcompiled⟩
    · rw [Cache.find?_store_of_ne hname] at hfound
      exact h.added hother hfound

end Cache.Extends

section

variable {e : Engine} {initial cache : Cache} {t u : Template}

/-- Compiling a partial that is reached gives a template that is reached. -/
theorem compile_reached (hcache : Cache.Extends e initial cache) (hu : Reached e initial t u)
    {place : Option Location} {name : String} {args : List Param} {hash : HashParams}
    {marks : Delimiters} (hmem : .inclusion place name args hash marks ∈ Node.withinAll u.root)
    (next : Nat) :
    Cache.Extends e initial (e.compile cache next name).2.1 ∧
      Meets (fun _ => True) (fun found => Reached e initial t found.template)
        (e.compile cache next name).1 := by
  unfold Engine.compile
  split
  · rename_i source hsource
    obtain ⟨answer, made, hget, -, hgets⟩ :=
      Cache.get_cases cache next source (e.compileSource e.delimiters)
    rw [hget]
    cases hgets with
    | served hfound =>
      refine ⟨hcache, .ok ?_⟩
      rcases hcache.added hsource hfound with hinitial | ⟨hnone, hcompiled⟩
      · exact .cached hu hmem hsource hinitial
      · exact .compiled hu hmem hsource hnone hcompiled
    | made hnone hfresh htemplate =>
      refine ⟨hcache.store hsource hnone hfresh htemplate, .ok ?_⟩
      exact .compiled hu hmem hsource (hcache.find?_initial hsource hnone hfresh) htemplate
    | silent | failed => exact ⟨hcache, .error trivial⟩
  · exact ⟨hcache, .error trivial⟩

/-- With built-in helpers only, all templates that are reached are bound to built-ins. -/
theorem Reached.builtIn (hregistry : e.registry.BuiltIn) (ht : t.BuiltIn)
    (hcache : ∀ source found, cache.find? source = .ok (some found) → found.template.BuiltIn)
    (hu : Reached e cache t u) : u.BuiltIn := by
  induction hu with
  | self => exact ht
  | cached _ _ _ hfound => exact hcache _ _ hfound
  | compiled _ _ _ _ hcompiled =>
    have hbinds : BindsOnly e.registry.lookup fun b => b.2.IsBuiltIn b.1 := hregistry
    obtain ⟨text, -, hparsed⟩ := bind_eq_ok_iff.1 hcompiled
    exact (Template.ofSource_meets hbinds _ _ _).of_ok hparsed

/-- A template without partial tags reaches itself only. -/
theorem Reached.eq_self (ht : ∀ place name args hash marks,
      Node.inclusion place name args hash marks ∉ Node.withinAll t.root)
    (hu : Reached e cache t u) : u = t := by
  induction hu with
  | self => rfl
  | cached _ hmem _ _ ih =>
    rw [ih] at hmem
    exact absurd hmem (ht _ _ _ _ _)
  | compiled _ hmem _ _ _ ih =>
    rw [ih] at hmem
    exact absurd hmem (ht _ _ _ _ _)

end

namespace Regime

/-- The regime of pages made of pieces: clean data, and the nodes of templates that are reached. -/
def ofPieces (e : Engine) (cache : Cache) (t : Template) : Regime where
  value := Value.Clean
  text := Composed (TextReached e cache t)
  source _ := False
  failure _ := True
  node n := ∃ u, Reached e cache t u ∧ n ∈ Node.withinAll u.root
  cache := Cache.Extends e cache

variable {e : Engine} {cache : Cache} {t : Template}

theorem ofPieces_closed (e : Engine) (cache : Cache) (t : Template) :
    (ofPieces e cache t).Closed where
  text_empty := Composed.empty
  text_append hs ht := hs.append ht
  failure_own _ := trivial
  failure_locate _ _ := trivial
  failure_fromHelper _ _ := trivial
  value_literal := Value.Clean.literal
  value_member := membersKeep_clean
  value_inner hv := hv.inner

/-- Nodes that are reached and everything that is said of them. -/
theorem node_ofPieces (hbuiltIn : ∀ u, Reached e cache t u → u.BuiltIn)
    (hinert : ∀ u, Reached e cache t u → Node.Every Node.Inert u.root) {n : Node}
    (hn : (ofPieces e cache t).node n) : n.Inert ∧ n.TagBinds fun b => b.2.IsBuiltIn b.1 := by
  obtain ⟨u, hu, hmem⟩ := hn
  exact ⟨hinert u hu n hmem, hbuiltIn u hu n hmem⟩

theorem servesAll_ofPieces {bound : List Bound} (h : ∀ b ∈ bound, b.2.IsBuiltIn b.1) :
    (ofPieces e cache t).ServesAll bound := by
  intro b hb
  obtain ⟨which, hwhich, -⟩ := h b hb
  exact serves_builtin (ofPieces_closed e cache t) hwhich fun h => nomatch h

/-- What a plain tag writes is harmless, because clean data is never safe. -/
theorem harmless_written {v : Value} (hv : v.Clean) (text : String) :
    Harmless (OutputStyle.plain.written .html v text) := by
  have hsafe := hv.not_safe
  cases v with
  | safe s => exact absurd hsafe (by simp [Value.isSafe])
  | _ => exact harmless_escape text

theorem ofPieces_lawful (hescaping : e.escaping = .html) (hregistry : e.registry.BuiltIn)
    (htransformer : e.transformer.Clean) (hbuiltIn : ∀ u, Reached e cache t u → u.BuiltIn)
    (hinert : ∀ u, Reached e cache t u → Node.Every Node.Inert u.root) :
    (ofPieces e cache t).Lawful e where
  toClosed := ofPieces_closed e cache t
  value_transform label hv := htransformer.apply label hv
  node_text {place content} h := by
    obtain ⟨u, hu, hmem⟩ := h
    exact Composed.single (.inl ⟨u, hu, place, hmem⟩)
  node_output {place style call marks} h := by
    obtain ⟨hstyle, hbound⟩ := node_ofPieces hbuiltIn hinert h
    refine ⟨servesAll_ofPieces fun b hb => hbound b (List.mem_append_right _ hb), ?_⟩
    intro helper hhelper
    have hown := Invocation.mem_ownBound.2 ⟨rfl, hhelper⟩
    obtain ⟨which, hwhich, -⟩ := hbound (call.name, helper) (List.mem_append_left _ hown)
    refine serves_builtin (ofPieces_closed e cache t) hwhich fun htag => ?_
    cases style <;> cases htag
  node_written {place style call marks v drawn text drawn'} h hv _ := by
    obtain ⟨hstyle, -⟩ := node_ofPieces hbuiltIn hinert h
    cases (hstyle : style = .plain)
    rw [hescaping]
    exact Composed.single (.inr (harmless_written hv text))
  node_block {head body inverse} h := by
    obtain ⟨hname, hbound⟩ := node_ofPieces hbuiltIn hinert h
    refine ⟨servesAll_ofPieces fun b hb => hbound b (List.mem_append_right _ hb), ?_⟩
    intro helper hhelper
    have hown := Invocation.mem_ownBound.2 ⟨rfl, hhelper⟩
    obtain ⟨which, hwhich, (hwhichName : which.name = head.call.name)⟩ :=
      hbound (head.call.name, helper) (List.mem_append_left _ hown)
    refine serves_builtin (ofPieces_closed e cache t) hwhich fun _ hlookup => hname ?_
    rw [← hwhichName, hlookup]
  node_inclusion h := servesAll_ofPieces (node_ofPieces hbuiltIn hinert h).2
  compile {place name args hash marks} cache' next h hcache := by
    obtain ⟨u, hu, hmem⟩ := h
    obtain ⟨hextends, hmeets⟩ := compile_reached hcache hu hmem next
    exact ⟨hextends, hmeets.mono (fun _ h => h) fun found hfound n hn => ⟨_, hfound, hn⟩⟩
  registry {name helper} h tag htag := by
    obtain ⟨which, hwhich, hname⟩ := hregistry name helper h
    refine serves_builtin (ofPieces_closed e cache t) hwhich fun hblock hlookup => ?_
    have hmem := htag hblock
    rw [← hname, hlookup] at hmem
    exact absurd hmem (by decide)
  parse _ _ h := h.elim
  lambda hv hlambda := by
    rw [hv.not_lambda] at hlambda
    cases hlambda

end Regime

/-- The side channel of a host's data holds that data, and frames without nodes. -/
theorem SideChannel.ofData_holds {P : Value → Prop} {Q : Node → Prop} {data : List (String × Value)}
    (h : ∀ entry ∈ data, P entry.2) :
    (SideChannel.ofData data).data.All P ∧ (SideChannel.ofData data).frames.Every Q := by
  refine ofData_induct (J := fun c => c.data.All P ∧ c.frames.Every Q)
    ⟨Bindings.All.nil, Frames.Every.initial⟩ (fun c name v hc hv => ?_) h
  unfold SideChannel.set
  split
  · exact ⟨hc.1, Frames.Every.ofValue v⟩
  · exact ⟨hc.1.set hv, hc.2⟩

/-- Clean data brings no markup into a page: with the built-in helpers and HTML escaping, a template
that reaches inert templates only writes nothing but their texts and harmless text, however the
render ends. -/
theorem page_composed {e : Engine} {t : Template} {w : World} {model : Value}
    {data : List (String × Value)} (hescaping : e.escaping = .html)
    (hregistry : e.registry.BuiltIn) (htransformer : e.transformer.Clean)
    (ht : t.BuiltIn)
    (hcache : ∀ source found, w.cache.find? source = .ok (some found) → found.template.BuiltIn)
    (hinert : ∀ u, Reached e w.cache t u → Node.Every Node.Inert u.root) (hmodel : model.Clean)
    (hdata : ∀ entry ∈ data, entry.2.Clean) {page : Rendering}
    (hpage : t.renderAgainst e (.ofModel model data e.resolvers) w = some page) :
    Composed (TextReached e w.cache t) page.output := by
  have hbuiltIn : ∀ u, Reached e w.cache t u → u.BuiltIn :=
    fun u hu => hu.builtIn hregistry ht hcache
  have L := Regime.ofPieces_lawful hescaping hregistry htransformer hbuiltIn hinert
  obtain ⟨hside, hframes⟩ :=
    SideChannel.ofData_holds (Q := (Regime.ofPieces e w.cache t).node) hdata
  have hstart : (Regime.ofPieces e w.cache t).Holds (SideChannel.ofData data).frames
      { w with side := SideChannel.ofData data, output := "" } :=
    ⟨hside, Composed.empty, Cache.Extends.refl e w.cache, hframes, Frames.SameBelow.refl _⟩
  obtain ⟨⟨r, after⟩, hrun, rfl⟩ := Option.map_eq_some_iff.1 hpage
  have hroot : (Regime.ofPieces e w.cache t).Tree t.root := fun n hn => ⟨t, .self, hn⟩
  have hkeeps := Regime.renderFragment_within L standardDepth (SideChannel.ofData data).frames
    t.fragment (.ofModel model e.resolvers) hroot (Scope.All.ofModel hmodel e.resolvers)
  exact (hkeeps _ r after hstart hrun).1.output

/-- A page that greets a name if there is one. -/
def greeting : Template where
  name := "greeting"
  root := [.block
    { place := none, inverted := false,
      call := { name := "if", args := [.reference "name"], helper := some ⟨0, .builtin .branch⟩ },
      blockParams := [], label := .word, elsePlace := none, delimiters := .standard }
    (some [.text none "<b>", .output none .plain { name := "name" } .standard, .text none "</b>"])
    none]

/-- A name that is meant to be more than a name. -/
def bold : Value := .map 0 [(.text "name", .text "<Ada & Co>")]

theorem page_composed_greeting :
    ∃ page, greeting.renderAgainst Engine.standard (.ofModel bold [] Engine.standard.resolvers) {} =
        some page ∧
      page.output = "<b>&lt;Ada &amp; Co&gt;</b>" ∧
      Composed (TextReached Engine.standard .none greeting) page.output := by
  have hself (u : Template) (hu : Reached Engine.standard .none greeting u) : u = greeting := by
    refine hu.eq_self fun place name args hash marks hmem => ?_
    simp [greeting, Node.withinAll, Node.within] at hmem
  have hbuiltIn : greeting.BuiltIn := by
    intro n hn b hb
    simp only [greeting, Node.withinAll, Node.within, List.append_nil, List.mem_cons,
      List.cons_append, List.nil_append, List.not_mem_nil, or_false] at hn
    rcases hn with rfl | rfl | rfl | rfl
    · rw [List.mem_singleton.1 hb]
      exact ⟨.branch, rfl, rfl⟩
    all_goals exact absurd hb List.not_mem_nil
  have hinert (u : Template) (hu : Reached Engine.standard .none greeting u) :
      Node.Every Node.Inert u.root := by
    intro n hn
    rw [hself u hu] at hn
    simp only [greeting, Node.withinAll, Node.within, List.append_nil, List.mem_cons,
      List.cons_append, List.nil_append, List.not_mem_nil, or_false] at hn
    rcases hn with rfl | rfl | rfl | rfl
    · exact (by decide : "if" ≠ "lookup")
    · trivial
    · rfl
    · trivial
  have hclean : bold.Clean := by
    refine .intro rfl rfl fun u hu => ?_
    simp only [bold, Value.inner, List.flatMap_cons, List.flatMap_nil, List.append_nil,
      List.mem_cons, List.not_mem_nil, or_false] at hu
    rcases hu with rfl | rfl <;> exact Value.Clean.literal (.text _)
  have houtput : (greeting.renderAgainst Engine.standard
      (.ofModel bold [] Engine.standard.resolvers) {}).map (·.output) =
        some "<b>&lt;Ada &amp; Co&gt;</b>" := by
    decide +kernel
  obtain ⟨page, hpage, hwritten⟩ := Option.map_eq_some_iff.1 houtput
  have hcache (source : Source) (found : Compiled) (h : Cache.none.find? source = .ok (some found)) :
      found.template.BuiltIn := by cases h
  have hdata : ∀ entry ∈ ([] : List (String × Value)), entry.2.Clean := List.forall_mem_nil _
  exact ⟨page, hpage, hwritten, page_composed rfl (Registry.BuiltIn.standard false 0)
    Transformer.Clean.standard hbuiltIn hcache hinert hclean hdata hpage⟩

end Stencil
