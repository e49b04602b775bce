import Stencil.Proofs.Render.Nesting
import Stencil.Proofs.Scope.Reading

/-!
# Block parameters at any depth

Iterations bind the names that their section declares, and the sections nested in them put levels in
front: a child for a value that is entered, a child for an entry. None of these binds a name that its
section does not declare, so a block parameter is hidden by nothing but the members of the values that
are entered in between. There is no depth at which it is lost.
-/

namespace Stencil

open Render

/-- What a declared name is bound to in an iteration: the first one to the item, the second one to its
key, and further ones to nothing. -/
def boundTo (blockParams : List String) (entry : Value × Value) (name : String) : Option Value :=
  match blockParams with
  | [] => none
  | [item] => if name = item then some entry.2 else none
  | item :: key :: _ =>
    if name = key then some entry.1 else if name = item then some entry.2 else none

theorem boundTo_of_not_mem {blockParams : List String} {name : String} (h : name ∉ blockParams)
    (entry : Value × Value) : boundTo blockParams entry name = none := by
  match blockParams with
  | [] => rfl
  | [item] =>
    have hitem : name ≠ item := by simpa using h
    simp [boundTo, hitem]
  | item :: key :: _ =>
    have hitem : name ≠ item := fun heq => h (by simp [heq])
    have hkey : name ≠ key := fun heq => h (by simp [heq])
    simp [boundTo, hitem, hkey]

/-- In the scope of an iteration a declared name is bound, and the iteration variables are. -/
theorem lookup_iterationScope (scope : Scope) (blockParams : List String) (count index : Nat)
    (entry : Value × Value) (name : String) :
    (iterationScope scope blockParams count index entry).here.bindings.lookup name =
      (boundTo blockParams entry name).or
        ((Builtin.iterationVariables index count entry.1).lookup name) := by
  match blockParams with
  | [] => rfl
  | [item] =>
    show (Bindings.set item entry.2 (Builtin.iterationVariables index count entry.1)).lookup name = _
    rw [Bindings.lookup_set, boundTo]
    by_cases hitem : name = item
    · rw [if_pos hitem, if_pos hitem, Option.some_or]
    · rw [if_neg hitem, if_neg hitem, Option.none_or]
  | item :: key :: others =>
    have hzip : (item :: key :: others).zip [entry.2, entry.1] =
        [(item, entry.2), (key, entry.1)] := by simp
    have hbindings : (iterationScope scope (item :: key :: others) count index entry).here.bindings =
        (Builtin.iterationVariables index count entry.1).merge
          (Bindings.ofPairs [(item, entry.2), (key, entry.1)]) := by
      unfold iterationScope
      rw [hzip]
      rfl
    rw [hbindings, Bindings.lookup_merge_pair, boundTo]
    by_cases hkey : name = key
    · rw [if_pos hkey, if_pos hkey, Option.some_or]
    · rw [if_neg hkey, if_neg hkey]
      by_cases hitem : name = item
      · rw [if_pos hitem, if_pos hitem, Option.some_or]
      · rw [if_neg hitem, if_neg hitem, Option.none_or]

/-- The iteration variables all begin with the sign of data variables. -/
theorem lookup_iterationVariables {name : String} (h : '@' ∉ name.toList) (index count : Nat)
    (key : Value) : (Builtin.iterationVariables index count key).lookup name = none := by
  have hne (other : String) (hother : '@' ∈ other.toList) : name ≠ other := by
    rintro rfl
    exact h hother
  unfold Builtin.iterationVariables
  rw [Table.lookup_cons_of_ne (hne "@index" (by decide)),
    Table.lookup_cons_of_ne (hne "@key" (by decide)),
    Table.lookup_cons_of_ne (hne "@first" (by decide)),
    Table.lookup_cons_of_ne (hne "@last" (by decide)),
    Table.lookup_cons_of_ne (hne "@odd" (by decide)),
    Table.lookup_cons_of_ne (hne "@even" (by decide))]
  rfl

section

variable {name : String} (hname : '@' ∉ name.toList)

include hname

/-- An iteration puts a level in front that binds no names but those that are declared. -/
theorem Scope.Deepens.iteration (s : Scope) {blockParams : List String} (h : name ∉ blockParams)
    (count index : Nat) (entry : Value × Value) :
    s.Deepens name (iterationScope s blockParams count index entry) := by
  have hlookup : (iterationScope s blockParams count index entry).here.bindings.lookup name =
      none := by
    rw [lookup_iterationScope, boundTo_of_not_mem h, Option.none_or,
      lookup_iterationVariables hname]
  unfold iterationScope at hlookup ⊢
  dsimp only at hlookup ⊢
  split at hlookup
  · rename_i hnone
    rw [if_pos hnone]
    exact ⟨rfl, _, rfl, List.forall_mem_singleton.2 hlookup⟩
  · rename_i hsome
    rw [if_neg hsome]
    exact ⟨rfl, _, rfl, List.forall_mem_singleton.2 hlookup⟩

variable {e : Engine} {outer inner : Visit} {layer : Layer}

/-- A section renders its clauses in scopes that deepen its own. -/
theorem Opens.deepens (h : Opens e outer layer inner) (hlayer : name ∉ layer.head.blockParams) :
    outer.scope.Deepens name inner.scope := by
  obtain ⟨hparams, hscope⟩ := h.call
  obtain ⟨which, render, clauses, asked, -, hasks⟩ := h.asks
  have hcalled : outer.scope.Deepens name layer.told.call.scope := by
    rcases hscope with hscope | ⟨model, hscope⟩
    · rw [hscope]
      exact .refl _
    · rw [hscope]
      exact .child _ model rfl
  apply hcalled.trans
  rcases Builtin.asks_render hasks with ⟨-, h⟩ | ⟨-, h | h | ⟨count, index, entry, -, h⟩⟩
  · rw [h]
    exact .refl _
  · rw [h]
    exact .refl _
  · rw [h]
    exact .child _ _ rfl
  · rw [h]
    apply Scope.Deepens.iteration hname
    rw [hparams]
    exact hlayer

/-- So do sections nested to any depth, by induction on the sections. -/
theorem Nesting.deepens {layers : List Layer} (h : Nesting e outer layers inner)
    (hlayers : ∀ layer ∈ layers, name ∉ layer.head.blockParams) :
    outer.scope.Deepens name inner.scope := by
  induction h with
  | here visit => exact .refl visit.scope
  | inside hopens _ ih =>
    obtain ⟨hlayer, hlayers⟩ := List.forall_mem_cons.1 hlayers
    exact (hopens.deepens hname hlayer).trans (ih hlayers)

/-- The sections between an iteration and a reference hide a block parameter only by the members of
the values that they enter. A reference that begins with the name of a block parameter, at any depth of
built-in sections none of which declares the name again, reads the value that is bound in the current
iteration as long as no value entered in between has a member of that name; and where one has, the
member of the innermost one is read. -/
theorem blockParam_read {mid : Visit} {layers : List Layer} (hopens : Opens e outer layer mid)
    (heach : layer.told.helper.behaviour = .builtin .each) (hbody : layer.what = .body)
    (hnested : Nesting e mid layers inner)
    (hlayers : ∀ other ∈ layers, name ∉ other.head.blockParams) {reference : String}
    {rest : List String} (hpath : (Path.parse reference).BeginsWith name rest) (data : Bindings) :
    ∃ entries index entry between,
      Builtin.GoesThrough layer.told.subject layer.called entries ∧
      entries[index]? = some entry ∧
      mid.scope = iterationScope layer.told.call.scope layer.head.blockParams entries.length index
        entry ∧
      inner.scope.levels = between ++ mid.scope.levels ∧
      ∀ bound, boundTo layer.head.blockParams entry name = some bound →
        ((∀ level ∈ between, readMember level.model name inner.scope.resolvers = .ok none) →
          inner.scope.get data reference =
            (readMembers inner.scope.resolvers bound rest).mapError Failure.fault) ∧
        ∀ nearer level further v, between = nearer ++ level :: further →
          (∀ other ∈ nearer, readMember other.model name inner.scope.resolvers = .ok none) →
          readMember level.model name inner.scope.resolvers = .ok (some v) →
          inner.scope.get data reference =
            (readMembers inner.scope.resolvers v rest).mapError Failure.fault := by
  obtain ⟨which, render, clauses, asked, hwhich, hasks⟩ := hopens.asks
  rw [heach] at hwhich
  cases hwhich
  rcases Builtin.asks_each hasks with
    ⟨hwhat, -⟩ | ⟨-, entries, index, entry, hthrough, hentry, hmid⟩
  · rw [hbody] at hwhat
    cases hwhat
  rw [hopens.call.1] at hmid
  obtain ⟨hresolvers, between, hlevels, hbindings⟩ := hnested.deepens hname hlayers
  refine ⟨entries, index, entry, between, hthrough, hentry, hmid, hlevels, ?_⟩
  intro bound hbound
  have hhere : mid.scope.here.bindings.lookup name = some bound := by
    rw [hmid, lookup_iterationScope, hbound, Option.some_or]
  rw [Scope.get_of_beginsWith hpath, hlevels]
  constructor
  · intro hmembers
    rw [Scope.readLevels_append hbindings hmembers, Scope.levels,
      Scope.readLevels_of_found (Scope.readLevel_of_binding hhere)]
  · rintro nearer level further v rfl hnearer hmember
    obtain ⟨hnearerBindings, hlevelBindings⟩ := List.forall_mem_append.1 hbindings
    have hlevel := (List.forall_mem_cons.1 hlevelBindings).1
    have hfound : Scope.readLevel inner.scope.resolvers level name = .ok (some v) :=
      (Scope.readLevel_of_unbound hlevel).trans hmember
    rw [List.append_assoc, Scope.readLevels_append hnearerBindings hnearer, List.cons_append,
      Scope.readLevels_of_found hfound]

end

/-- Data with a list of one number, and a value to enter that has one member. -/
def enteredScope (member : String) : Scope :=
  .ofModel (.map 0 [(.text "xs", .list 1 [.int 1]),
    (.text "y", .map 2 [(.text member, .text "inner")])]) Resolver.standard

/-- The section `with y` around the reference `x`. -/
def enterAndRead : Node :=
  .block
    { place := none, inverted := false,
      call := { name := "with", args := [.reference "y"], helper := some ⟨0, .builtin .enter⟩ },
      blockParams := [], label := .word, elsePlace := none, delimiters := .standard }
    (some [.output none .plain { name := "x" } .standard]) none

theorem blockParam_read_entered :
    ∃ layer mid other inner,
      Opens .standard ⟨2, enteredScope "z", .block eachPair (some [enterAndRead]) none, {}⟩ layer
        mid ∧ Nesting .standard mid [other] inner ∧ inner.scope.get [] "x" = .ok (.int 1) := by
  let entry := iterationScope (enteredScope "z") ["x"] 1 0 (.int 0, .int 1)
  let entered := entry.child (.map 2 [(.text "z", .text "inner")]) []
  let mid : Visit := ⟨1, entry, enterAndRead, { side := ⟨[], .stack [[], []]⟩, nextLabel := 1 }⟩
  let inner : Visit := ⟨0, entered, .output none .plain { name := "x" } .standard,
    { side := ⟨[], .stack [[], [], []]⟩, nextLabel := 2 }⟩
  obtain ⟨layer, hopens, heach, hbody, hhead⟩ : ∃ layer, Opens .standard
      ⟨2, enteredScope "z", .block eachPair (some [enterAndRead]) none, {}⟩ layer mid ∧
        layer.told.helper.behaviour = .builtin .each ∧ layer.what = .body ∧
        layer.head = eachPair :=
    ⟨_, .intro ⟨_, _, rfl, rfl, rfl⟩ rfl (.later rfl .now) rfl (.first rfl rfl), rfl, rfl, rfl⟩
  obtain ⟨other, henters, hother⟩ : ∃ other, Opens .standard mid other inner ∧
      other.head.blockParams = [] :=
    ⟨_, .intro ⟨_, _, rfl, rfl, rfl⟩ rfl .now rfl (.first rfl rfl), rfl⟩
  have hnested : Nesting .standard mid [other] inner := .inside henters (.here inner)
  refine ⟨layer, mid, other, inner, hopens, hnested, ?_⟩
  have hundeclared : ∀ o ∈ [other], "x" ∉ o.head.blockParams := by
    simp [hother]
  have hpath : (Path.parse "x").BeginsWith "x" [] := ⟨rfl, rfl, rfl, rfl⟩
  obtain ⟨entries, index, found, between, -, -, hmid, hlevels, hread⟩ :=
    blockParam_read (by decide) hopens heach hbody hnested hundeclared hpath []
  rw [hhead] at hmid hread
  have hitem : Value.int 1 = found.2 := congrArg (fun s : Scope => s.here.model) hmid
  have hbound : boundTo eachPair.blockParams found "x" = some (.int 1) := by
    rw [hitem]
    rfl
  have hbetween : [⟨.map 2 [(.text "z", .text "inner")], []⟩] ++ mid.scope.levels =
      between ++ mid.scope.levels := hlevels
  rw [← List.append_cancel_right hbetween] at hread
  exact (hread _ hbound).1 (List.forall_mem_singleton.2 rfl)

/-- A member of a value that is entered hides a block parameter of the same name: the reference reads
the item where nothing is entered, and the member where a value that has one is. -/
theorem entered_member_read :
    (iterationScope (enteredScope "x") ["x"] 1 0 (.int 0, .int 1)).get [] "x" = .ok (.int 1) ∧
      ((renderNode .standard (renderFragment .standard 3) (enteredScope "x")
        (.block eachPair (some [enterAndRead]) none)).outcome {}).map (·.2.output) =
          some "inner" := by
  refine ⟨rfl, by decide +kernel⟩

end Stencil
