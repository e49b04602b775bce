import Stencil.Proofs.Agreement
import Stencil.Proofs.Helper.Fresh
import Stencil.Proofs.Node.Alike

/-!
# Two renders side by side

Two engines render trees that are alike in worlds that are alike, and the second does what the first
does. A mirroring says what may differ: what the names of the trees are bound to, the inline partials
that come from the trees, and the caches. It also says whether failures count. Where they do not, the
first render is followed only as long as it succeeds, and a helper that always fails may stand for
any other or for none.

There is one rule for each way in which steps are put together.
-/

namespace Stencil

/-! ### Inline partials -/

/-- Inline partials that are alike: nodes that are, or one value of the host's. -/
inductive InlinePartial.Alike (R : Resemblance) (P : Value → Prop) :
    InlinePartial → InlinePartial → Prop where
  | nodes {body body' : List Node} : Node.AllAlike R body body' →
      Alike R P (.nodes body) (.nodes body')
  | foreign {v : Value} : P v → Alike R P (.foreign v) (.foreign v)

/-- Frames that define inline partials that are alike. -/
abbrev Frame.Alike (R : Resemblance) (P : Value → Prop) : Frame → Frame → Prop :=
  Table.Alike (InlinePartial.Alike R P)

/-- Frames that are alike one by one, or one value of the host's. -/
inductive Frames.Alike (R : Resemblance) (P : Value → Prop) : Frames → Frames → Prop where
  | stack {frames frames' : List Frame} : List.Forall₂ (Frame.Alike R P) frames frames' →
      Alike R P (.stack frames) (.stack frames')
  | foreign {v : Value} : P v → Alike R P (.foreign v) (.foreign v)

namespace Frames

variable {R : Resemblance} {P : Value → Prop} {f f' : Frames}

theorem visible_agree (h : f.Alike R P f') : Agree Eq (Frame.Alike R P) f.visible f'.visible := by
  cases h with
  | foreign => exact .error rfl
  | stack h =>
    cases h with
    | nil => exact .error rfl
    | cons htop _ => exact .ok htop

theorem define_agree (h : f.Alike R P f') (name : String) {found found' : InlinePartial}
    (hfound : found.Alike R P found') :
    Agree Eq (Frames.Alike R P) (f.define name found) (f'.define name found') := by
  cases h with
  | foreign => exact .error rfl
  | stack h =>
    cases h with
    | nil => exact .error rfl
    | cons htop hrest =>
      refine .ok (.stack (.cons ?_ hrest))
      rw [Frame.define_eq, Frame.define_eq]
      exact htop.put name hfound

theorem push_agree (h : f.Alike R P f') : Agree Eq (Frames.Alike R P) f.push f'.push := by
  cases h with
  | foreign => exact .error rfl
  | stack h =>
    cases h with
    | nil => exact .error rfl
    | cons htop hrest => exact .ok (.stack (.cons htop (.cons htop hrest)))

theorem pop_agree (h : f.Alike R P f') : Agree Eq (Frames.Alike R P) f.pop f'.pop := by
  cases h with
  | foreign => exact .error rfl
  | stack h =>
    cases h with
    | nil => exact .error rfl
    | cons _ hrest =>
      cases hrest with
      | nil => exact .error rfl
      | cons hbelow hrest => exact .ok (.stack (.cons hbelow hrest))

/-- A host that asks for the names or for the value of the frames cannot tell them apart. -/
theorem Alike.names (h : f.Alike R P f') :
    f.all.map (fun frame => frame.map (·.1)) = f'.all.map fun frame => frame.map (·.1) := by
  cases h with
  | foreign => rfl
  | stack h =>
    induction h with
    | nil => rfl
    | cons htop _ ih =>
      refine congrArg₂ List.cons ?_ ih
      induction htop with
      | nil => rfl
      | cons hentry _ ihtop => exact congrArg₂ List.cons hentry.1 ihtop

theorem Alike.toValue (h : f.Alike R P f') : f.toValue = f'.toValue := by
  cases h with
  | foreign => rfl
  | @stack frames frames' h =>
    show Value.list 0 (List.map _ _) = Value.list 0 (List.map _ _)
    rw [List.map_reverse, List.map_reverse]
    refine congrArg (fun found => Value.list 0 (List.reverse found)) ?_
    induction h with
    | nil => rfl
    | cons htop _ ih =>
      refine congrArg₂ List.cons (congrArg (Value.map 0) ?_) ih
      induction htop with
      | nil => rfl
      | @cons entry entry' _ _ hentry _ ihtop =>
        refine congrArg₂ List.cons ?_ ihtop
        obtain ⟨name, found⟩ := entry
        obtain ⟨name', found'⟩ := entry'
        obtain ⟨hname, hfound⟩ := hentry
        cases (hname : name = name')
        cases hfound <;> rfl

/-- Frames that a host puts in place are alike to themselves. -/
theorem ofValue_alike (hinner : ∀ {v : Value}, P v → ∀ u ∈ v.inner, P u) {v : Value} (hv : P v) :
    (Frames.ofValue v).Alike R P (Frames.ofValue v) := by
  have hentries {label : Label} {entries : List (Value × Value)} (hmap : P (.map label entries)) :
      Frame.Alike R P (Frame.ofEntries entries) (Frame.ofEntries entries) := by
    refine List.forall₂_same.2 fun entry hentry => ⟨rfl, ?_⟩
    obtain ⟨⟨k, u⟩, hmem, hsome⟩ := List.mem_filterMap.1 hentry
    obtain ⟨name, -, rfl⟩ := Option.map_eq_some_iff.1 hsome
    exact .foreign (hinner hmap u (Value.mem_inner_map hmem).2)
  have hframes {items : List Value} {frameOf : Value → Frame}
      (h : ∀ u ∈ items, Frame.Alike R P (frameOf u) (frameOf u)) :
      Frames.Alike R P (.stack (items.reverse.map frameOf)) (.stack (items.reverse.map frameOf)) := by
    refine .stack (List.forall₂_same.2 fun frame hframe => ?_)
    obtain ⟨item, hmem, rfl⟩ := List.mem_map.1 hframe
    exact h item (List.mem_reverse.1 hmem)
  unfold Frames.ofValue
  split
  · have hitems := hinner hv
    split
    · refine hframes fun u hu => ?_
      split
      · exact hentries (hitems _ hu)
      · exact .nil
    · refine hframes fun u hu => ?_
      split
      · exact hentries (hitems _ hu)
      · exact .nil
    · exact .foreign hv
  · exact .foreign hv

end Frames

/-- The data and the frames that a host hands over. -/
theorem SideChannel.ofData_alike {R : Resemblance} {P : Value → Prop}
    (hinner : ∀ {v : Value}, P v → ∀ u ∈ v.inner, P u) {data : List (String × Value)}
    (hdata : ∀ pair ∈ data, P pair.2) :
    (SideChannel.ofData data).data.All P ∧
      (SideChannel.ofData data).frames.Alike R P (SideChannel.ofData data).frames := by
  refine ofData_induct (J := fun c => c.data.All P ∧ c.frames.Alike R P c.frames)
    ⟨Bindings.All.nil, .stack (.cons .nil .nil)⟩ (fun c name v hc hv => ?_) hdata
  unfold SideChannel.set
  split
  · exact ⟨hc.1, Frames.ofValue_alike hinner hv⟩
  · exact ⟨hc.1.set hv, hc.2⟩

/-! ### Mirrorings -/

/-- What two renders side by side have in common. -/
structure Mirroring where
  /-- Values that are read, answered and passed around, the same on both sides. -/
  value : Value → Prop
  /-- Failures count: when the first render fails, the second fails in the same way. -/
  failures : Prop
  /-- The caches on both sides, given what trees may differ in. -/
  cache : Resemblance → Cache → Cache → Prop

/-- A helper that fails whatever it is told. -/
def Helper.Refuses (helper : Helper) : Prop :=
  ∀ subject call, ∃ f, helper.act subject call = .fail f

namespace Mirroring

variable (M : Mirroring)

/-- The same on both sides, with a property. -/
def Shared {α : Type} (P : α → Prop) (a b : α) : Prop := a = b ∧ P a

/-- Requests that helpers may make: nothing is compiled for them, and only values of the mirroring
are brought into the render. -/
def Admits : Request → Prop
  | .render (.source ..) _ => False
  | .render _ scope => scope.All M.value
  | .setData _ v | .items v => M.value v
  | _ => True

/-- The answers to requests. -/
def Answers : (q : Request) → q.Reply → Prop
  | .get _, v => M.value v
  | .data _, found => ∀ v, found = some v → M.value v
  | .items _, items => ∀ v ∈ items, M.value v
  | _, _ => True

/-- An action makes requests that are admitted as long as it gets such answers, and what it ends
with has `V`. -/
def Obeys {α : Type} (V : α → Prop) : Action α → Prop
  | .done a => V a
  | .fail _ => True
  | .ask q next => M.Admits q ∧
      ∀ reply, Meets (fun _ => True) (M.Answers q) reply → Obeys V (next reply)

variable {M} in
theorem Obeys.mono {α : Type} {V W : α → Prop} {action : Action α} (h : M.Obeys V action)
    (hV : ∀ a, V a → W a) : M.Obeys W action := by
  induction action with
  | done a => exact hV a h
  | fail f => trivial
  | ask q next ih => exact ⟨h.1, fun reply hreply => ih reply (h.2 reply hreply)⟩

/-- The values that helpers are told. -/
structure Tells (call : Call) : Prop where
  scope : call.scope.All M.value
  params : ∀ v ∈ call.params, M.value v
  hash : call.hash.All M.value

/-- Helpers that keep to the mirroring, whoever calls them: what a call in parentheses answers is
one of its values too. Where failures do not count, no helper recovers from one. -/
def Serves (helper : Helper) : Prop :=
  ∀ subject call, M.value subject → M.Tells call →
    M.Obeys (fun v => call.tag = .call → M.value v) (helper.act subject call) ∧
      (¬M.failures → (helper.act subject call).Forwards)

/-- What a name may be bound to on either side. -/
inductive Pairs : Option Helper → Option Helper → Prop where
  | nothing : Pairs none none
  | serving {helper : Helper} : M.Serves helper → Pairs (some helper) (some helper)
  | refusing {helper : Helper} {other : Option Helper} : ¬M.failures → helper.Refuses →
      Pairs (some helper) other

/-- Trees that differ in what their names are bound to only. -/
def resemblance : Resemblance := ⟨True, fun _ => M.Pairs⟩

end Mirroring

/-- A world that differs in its inline partials and its cache. -/
def World.beside (w : World) (frames : Frames) (cache : Cache) : World :=
  { w with side := { w.side with frames }, cache }

namespace Mirroring

variable (M : Mirroring)

/-- Worlds that are alike. -/
inductive Worlds (w : World) : World → Prop where
  | beside {frames : Frames} {cache : Cache} : w.side.data.All M.value →
      w.side.frames.Alike M.resemblance M.value frames → M.cache M.resemblance w.cache cache →
      Worlds w (w.beside frames cache)

/-- How a step has ended counts. -/
def Counts {α : Type} (r : Except Failure α) : Prop := M.failures ∨ ∃ a, r = .ok a

variable {M} in
theorem Counts.of_ok {α β : Type} {r : Except Failure α} {r' : Except Failure β} (h : M.Counts r)
    (hok : ∀ a, r = .ok a → ∃ b, r' = .ok b) : M.Counts r' :=
  h.imp_right fun ⟨a, ha⟩ => hok a ha

variable {M} in
/-- A step counts whatever is made of its failure afterwards. -/
theorem Counts.of_mapError {α : Type} {r : Except Failure α} {g : Failure → Failure}
    (h : M.Counts (r.mapError g)) : M.Counts r :=
  h.of_ok fun a ha => by
    cases r with
    | ok b => exact ⟨b, rfl⟩
    | error f => cases ha

variable {M} in
/-- A step counts whatever is made of its result afterwards. -/
theorem Counts.of_map {α β : Type} {r : Except Failure α} {g : α → β} (h : M.Counts (r.map g)) :
    M.Counts r :=
  h.of_ok fun a ha => by
    cases r with
    | ok b => exact ⟨b, rfl⟩
    | error f => cases ha

/-- Whatever one step comes to and counts, another comes to in every world that is alike: with a
result that is related to the result of the first by `V`, or with the same failure. -/
def Mirrors {α β : Type} (m : Render α) (m' : Render β) (V : α → β → Prop) : Prop :=
  ∀ w w' r after, M.Worlds w w' → m.outcome w = some (r, after) → M.Counts r →
    ∃ r' after', m'.outcome w' = some (r', after') ∧ Agree Eq V r r' ∧ M.Worlds after after'

end Mirroring

open Render

/-- A step that never succeeds. -/
def Render.NeverOk {α : Type} (m : Render α) : Prop :=
  ∀ w a after, m.outcome w ≠ some (.ok a, after)

namespace Render.NeverOk

variable {α β : Type} {m : Render α}

theorem throw (f : Failure) : NeverOk (MonadExcept.throw f : Render α) := by
  intro w a after hr
  cases hr

theorem bind {k : α → Render β} (hk : ∀ a, (k a).NeverOk) : (m >>= k).NeverOk := by
  intro w b after hr
  obtain ⟨a, between, -, hr⟩ := outcome_bind_ok hr
  exact hk a between b after hr

theorem mapFailure (g : Failure → Failure) (hm : m.NeverOk) : (Render.mapFailure g m).NeverOk := by
  intro w a after hr
  rw [Render.mapFailure, outcome_ofOutcome] at hr
  obtain ⟨⟨r, between⟩, hrun, hr⟩ := Option.map_eq_some_iff.1 hr
  cases r with
  | error f => cases hr
  | ok b => exact hm w b between hrun

end Render.NeverOk

namespace Mirroring.Mirrors

variable {M : Mirroring} {α β γ δ : Type} {m : Render α} {m' : Render β} {V : α → β → Prop}
  {U : γ → δ → Prop}

/-! ### Rules -/

theorem pure {a : α} {b : β} (h : V a b) : M.Mirrors (Pure.pure a) (Pure.pure b) V := by
  intro w w' r after hw hr _
  cases hr
  exact ⟨.ok b, w', rfl, .ok h, hw⟩

theorem throw (f : Failure) : M.Mirrors (MonadExcept.throw f) (MonadExcept.throw f) V := by
  intro w w' r after hw hr _
  cases hr
  exact ⟨.error f, w', rfl, .error rfl, hw⟩

/-- Nothing is asked of a step beside one that has no outcome. -/
theorem exhausted : M.Mirrors Render.exhausted m' V := by
  intro w w' r after hw hr _
  cases hr

/-- Where failures do not count, nothing is asked of a step beside one that never succeeds. -/
theorem never (hcount : ¬M.failures) (hm : m.NeverOk) : M.Mirrors m m' V := by
  intro w w' r after hw hr hcounts
  obtain ⟨a, rfl⟩ := hcounts.resolve_left hcount
  exact absurd hr (hm w a after)

theorem mono {W : α → β → Prop} (h : M.Mirrors m m' V) (hV : ∀ a b, V a b → W a b) :
    M.Mirrors m m' W := by
  intro w w' r after hw hr hcounts
  obtain ⟨r', after', hr', hagree, hafter⟩ := h w w' r after hw hr hcounts
  exact ⟨r', after', hr', hagree.mono (fun _ _ hf => hf) hV, hafter⟩

theorem bind {k : α → Render γ} {k' : β → Render δ} (hm : M.Mirrors m m' V)
    (hk : ∀ a b, V a b → M.Mirrors (k a) (k' b) U) : M.Mirrors (m >>= k) (m' >>= k') U := by
  intro w w' r after hw hr hcounts
  rw [outcome_bind, Option.bind_eq_some_iff] at hr
  obtain ⟨⟨r₁, between⟩, hrun, hr⟩ := hr
  cases r₁ with
  | ok a =>
    obtain ⟨r₂, between', hrun', hagree, hbetween⟩ :=
      hm w w' (.ok a) between hw hrun (.inr ⟨a, rfl⟩)
    obtain ⟨b, rfl, hab⟩ := hagree.of_ok rfl
    obtain ⟨r', after', hr', hagree', hafter⟩ :=
      hk a b hab between between' r after hbetween hr hcounts
    exact ⟨r', after', (outcome_bind_of_ok hrun').trans hr', hagree', hafter⟩
  | error f =>
    cases hr
    have hfailures : M.failures := hcounts.resolve_right fun ⟨_, h⟩ => nomatch h
    obtain ⟨r₂, after', hrun', hagree, hafter⟩ := hm w w' (.error f) after hw hrun (.inl hfailures)
    obtain ⟨g, rfl, rfl⟩ := hagree.of_error rfl
    exact ⟨.error f, after', outcome_bind_of_error hrun', .error rfl, hafter⟩

theorem ite {p : Prop} [Decidable p] {n : Render α} {n' : Render β} (hm : p → M.Mirrors m m' V)
    (hn : ¬p → M.Mirrors n n' V) : M.Mirrors (if p then m else n) (if p then m' else n') V := by
  by_cases h : p
  · rw [if_pos h, if_pos h]
    exact hm h
  · rw [if_neg h, if_neg h]
    exact hn h

theorem ofExcept {x : Except Failure α} {y : Except Failure β} (h : Agree Eq V x y) :
    M.Mirrors (Render.ofExcept x) (Render.ofExcept y) V := by
  cases h with
  | ok h => exact .pure h
  | error h =>
    subst h
    exact .throw _

theorem ofFault {x : Except Fault α} {y : Except Fault β} (h : Agree Eq V x y) :
    M.Mirrors (Render.ofFault x) (Render.ofFault y) V := by
  cases h with
  | ok h => exact .pure h
  | error h =>
    subst h
    exact .throw _

theorem read {f : World → α} {f' : World → β} (h : ∀ w w', M.Worlds w w' → V (f w) (f' w')) :
    M.Mirrors (Render.read f) (Render.read f') V := by
  intro w w' r after hw hr _
  cases hr
  exact ⟨_, w', rfl, .ok (h _ _ hw), hw⟩

theorem update {f f' : World → World} (h : ∀ w w', M.Worlds w w' → M.Worlds (f w) (f' w')) :
    M.Mirrors (Render.update f) (Render.update f') Eq := by
  intro w w' r after hw hr _
  cases hr
  exact ⟨_, _, rfl, .ok rfl, h _ _ hw⟩

theorem freshLabel : M.Mirrors Render.freshLabel Render.freshLabel Eq := by
  intro w w' r after hw hr _
  cases hr
  cases hw with
  | beside hdata hframes hcache => exact ⟨_, _, rfl, .ok rfl, .beside hdata hframes hcache⟩

theorem mapFailure (g : Failure → Failure) (hm : M.Mirrors m m' V) :
    M.Mirrors (Render.mapFailure g m) (Render.mapFailure g m') V := by
  intro w w' r after hw hr hcounts
  rw [Render.mapFailure, outcome_ofOutcome] at hr
  obtain ⟨⟨r₁, between⟩, hrun, hr⟩ := Option.map_eq_some_iff.1 hr
  cases hr
  obtain ⟨r', after', hrun', hagree, hafter⟩ := hm w w' r₁ after hw hrun hcounts.of_mapError
  refine ⟨r'.mapError g, after', ?_, ?_, hafter⟩
  · rw [Render.mapFailure, outcome_ofOutcome, hrun']
    rfl
  · cases hagree with
    | ok h => exact .ok h
    | error h => exact .error (congrArg g h)

theorem located (place : Option Location) (hm : M.Mirrors m m' V) :
    M.Mirrors (Render.located place m) (Render.located place m') V := hm.mapFailure _

theorem emit (s : String) : M.Mirrors (Render.emit s) (Render.emit s) Eq :=
  .update fun _ _ hw => by
    cases hw with
    | beside hdata hframes hcache => exact .beside hdata hframes hcache

theorem captured {m m' : Render Unit} (hm : M.Mirrors m m' Eq) :
    M.Mirrors (Render.captured m) (Render.captured m') Eq := by
  intro w w' r after hw hr hcounts
  rw [Render.captured, outcome_ofOutcome] at hr
  obtain ⟨⟨r₁, between⟩, hrun, hr⟩ := Option.map_eq_some_iff.1 hr
  cases hr
  cases hw with
  | @beside frames cache hdata hframes hcache =>
    obtain ⟨r', between', hrun', hagree, hbetween⟩ :=
      hm { w with output := "" } (World.beside { w with output := "" } frames cache) r₁ between
        (.beside hdata hframes hcache) hrun hcounts.of_map
    cases hbetween with
    | @beside left kept hdata' hframes' hcache' =>
      refine ⟨r'.map fun _ => between.output,
        World.beside { between with output := w.output } left kept, ?_, ?_,
        .beside hdata' hframes' hcache'⟩
      · rw [Render.captured, outcome_ofOutcome]
        show Option.map _ (m'.outcome (World.beside { w with output := "" } frames cache)) = _
        rw [hrun']
        rfl
      · cases hagree with
        | ok => exact .ok rfl
        | error h => exact .error h

theorem changeFrames {f f' : Frames → Except Fault Frames}
    (h : ∀ g g', g.Alike M.resemblance M.value g' →
      Agree Eq (Frames.Alike M.resemblance M.value) (f g) (f' g')) :
    M.Mirrors (Render.changeFrames f) (Render.changeFrames f') Eq := by
  intro w w' r after hw hr _
  cases hw with
  | @beside frames cache hdata hframes hcache =>
    have hagree := h w.side.frames frames hframes
    rw [outcome_changeFrames] at hr
    rw [outcome_changeFrames]
    cases hchange : f w.side.frames with
    | ok changed =>
      rw [hchange] at hr
      cases hr
      obtain ⟨changed', hchange', halike⟩ := hagree.of_ok hchange
      rw [show (w.beside frames cache).side.frames = frames from rfl, hchange']
      exact ⟨_, _, rfl, .ok rfl, .beside hdata halike hcache⟩
    | error cause =>
      rw [hchange] at hr
      cases hr
      obtain ⟨cause', hchange', rfl⟩ := hagree.of_error hchange
      rw [show (w.beside frames cache).side.frames = frames from rfl, hchange']
      exact ⟨_, _, rfl, .error rfl, .beside hdata hframes hcache⟩

/-- A step in a frame of its own. -/
theorem inFrame (hm : M.Mirrors m m' V) : M.Mirrors (Render.inFrame m) (Render.inFrame m') V := by
  intro w w' r after hw hr hcounts
  cases hw with
  | @beside frames cache hdata hframes hcache =>
    rw [outcome_inFrame] at hr
    rw [outcome_inFrame, show (w.beside frames cache).side.frames = frames from rfl]
    cases hpush : w.side.frames.push with
    | error cause =>
      rw [hpush] at hr
      cases hr
      obtain ⟨cause', hpush', rfl⟩ := (Frames.push_agree hframes).of_error hpush
      rw [hpush']
      exact ⟨_, _, rfl, .error rfl, .beside hdata hframes hcache⟩
    | ok pushed =>
      rw [hpush] at hr
      obtain ⟨pushed', hpush', hpushed⟩ := (Frames.push_agree hframes).of_ok hpush
      rw [hpush']
      dsimp only at hr ⊢
      obtain ⟨⟨r₁, between⟩, hrun, hr⟩ := Option.bind_eq_some_iff.1 hr
      dsimp only at hr
      -- The frame is popped however the step has ended, and the step counts if the whole does.
      have hcounts₁ : M.Counts r₁ := hcounts.of_ok fun a ha => by
        subst ha
        cases hpop : between.side.frames.pop with
        | error cause =>
          rw [hpop] at hr
          cases hr
        | ok popped =>
          rw [hpop] at hr
          cases hr
          exact ⟨a, rfl⟩
      obtain ⟨r', between', hrun', hagree, hbetween⟩ :=
        hm (w.withFrames pushed) ((w.withFrames pushed).beside pushed' cache) r₁ between
          (.beside hdata hpushed hcache) hrun hcounts₁
      have hrun'' : m'.outcome ((w.beside frames cache).withFrames pushed') =
        some (r', between') := hrun'
      rw [hrun'']
      cases hbetween with
      | @beside left kept hdata' hframes' hcache' =>
        rw [Option.bind_some]
        dsimp only
        rw [show (between.beside left kept).side.frames = left from rfl]
        cases hpop : between.side.frames.pop with
        | error cause =>
          rw [hpop] at hr
          cases hr
          obtain ⟨cause', hpop', rfl⟩ := (Frames.pop_agree hframes').of_error hpop
          rw [hpop']
          exact ⟨_, _, rfl, .error rfl, .beside hdata' hframes' hcache'⟩
        | ok popped =>
          rw [hpop] at hr
          cases hr
          obtain ⟨popped', hpop', hpopped⟩ := (Frames.pop_agree hframes').of_ok hpop
          rw [hpop']
          exact ⟨_, _, rfl, hagree, .beside hdata' hpopped hcache'⟩

end Mirroring.Mirrors

end Stencil
