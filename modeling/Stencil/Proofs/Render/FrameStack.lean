import Stencil.Proofs.Node.Within
import Stencil.Proofs.Outcome
import Stencil.Proofs.Table

/-!
# The stack of frames

Defining partials changes the innermost frame only, so whatever happens inside a frame of its own,
popping that frame gives back the frames as they were before it was pushed.
-/

namespace Stencil

/-- The same frames below the innermost one; what are no frames, or none at all, stays as it is. -/
def Frames.SameBelow : Frames → Frames → Prop
  | stack (_ :: below), stack (_ :: below') => below = below'
  | f, g => f = g

namespace Frames.SameBelow

variable {f g h : Frames}

theorem refl (f : Frames) : f.SameBelow f := by
  rcases f with frames | v
  · cases frames <;> rfl
  · rfl

theorem trans (hfg : f.SameBelow g) (hgh : g.SameBelow h) : f.SameBelow h := by
  rcases f with (_ | ⟨top, below⟩) | v
  · cases hfg
    exact hgh
  · rcases g with (_ | ⟨top', below'⟩) | v
    · cases hfg
    · cases (hfg : below = below')
      rcases h with (_ | ⟨top'', below''⟩) | v
      · cases hgh
      · exact (hgh : below = below'')
      · cases hgh
    · cases hfg
  · cases hfg
    exact hgh

/-- As many frames as before. -/
theorem length_all (hfg : f.SameBelow g) : f.all.length = g.all.length := by
  rcases f with (_ | ⟨top, below⟩) | v
  · cases hfg
    rfl
  · rcases g with (_ | ⟨top', below'⟩) | v
    · cases hfg
    · cases (hfg : below = below')
      rfl
    · cases hfg
  · cases hfg
    rfl

theorem of_define {name : String} {found : InlinePartial} (hg : f.define name found = .ok g) :
    f.SameBelow g := by
  rcases f with (_ | ⟨top, below⟩) | v
  · cases hg
  · cases hg
    rfl
  · cases hg

/-- A frame pushed and popped again, with any definitions between, is as if it had never been. -/
theorem pop_of_push {pushed : Frames} (hpush : f.push = .ok pushed) (hg : pushed.SameBelow g) :
    g.pop = .ok f := by
  rcases f with (_ | ⟨top, below⟩) | v
  · cases hpush
  · cases hpush
    rcases g with (_ | ⟨top', below'⟩) | v
    · cases hg
    · cases (hg : top :: below = below')
      rfl
    · cases hg
  · cases hpush

end Frames.SameBelow

namespace Frames

/-- The faults of a host's values that are no frames. -/
def IsRefusal (cause : Fault) : Prop := cause = noFrame ∨ cause = noFrames

theorem define_meets (f : Frames) (name : String) (found : InlinePartial) :
    Meets IsRefusal (fun g => f.define name found = .ok g) (f.define name found) := by
  rcases f with (_ | ⟨top, below⟩) | v
  · exact .error (.inl rfl)
  · exact .ok rfl
  · exact .error (.inr rfl)

theorem push_meets (f : Frames) : Meets IsRefusal (fun g => f.push = .ok g) f.push := by
  rcases f with (_ | ⟨top, below⟩) | v
  · exact .error (.inl rfl)
  · exact .ok rfl
  · exact .error (.inr rfl)

theorem visible_meets (f : Frames) :
    Meets IsRefusal (fun top => f.visible = .ok top) f.visible := by
  rcases f with (_ | ⟨top, below⟩) | v
  · exact .error (.inl rfl)
  · exact .ok rfl
  · exact .error (.inr rfl)

/-- The bodies of all inline partials in all frames are trees with `P` everywhere. -/
def Every (P : Node → Prop) (f : Frames) : Prop :=
  ∀ frame ∈ f.all, ∀ name body, (name, InlinePartial.nodes body) ∈ frame → Node.Every P body

variable {P : Node → Prop} {f g : Frames}

theorem Every.initial : Frames.initial.Every P := by
  intro frame hframe name body hbody
  rw [List.mem_singleton.1 hframe] at hbody
  cases hbody

/-- Frames that a host puts in place hold no nodes. -/
theorem Every.ofValue (v : Value) : (Frames.ofValue v).Every P := by
  have hentries (entries : List (Value × Value)) (name : String) (body : List Node) :
      (name, InlinePartial.nodes body) ∉ Frame.ofEntries entries := by
    intro hmem
    obtain ⟨⟨k, u⟩, -, hsome⟩ := List.mem_filterMap.1 hmem
    obtain ⟨key, -, hkey⟩ := Option.map_eq_some_iff.1 hsome
    cases hkey
  unfold Frames.ofValue
  split
  · split
    · intro frame hframe name body hbody
      obtain ⟨item, -, rfl⟩ := List.mem_map.1 hframe
      split at hbody
      · exact absurd hbody (hentries _ name body)
      · cases hbody
    · intro frame hframe name body hbody
      obtain ⟨item, -, rfl⟩ := List.mem_map.1 hframe
      split at hbody
      · exact absurd hbody (hentries _ name body)
      · cases hbody
    · exact fun frame hframe => absurd hframe List.not_mem_nil
  · exact fun frame hframe => absurd hframe List.not_mem_nil

theorem Every.define (hf : f.Every P) {name : String} {body : List Node} (hbody : Node.Every P body)
    (hg : f.define name (.nodes body) = .ok g) : g.Every P := by
  rcases f with (_ | ⟨top, below⟩) | v
  · cases hg
  · cases hg
    intro frame hframe n nodes hnodes
    rcases List.mem_cons.1 hframe with rfl | hframe
    · rw [Frame.define_eq] at hnodes
      rcases Table.mem_put hnodes with heq | hmem
      · cases heq
        exact hbody
      · exact hf top List.mem_cons_self n nodes hmem
    · exact hf frame (List.mem_cons_of_mem _ hframe) n nodes hnodes
  · cases hg

theorem Every.push (hf : f.Every P) (hg : f.push = .ok g) : g.Every P := by
  rcases f with (_ | ⟨top, below⟩) | v
  · cases hg
  · cases hg
    intro frame hframe
    rcases List.mem_cons.1 hframe with rfl | hframe
    · exact hf _ List.mem_cons_self
    · exact hf frame hframe
  · cases hg

theorem Every.pop (hf : f.Every P) (hg : f.pop = .ok g) : g.Every P := by
  rcases f with (_ | ⟨top, _ | ⟨below, rest⟩⟩) | v
  · cases hg
  · cases hg
  · cases hg
    intro frame hframe
    exact hf frame (List.mem_cons_of_mem _ hframe)
  · cases hg

theorem Every.lookup (hf : f.Every P) {frame : Frame} (hframe : f.visible = .ok frame)
    {name : String} {body : List Node} (hbody : frame.lookup name = some (.nodes body)) :
    Node.Every P body := by
  rcases f with (_ | ⟨top, below⟩) | v
  · cases hframe
  · cases hframe
    exact hf frame List.mem_cons_self name body (Table.mem_of_lookup hbody)
  · cases hframe

end Frames

/-- What holds of an empty side channel and is kept by setting values with `P` holds of the side
channel that a host hands over. -/
theorem SideChannel.ofData_induct {J : SideChannel → Prop} {P : Value → Prop} (hempty : J {})
    (hset : ∀ c name v, J c → P v → J (c.set name v)) {data : List (String × Value)}
    (hdata : ∀ entry ∈ data, P entry.2) : J (SideChannel.ofData data) := by
  have hfold : ∀ (data : List (String × Value)) (c : SideChannel), (∀ entry ∈ data, P entry.2) →
      J c → J (data.foldl (fun c entry => c.set entry.1 entry.2) c) := by
    intro data
    induction data with
    | nil => exact fun _ _ hc => hc
    | cons entry rest ih =>
      intro c hdata hc
      obtain ⟨hv, hrest⟩ := List.forall_mem_cons.1 hdata
      exact ih _ hrest (hset c entry.1 entry.2 hc hv)
  exact hfold data {} hdata hempty

end Stencil
