import Stencil.Proofs.Helper.Obeying
import Stencil.Proofs.Render.Mirroring

/-!
# Helpers that serve two renders

The built-in helpers keep to every mirroring that is closed under what happens to values: they obey
every closed regime, and they recover from nothing.
-/

namespace Stencil

namespace Mirroring

variable (M : Mirroring)

/-- The regime of the values of a mirroring: nothing is asked of texts, failures and nodes. -/
def regime : Regime where
  value := M.value
  text _ := True
  source _ := False
  failure _ := True
  node _ := True
  cache _ := True

/-- A mirroring is closed under what happens to values in every engine. -/
structure Closed : Prop where
  value_literal : ∀ l : Literal, M.value l.value
  value_member : MembersKeep M.value
  value_inner : ∀ {v : Value}, M.value v → ∀ u ∈ v.inner, M.value u
  value_frames : ∀ {f f' : Frames}, f.Alike M.resemblance M.value f' → M.value f.toValue

variable {M}

theorem Closed.regime (C : M.Closed) : M.regime.Closed where
  text_empty := trivial
  text_append _ _ := trivial
  failure_own _ := trivial
  failure_locate _ _ := trivial
  failure_fromHelper _ _ := trivial
  value_literal := C.value_literal
  value_member := C.value_member
  value_inner := C.value_inner

theorem admits_of_regime {q : Request} (h : M.regime.Admits q) : M.Admits q := by
  cases q with
  | render what scope =>
    cases what with
    | body | inverse => exact h
    | source name text => exact h.1.elim
  | setData name v => exact h.2
  | items v => exact h
  | _ => trivial

theorem answers_of_mirroring {q : Request} {reply : q.Reply} (h : M.Answers q reply) :
    M.regime.Answers q reply := by
  cases q with
  | data name => exact fun _ => h
  | get reference | items v => exact h
  | _ => trivial

/-- What obeys the regime obeys the mirroring, by induction on the requests. -/
theorem obeys_of_regime {α : Type} {V : α → Prop} {action : Action α}
    (h : M.regime.Obeys V action) : M.Obeys V action := by
  induction action with
  | done a => exact h
  | fail f => trivial
  | ask q next ih =>
    refine ⟨admits_of_regime h.1, fun reply hreply => ih reply (h.2 reply ?_)⟩
    exact hreply.mono (fun _ _ => trivial) fun _ => answers_of_mirroring

/-- Built-in helpers keep to every closed mirroring. -/
theorem Closed.serves (C : M.Closed) {name : String} {helper : Helper}
    (h : helper.IsBuiltIn name) : M.Serves helper := by
  obtain ⟨which, hwhich, -⟩ := h
  intro subject call hsubject hcall
  rw [Helper.act, hwhich]
  refine ⟨?_, fun _ => which.act_forwards subject call⟩
  -- A section named `lookup` is no exception here, since every text may be written.
  have hobeys : M.regime.Obeys (M.regime.Result .plain) (which.act subject call) :=
    Regime.builtin_obeys C.regime which hsubject ⟨hcall.scope, hcall.params, hcall.hash⟩
      fun h => by cases h
  exact (obeys_of_regime hobeys).mono fun v hv _ => hv.1

end Mirroring

end Stencil
