import Stencil.Proofs.Render.Regime

/-!
# Helpers that obey

How actions that obey a regime are put together, and that the built-in helpers obey every regime
that is closed. The one exception is a section named `lookup`: its answer is written as it is.
-/

namespace Stencil

namespace Regime

variable {R : Regime}

/-! ### Closure -/

theorem Closed.numeric (C : R.Closed) {cause : Fault} (h : cause.IsNumeric) :
    R.failure (.fault cause) := by
  refine C.failure_own fun hunder => ?_
  cases (hunder : cause = .frameUnderflow)
  exact h

theorem Closed.reading (C : R.Closed) {failure : Failure} (h : failure.IsOfReading) :
    R.failure failure := by
  refine C.failure_own fun hunder => ?_
  cases failure with
  | fault cause =>
    cases (hunder : cause = .frameUnderflow)
    exact h
  | render cause place =>
    cases cause with
    | helperFailed name cause => exact h
    | _ => exact hunder
  | _ => exact hunder

theorem Closed.null (C : R.Closed) : R.value .null := C.value_literal .null

theorem Closed.text (C : R.Closed) (s : String) : R.value (.text s) := C.value_literal (.text s)

theorem Closed.shown_null (C : R.Closed) : R.Shown .null := by
  intro drawn text drawn' hdisplay
  rw [Value.display] at hdisplay
  cases hdisplay
  exact C.text_empty

/-- A text of the regime may be answered by the helper of a section. -/
theorem shown_text {s : String} (h : R.text s) : R.Shown (.text s) := by
  intro drawn text drawn' hdisplay
  rw [Value.display] at hdisplay
  cases hdisplay
  exact h

/-- A text that has been rendered is an answer for every tag. -/
theorem Closed.result_text (C : R.Closed) {s : String} (h : R.text s) (tag : TagKind) :
    R.Result tag (.text s) := ⟨C.text s, fun _ => shown_text h⟩

theorem Closed.result_null (C : R.Closed) (tag : TagKind) : R.Result tag .null :=
  ⟨C.null, fun _ => C.shown_null⟩

/-! ### Actions -/

variable {α β : Type} {V : α → Prop} {U : β → Prop}

theorem Obeys.bind {action : Action α} {k : α → Action β} (h : R.Obeys V action)
    (hk : ∀ a, V a → R.Obeys U (k a)) : R.Obeys U (action.bind k) := by
  induction action with
  | done a => exact hk a h
  | fail f => exact h
  | ask q next ih => exact ⟨h.1, fun reply hreply => ih reply (h.2 reply hreply)⟩

/-- A request whose failure is the failure of the action obeys when it is admitted. -/
theorem Obeys.request {q : Request} (hq : R.Admits q) :
    R.Obeys (R.Answers q) (Action.request q) := by
  refine ⟨hq, fun reply hreply => ?_⟩
  cases hreply with
  | ok h => exact h
  | error h => exact h

theorem Obeys.ite {p : Prop} [Decidable p] {x y : Action α} (hx : p → R.Obeys V x)
    (hy : ¬p → R.Obeys V y) : R.Obeys V (if p then x else y) := by
  by_cases h : p
  · rw [if_pos h]
    exact hx h
  · rw [if_neg h]
    exact hy h

/-! ### Scopes of a call -/

namespace Tells

variable {call : Call}

theorem bindParams (_ : R.Tells call) {scope : Scope} (hscope : scope.All R.value)
    {values : List Value} (hvalues : ∀ v ∈ values, R.value v) :
    (call.bindParams scope values).All R.value := by
  unfold Call.bindParams
  split
  · exact hscope
  · exact hscope.withBindings (Bindings.All.ofPairs (Bindings.All.zip hvalues))

theorem scopeFor (h : R.Tells call) {model : Value} (hmodel : R.value model) :
    (call.scopeFor model).All R.value := by
  unfold Call.scopeFor
  split
  · exact h.scope
  · exact h.scope.child hmodel Bindings.All.nil

end Tells

/-! ### The built-in helpers -/

variable {call : Call} {tag : TagKind}

theorem iterationVariables_all (C : R.Closed) (index count : Nat) {key : Value}
    (hkey : R.value key) : (Builtin.iterationVariables index count key).All R.value := by
  have hint (n : Int) : R.value (.int n) := C.value_literal (.integer n)
  have hbool (b : Bool) : R.value (.bool b) := C.value_literal (.boolean b)
  exact .cons (hint _) (.cons hkey (.cons (hbool _) (.cons (hbool _) (.cons (hbool _)
    (.cons (hbool _) .nil)))))

/-- The texts of all entries together, by induction on the entries. -/
theorem eachEntry_obeys (C : R.Closed) (hcall : R.Tells call) (count index : Nat)
    {entries : List (Value × Value)} (h : ∀ entry ∈ entries, R.value entry.1 ∧ R.value entry.2) :
    R.Obeys R.text (Builtin.eachEntry call count index entries) := by
  induction entries generalizing index with
  | nil => exact C.text_empty
  | cons entry rest ih =>
    obtain ⟨key, item⟩ := entry
    obtain ⟨⟨hkey, hitem⟩, hrest⟩ := List.forall_mem_cons.1 h
    have hscope := hcall.scope.child hitem (iterationVariables_all C index count hkey)
    have hboth : ∀ v ∈ [item, key], R.value v := by
      simp only [List.mem_cons, List.not_mem_nil, or_false]
      rintro v (rfl | rfl)
      · exact hitem
      · exact hkey
    refine Obeys.bind (Obeys.request (hcall.bindParams hscope hboth)) fun text htext => ?_
    refine Obeys.bind (ih (index + 1) hrest) fun others hothers => ?_
    exact C.text_append htext hothers

theorem renderText_obeys (C : R.Closed) (what : Markup) {scope : Scope}
    (h : R.Admits (.render what scope)) (tag : TagKind) :
    R.Obeys (R.Result tag) (do pure (.text (← Action.request (.render what scope)))) :=
  Obeys.bind (Obeys.request h) fun _ htext => C.result_text htext tag

theorem body_obeys (C : R.Closed) {scope : Scope} (h : scope.All R.value) (tag : TagKind) :
    R.Obeys (R.Result tag) (do pure (.text (← Action.request (.render .body scope)))) :=
  renderText_obeys C .body h tag

theorem inverse_obeys (C : R.Closed) {scope : Scope} (h : scope.All R.value) (tag : TagKind) :
    R.Obeys (R.Result tag) (do pure (.text (← Action.request (.render .inverse scope)))) :=
  renderText_obeys C .inverse h tag

theorem eachOf_obeys (C : R.Closed) (hcall : R.Tells call)
    {entries : List (Value × Value)} (h : ∀ entry ∈ entries, R.value entry.1 ∧ R.value entry.2) :
    R.Obeys (R.Result tag) (Builtin.eachOf call entries) := by
  refine Obeys.ite (fun _ => inverse_obeys C hcall.scope tag) fun _ => ?_
  exact Obeys.bind (eachEntry_obeys C hcall _ _ h) fun text htext => C.result_text htext tag

theorem numbered_all (C : R.Closed) {items : List Value} (h : ∀ v ∈ items, R.value v) :
    ∀ entry ∈ Builtin.numbered items, R.value entry.1 ∧ R.value entry.2 := by
  intro entry hentry
  obtain ⟨⟨item, index⟩, hmem, rfl⟩ := List.mem_map.1 hentry
  exact ⟨C.value_literal (.integer (index : Int)), h item (List.fst_mem_of_mem_zipIdx hmem)⟩

theorem displayAll_obeys (values : List Value) :
    R.Obeys (fun _ => True) (Builtin.displayAll values) := by
  induction values with
  | nil => trivial
  | cons v rest ih =>
    refine Obeys.bind (V := fun _ => True) (Obeys.request trivial) fun text _ => ?_
    exact Obeys.bind ih fun _ _ => trivial

theorem each_obeys (C : R.Closed) {subject : Value} (hsubject : R.value subject)
    (hcall : R.Tells call) : R.Obeys (R.Result tag) (Builtin.each.act subject call) := by
  unfold Builtin.act
  dsimp only
  split
  · refine eachOf_obeys C hcall fun entry hentry => ?_
    exact ⟨C.value_inner hsubject _ (Value.mem_inner_map hentry).1,
      C.value_inner hsubject _ (Value.mem_inner_map hentry).2⟩
  · refine Obeys.ite (fun _ => ?_) fun _ => inverse_obeys C hcall.scope tag
    exact Obeys.bind (Obeys.request hsubject) fun items hitems =>
      eachOf_obeys C hcall (numbered_all C hitems)

theorem lookup_obeys (C : R.Closed) {subject : Value} (hsubject : R.value subject)
    (htag : tag ≠ .block) : R.Obeys (R.Result tag) (Builtin.lookup.act subject call) := by
  have hresult {v : Value} (hv : R.value v) : R.Result tag v := ⟨hv, fun h => absurd h htag⟩
  refine Obeys.ite (fun _ => ?_) fun _ => Obeys.ite (fun _ => hresult C.null) fun _ => ?_
  · exact C.failure_own fun hunder => nomatch (hunder : Fault.lookupArity = .frameUnderflow)
  · refine Obeys.bind (V := fun _ => True) (Obeys.request trivial) fun name _ => ?_
    have hread := readMember_meets C.value_member hsubject name call.scope.resolvers
    split
    · rename_i found hfound
      cases found with
      | none => exact hresult C.null
      | some v => exact hresult (hread.of_ok hfound v rfl)
    · rename_i cause hcause
      exact C.numeric (hread.of_error hcause)

/-- Built-in helpers obey every closed regime; `lookup` does where its answer is not written as it
is. -/
theorem builtin_obeys (C : R.Closed) (which : Builtin) {subject : Value}
    (hsubject : R.value subject) (hcall : R.Tells call) (htag : tag = .block → which ≠ .lookup) :
    R.Obeys (R.Result tag) (which.act subject call) := by
  cases which with
  | each => exact each_obeys C hsubject hcall
  | branch =>
    exact Obeys.ite (fun _ => inverse_obeys C hcall.scope tag) fun _ => body_obeys C hcall.scope tag
  | negate =>
    exact Obeys.ite (fun _ => body_obeys C hcall.scope tag) fun _ => inverse_obeys C hcall.scope tag
  | enter =>
    exact Obeys.ite (fun _ => inverse_obeys C hcall.scope tag) fun _ =>
      body_obeys C (hcall.scopeFor hsubject) tag
  | lookup => exact lookup_obeys C hsubject fun h => htag h rfl
  | log =>
    refine Obeys.bind (displayAll_obeys _) fun texts _ => ?_
    exact Obeys.bind (V := fun _ => True) (Obeys.request trivial) fun _ _ => C.result_null tag
  | missing => exact C.failure_own fun hunder => hunder

theorem serves_builtin (C : R.Closed) {which : Builtin} {helper : Helper}
    (hhelper : helper.behaviour = .builtin which) (htag : tag = .block → which ≠ .lookup) :
    R.Serves tag helper := by
  intro subject call hsubject hcall _
  rw [Helper.act, hhelper]
  exact builtin_obeys C which hsubject hcall htag

end Regime

end Stencil
