import Stencil.Proofs.Render.Determined
import Stencil.Proofs.Render.Literals
import Stencil.Proofs.Render.Located
import Stencil.Proofs.Scope.Bracketed

/-!
# Members by name and by key

A member can be named in two ways: by a key in brackets behind a reference, and as the argument of
the helper `lookup`. The first is read with the reference, the second by the helper; a tag writes
the same for both.
-/

namespace Stencil

/-! ## References in tags -/

/-- A reference that can be written in a tag: one word that is no literal and closes nothing. -/
structure Path.Writable (reference : String) : Prop where
  nonempty : reference ≠ ""
  word : Item.WordFrom false reference.toList
  read : Param.ofText reference = .ok (.reference reference)
  unclosed : Unclosed reference

theorem Path.Writable.bareParam_eq {reference : String} (h : Path.Writable reference) :
    Expression.bareParam reference = .ok (.reference reference) := by
  rw [Expression.bareParam, h.read]
  rfl

/-- A reference that names something and that a tag can begin with. -/
structure Path.Names (reference : String) : Prop extends Path.Writable reference where
  unmarked : ∀ c ∈ reference.toList.head?, c ∉ Tag.firstMarks
  segments : (Path.parse reference).segments ≠ []

/-- Two parts of a tag with a character between them that closes nothing. -/
theorem Unclosed.isChain_between {cs ds : List Char} {c : Char} (hc : c ≠ '\x7d')
    (hcs : cs.IsChain fun a b => ¬(a = '\x7d' ∧ b = '\x7d'))
    (hds : ds.IsChain fun a b => ¬(a = '\x7d' ∧ b = '\x7d')) :
    (cs ++ c :: ds).IsChain fun a b => ¬(a = '\x7d' ∧ b = '\x7d') := by
  refine List.isChain_append.2 ⟨hcs, List.isChain_cons.2 ⟨fun _ _ h => hc h.1, hds⟩, ?_⟩
  intro a _ b hb hab
  exact hc (Option.some.inj hb ▸ hab.2)

/-- A word makes an else tag only if it is that word. -/
theorem Tag.elseExpression?_word {cs : List Char} (h : Item.WordFrom false cs)
    (hne : cs ≠ "else".toList) : elseExpression? cs = none := by
  rw [elseExpression?]
  split
  · rename_i htake
    have hcs : cs = "else".toList ++ cs.drop 4 := by
      rw [← beq_iff_eq.1 htake, List.take_append_drop]
    generalize cs.drop 4 = rest at hcs
    subst hcs
    have hrest : Item.WordFrom false rest := (((h.tail rfl).tail rfl).tail rfl).tail rfl
    cases rest with
    | nil => exact absurd rfl hne
    | cons c rest =>
      dsimp only
      rw [hrest.first_ne.1, if_neg Bool.false_ne_true]
  · rfl

/-- The content of a tag that reads a member behind a reference. -/
theorem Tag.plain_behind {owner key : String} (howner : Path.Names owner) (hkey : ']' ∉ key.toList)
    (hunclosed : Unclosed key) : Plain (Path.behind owner key).toList := by
  have hword := Path.word_behind howner.word hkey
  have hchain : (Path.behind owner key).toList.IsChain fun a b => ¬(a = '\x7d' ∧ b = '\x7d') := by
    have hbehind := Unclosed.isChain_between (c := ']') (by decide) hunclosed.isChain .nil
    rw [Path.toList_behind]
    exact Unclosed.isChain_between (by decide) howner.unclosed.isChain
      (List.isChain_cons.2 ⟨fun _ _ h => absurd h.1 (by decide), hbehind⟩)
  have hlast : (Path.behind owner key).toList.getLast? = some ']' := by
    have hlist : (Path.behind owner key).toList =
        (owner.toList ++ '.' :: '[' :: key.toList) ++ [']'] := by
      rw [Path.toList_behind]
      simp [keyBehind]
    rw [hlist, List.getLast?_concat]
  have hhead : (Path.behind owner key).toList.head? = owner.toList.head? := by
    rw [Path.toList_behind, List.head?_append_of_ne_nil _ (by simpa using howner.nonempty)]
  refine ⟨⟨hchain, ?_⟩, ?_, ?_, ?_, hword.last_not_blank, ?_⟩
  · intro c hc
    rw [hlast] at hc
    rw [← Option.mem_some.1 hc]
    decide
  · intro hnil
    rw [hnil] at hlast
    cases hlast
  · rw [hhead]
    exact howner.unmarked
  · intro c hc
    obtain ⟨cs, hcs⟩ := List.head?_eq_some_iff.1 hc
    exact (hcs ▸ hword).first_ne.1
  · refine elseExpression?_word hword fun helse => ?_
    rw [helse] at hlast
    exact absurd hlast (by decide)

/-! ## Keys as arguments -/

/-- Arguments that stand for a key: its text in quotes, or a reference to a value that is displayed
as this text. -/
inductive Param.GivesKey (scope : Scope) (data : Bindings) (key : String) : Param → Prop where
  | quoted {quote : Char} (hquote : Literal.IsQuote quote) :
      GivesKey scope data key (Expression.textParam quote key)
  | reference {raw : String} {v : Value} (hraw : Path.Writable raw)
      (hlast : ∀ c ∈ raw.toList.getLast?, c ≠ '\x7d' ∧ c ≠ '~')
      (hread : scope.get data raw = .ok v) (htext : ∀ drawn, v.display drawn = .ok (key, drawn)) :
      GivesKey scope data key (.reference raw)

namespace Param.GivesKey

variable {scope : Scope} {data : Bindings} {key : String} {p : Param}

theorem scans (h : p.GivesKey scope data key) : Item.Scans p.text.toList p.items := by
  cases h with
  | quoted hquote => exact .quoted (Literal.scan_enquoted hquote key)
  | reference hraw => exact .of_wordFrom hraw.word hraw.nonempty

theorem read (h : p.GivesKey scope data key) (b : Binding) (rest : List Item) :
    Expression.ParamRead b (p.items ++ rest) p rest := by
  cases h with
  | quoted hquote => exact .quoted (Expression.bareParam_enquoted hquote key)
  | reference hraw => exact .word hraw.bareParam_eq

theorem isChain (h : p.GivesKey scope data key) (hunclosed : Unclosed key) :
    p.text.toList.IsChain fun a b => ¬(a = '\x7d' ∧ b = '\x7d') := by
  cases h with
  | quoted hquote => exact (Literal.unclosed_enquoted hquote hunclosed).isChain
  | reference hraw => exact hraw.unclosed.isChain

theorem last (h : p.GivesKey scope data key) :
    p.text.toList ≠ [] ∧
      ∀ c ∈ p.text.toList.getLast?, (c ≠ '\x7d' ∧ c ≠ '~') ∧ Text.isBlank c = false := by
  cases h with
  | @quoted quote hquote =>
    have hlist : (Expression.textParam quote key).text.toList =
        quote :: Text.escaped quote key.toList ++ [quote] := Literal.toList_enquoted quote key
    rw [hlist]
    refine ⟨by simp, fun c hc => ?_⟩
    rw [List.getLast?_concat] at hc
    rw [← Option.mem_some.1 hc]
    rcases hquote with rfl | rfl <;> decide
  | @reference raw _ hraw hlast =>
    exact ⟨mt String.toList_eq_nil_iff.1 hraw.nonempty,
      fun c hc => ⟨hlast c hc, hraw.word.last_not_blank c hc⟩⟩

/-- The argument has the text of the key, wherever it stands. -/
theorem displays (h : p.GivesKey scope data key) (place : Option Location) (slots : List Slot) :
    ∃ v, (∀ drawn, v.display drawn = .ok (key, drawn)) ∧
      ∀ (e : Engine) (render : Renderer) (w : World), w.side.readable = data →
        (argument e render scope (p.placed place slots)).outcome w = some (.ok v, w) := by
  cases h with
  | quoted hquote =>
    refine ⟨.writtenText key place slots, fun _ => rfl, fun e render w _ => ?_⟩
    rw [argument_text]
    rfl
  | @reference raw v _ _ hread htext =>
    refine ⟨v, htext, fun e render w hw => ?_⟩
    rw [Param.placed, argument, Render.outcome_get, hw, hread]

end Param.GivesKey

/-! ## The two tags -/

/-- The expression that reads a member with `lookup`. -/
def lookupExpression (owner : String) (key : Param) : String :=
  "lookup " ++ owner ++ " " ++ key.text

section

variable {owner key : String} {scope : Scope} {data : Bindings} {p : Param}

theorem toList_lookupExpression (owner : String) (p : Param) :
    (lookupExpression owner p).toList =
      "lookup".toList ++ ' ' :: (owner.toList ++ ' ' :: p.text.toList) := by
  simp [lookupExpression]

/-- The content of a tag that reads a member with `lookup`. -/
theorem Tag.plain_lookup (howner : Path.Writable owner) (hp : p.GivesKey scope data key)
    (hunclosed : Unclosed key) : Plain (lookupExpression owner p).toList := by
  obtain ⟨hne, hlast⟩ := hp.last
  have hlast' : (lookupExpression owner p).toList.getLast? = p.text.toList.getLast? := by
    rw [toList_lookupExpression, List.getLast?_append_of_ne_nil _ (List.cons_ne_nil _ _),
      List.getLast?_cons_of_ne_nil (by simp),
      List.getLast?_append_of_ne_nil _ (List.cons_ne_nil _ _), List.getLast?_cons_of_ne_nil hne]
  have hchain : (lookupExpression owner p).toList.IsChain
      fun a b => ¬(a = '\x7d' ∧ b = '\x7d') := by
    rw [toList_lookupExpression]
    exact Unclosed.isChain_between (by decide) (by decide)
      (Unclosed.isChain_between (by decide) howner.unclosed.isChain (hp.isChain hunclosed))
  refine ⟨⟨hchain, fun c hc => ?_⟩, ?_, ?_, ?_, fun c hc => ?_, ?_⟩
  · rw [hlast'] at hc
    exact (hlast c hc).1
  · rw [toList_lookupExpression]
    simp
  · rw [toList_lookupExpression]
    intro c hc
    rw [← Option.mem_some.1 hc]
    decide
  · rw [toList_lookupExpression]
    intro c hc
    rw [← Option.mem_some.1 hc]
    decide
  · rw [hlast'] at hc
    exact (hlast c hc).2
  · rw [toList_lookupExpression]
    rfl

theorem parse_lookup (howner : Path.Writable owner) (hp : p.GivesKey scope data key) (b : Binding) :
    Expression.parse b (lookupExpression owner p) =
      .ok ("lookup", { args := [.reference owner, p] }) := by
  have hspace (cs : List Char) : Item.EndsWord (' ' :: cs) := .cons (by decide) cs
  have hitems : Expression.itemsOf b.place (lookupExpression owner p) =
      .ok (.word "lookup" :: .word owner :: (p.items ++ [])) := by
    have hscans : Item.Scans (lookupExpression owner p).toList
        ([.word "lookup"] ++ ([.word owner] ++ p.items)) := by
      rw [toList_lookupExpression]
      have howner := Item.Scans.of_wordFrom howner.word howner.nonempty
      exact (Item.Scans.word (.of_isPlainName (by decide))).append
        (howner.append hp.scans.blank (hspace _)).blank (hspace _)
    rw [Expression.itemsOf, hscans.scan_eq, List.append_nil]
    rfl
  have hnil : Expression.Detached [] := ⟨by simp, by simp⟩
  have hkey : Expression.ArgumentsRead b false false (p.items ++ []) { args := [p] } [] :=
    .positional (Expression.beginsArgument_items p hnil) (hp.read b []) .nil
  have hbegins := Expression.beginsArgument_items (.reference owner)
    (Expression.detached_items p [])
  exact Expression.parse_of_items hitems (.positional hbegins (.word howner.bareParam_eq) hkey)

theorem parse_behind_tag (howner : Path.Writable owner) (hkey : ']' ∉ key.toList) (b : Binding) :
    Expression.parse b (Path.behind owner key) = .ok (Path.behind owner key, {}) := by
  have hword := Path.word_behind howner.word hkey
  have hne : Path.behind owner key ≠ "" := by
    intro hempty
    have hlist := Path.toList_behind owner key
    rw [hempty] at hlist
    simp [keyBehind] at hlist
  have hitems : Expression.itemsOf b.place (Path.behind owner key) =
      .ok [.word (Path.behind owner key)] := by
    rw [Expression.itemsOf, (Item.Scans.of_wordFrom hword hne).scan_eq]
    rfl
  exact Expression.parse_of_items hitems .nil

end

/-! ## What they write -/

/-- A transformer that changes nothing but callables. -/
def Transformer.KeepsData (t : Transformer) : Prop :=
  ∀ label v, v.isCallable = false → t.apply label v = v

theorem Transformer.KeepsData.standard : Transformer.standard.KeepsData := by
  intro label v hv
  have hnone : (v.asText?.bind fun s => ([] : List (String × Value)).lookup s) = none := by
    cases v.asText? <;> rfl
  rw [Transformer.standard, apply, hnone]
  exact lift_of_not_callable label hv

/-- The world after one value has been transformed. -/
def World.labelled (w : World) : World := { w with nextLabel := w.nextLabel + 1 }

section

variable {e : Engine} {render : Renderer} {scope : Scope} {w : World} {v u : Value}
  {owner key : String} {marks : Delimiters} {place : Option Location}

theorem outcome_transform_data (he : e.transformer.KeepsData) (hv : v.isCallable = false) :
    (transform e v).outcome w = some (.ok v, w.labelled) := by
  have hkept := he w.nextLabel v hv
  show some (Except.ok (e.transformer.apply w.nextLabel v), w.labelled) = _
  rw [hkept]

/-- The helper answers the member, or null where there is none. -/
theorem outcome_lookup {answer : (q : Request) → Render q.Reply} {call : Call} {keyValue : Value}
    (harity : call.arity = 2) (hparams : call.params = [keyValue])
    (hanswer : ∀ q, answer (.display q) = Render.display q)
    (htext : ∀ drawn, keyValue.display drawn = .ok (key, drawn))
    (hmember : readMembers call.scope.resolvers v [key] = .ok u) :
    ((Builtin.lookup.act v call).perform answer).outcome w = some (.ok u, w) := by
  rw [Builtin.act, harity, if_neg (by decide)]
  rw [readMembers] at hmember
  split
  · rename_i hnull
    rw [if_pos hnull] at hmember
    cases hmember
    rfl
  · rename_i hnull
    rw [if_neg hnull] at hmember
    have hshown : ∀ drawn, keyValue.display drawn =
        (Except.ok key : Except Fault String).map (·, drawn) := htext
    have hdisplay : (answer (.display keyValue)).outcome w = some (.ok key, w) := by
      rw [hanswer]
      exact Render.outcome_display hshown w
    have hsteps : ∀ k : String → Action Value,
        (((Action.request (.display keyValue)).bind k).perform answer).outcome w =
          ((k key).perform answer).outcome w := by
      intro k
      rw [Action.perform_request_bind]
      exact Render.outcome_bind_of_ok hdisplay
    rw [hparams, List.headD_cons, Action.bind_eq, hsteps]
    cases hread : readMember v key call.scope.resolvers with
    | error cause =>
      rw [hread] at hmember
      cases hmember
    | ok found =>
      rw [hread] at hmember
      cases found with
      | none =>
        cases hmember
        rfl
      | some found =>
        cases hmember
        rfl

theorem outcome_outputValue_lookup {p : Param} {stamp : Nat} (he : e.transformer.KeepsData)
    (howner : scope.get w.side.readable owner = .ok v) (hv : v.isCallable = false)
    (hp : p.GivesKey scope w.side.readable key)
    (hmember : readMembers scope.resolvers v [key] = .ok u) :
    (outputValue e render scope .plain (Invocation.placed
      ⟨"lookup", [.reference owner, p], [], some ⟨stamp, .builtin .lookup⟩⟩ place) marks).outcome w =
        some (.ok u, w.labelled) := by
  obtain ⟨keyValue, htext, hargument⟩ := hp.displays place [.positional 0]
  have hsubject : (argument e render scope (.reference owner)).outcome w = some (.ok v, w) := by
    rw [argument, Render.outcome_get, howner]
  have hkey : (argument e render scope (p.placed place [.positional 0])).outcome w.labelled =
      some (.ok keyValue, w.labelled) := hargument e render w.labelled rfl
  unfold outputValue
  simp only [Invocation.placed, Param.placedArgs, Param.placedHash, Param.placed, List.length_nil,
    subjectOf, callOf, List.drop, arguments, namedArguments, pure_bind, bind_assoc]
  rw [Render.outcome_bind_of_ok hsubject, Render.outcome_bind_of_ok (outcome_transform_data he hv),
    Render.outcome_bind_of_ok hkey, invoke, Render.mapFailure, Render.outcome_ofOutcome]
  have hact : (Helper.mk stamp (.builtin .lookup)).act = Builtin.lookup.act := rfl
  rw [hact, outcome_lookup rfl rfl (fun _ => rfl) htext hmember]
  rfl

theorem outcome_outputValue_behind (he : e.transformer.KeepsData) (hmissing : e.missing? = none)
    (howner : scope.get w.side.readable owner = .ok v) (hnames : Path.Names owner)
    (hkey : ']' ∉ key.toList) (hmember : readMembers scope.resolvers v [key] = .ok u)
    (hu : u.isCallable = false) :
    (outputValue e render scope .plain (Invocation.placed ⟨Path.behind owner key, [], [], none⟩ place)
      marks).outcome w = some (.ok u, w.labelled) := by
  have hread : (Render.get scope (Path.behind owner key)).outcome w = some (.ok u, w) := by
    rw [Render.outcome_get, Scope.get_behind hnames.word hnames.segments hkey howner, hmember]
    rfl
  unfold outputValue
  simp only [Invocation.placed, Param.placedArgs, Param.placedHash, List.isEmpty_nil, Bool.not_true,
    Bool.or_self, Bool.false_eq_true, if_false]
  rw [Render.outcome_bind_of_ok hread, Render.outcome_bind_of_ok (outcome_transform_data he hu),
    hmissing, Value.not_lambda_of_not_callable hu, if_neg Bool.false_ne_true]
  split
  · rename_i hnull
    cases u with
    | null => rfl
    | _ => cases hnull
  · rfl

/-- Writing a value fails with faults only, for which no tag is blamed. -/
theorem writePlain_faults (e : Engine) (u : Value) :
    (writePlain e (pure u)).Keeps (fun _ => True) (fun f => ∃ cause, f = .fault cause)
      fun _ => True := by
  have hdisplay : (Render.display u).Keeps (fun _ => True) (fun f => ∃ cause, f = .fault cause)
      fun _ => True := by
    unfold Render.display
    refine .bind (.read (V := fun _ => True) fun _ _ => trivial) fun drawn _ => ?_
    refine .bind (.ofFault (.of_cases (fun _ _ => trivial) fun cause _ => ⟨cause, rfl⟩)) ?_
    exact fun _ _ => .bind (.update fun _ _ => trivial) fun _ _ => .pure trivial
  have htext : (outputText e .plain u).Keeps (fun _ => True) (fun f => ∃ cause, f = .fault cause)
      fun _ => True := by
    unfold outputText
    refine .bind hdisplay fun text _ => ?_
    cases u <;> exact .pure trivial
  rw [writePlain, pure_bind]
  exact .ite (fun _ => .pure trivial) fun _ => .bind htext fun _ _ => .update fun _ _ => trivial

/-- No place is blamed for what fails with faults only. -/
theorem outcome_located_of_faults {α : Type} {m m' : Render α} {V : α → Prop} {w' : World}
    (hm : m.outcome w = m'.outcome w')
    (hfaults : m'.Keeps (fun _ => True) (fun f => ∃ cause, f = .fault cause) V)
    (place : Option Location) : (Render.located place m).outcome w = m'.outcome w' := by
  rw [outcome_located, hm]
  cases hrun : m'.outcome w' with
  | none => rfl
  | some found =>
    obtain ⟨r, after⟩ := found
    cases r with
    | ok a => rfl
    | error f =>
      obtain ⟨cause, rfl⟩ := (hfaults w' _ after trivial hrun).2.of_error rfl
      rfl

/-- A tag whose value is known writes it. -/
theorem Template.Writes.outcome_eq {t : Template}
    {value : Option Location → Renderer → Scope → Render Value} (ht : t.Writes e value)
    (hvalue : ∀ place render, (value place render scope).outcome w = some (.ok u, w.labelled))
    (depth : Nat) :
    (renderFragment e (depth + 1) t.fragment scope).outcome w =
      (writePlain e (pure u)).outcome w.labelled := by
  obtain ⟨place, hwrites⟩ := ht
  have hwritten : (writePlain e (value place (renderFragment e depth) scope)).outcome w =
      (writePlain e (pure u)).outcome w.labelled := by
    rw [writePlain, Render.outcome_bind_of_ok (hvalue _ _), writePlain, pure_bind]
  have hfaults := writePlain_faults e u
  rw [hwrites]
  exact outcome_located_of_faults (outcome_located_of_faults hwritten hfaults place) hfaults t.place

end

/-- Keys in brackets reach everything. A row of keys, whatever they hold beside the closing bracket,
is taken apart into these keys, and reads what is stored under them in mappings inside of each
other. Behind a reference to anything but a callable, a key in brackets writes what `lookup` writes
for the key as an argument: the member of that name, or nothing where there is none. -/
theorem brackets_reach_keys {e : Engine} {stamp : Nat}
    (hlookup : e.registry.lookup "lookup" = some ⟨stamp, .builtin .lookup⟩)
    (hmissing : e.missing? = none) (he : e.transformer.KeepsData) :
    (∀ keys : List String, keys ≠ [] → (∀ key ∈ keys, ']' ∉ key.toList) →
      Path.parse (Path.bracketed keys) =
        { raw := Path.bracketed keys, hops := 0, isLocal := false, isData := false,
          segments := keys } ∧
      ∀ (resolvers : List Resolver) (model v : Value) (data : Bindings),
        Resolver.entries ∈ resolvers → model.Stores keys v →
        (Scope.ofModel model resolvers).get data (Path.bracketed keys) = .ok v) ∧
    ∀ (file owner key : String) (scope : Scope) (w : World) (v u : Value) (p : Param),
      Path.Names owner → ']' ∉ key.toList → Unclosed key →
      e.registry.lookup (Path.behind owner key) = none →
      scope.get w.side.readable owner = .ok v → v.isCallable = false →
      readMembers scope.resolvers v [key] = .ok u → u.isCallable = false →
      p.GivesKey scope w.side.readable key →
      ∃ byKey byName,
        e.parse .standard file (Delimiters.standard.enclose (lookupExpression owner p)) =
          .ok byKey ∧
        e.parse .standard file (Delimiters.standard.enclose (Path.behind owner key)) =
          .ok byName ∧
        ∀ depth,
          (renderFragment e (depth + 1) byKey.fragment scope).outcome w =
            (writePlain e (pure u)).outcome w.labelled ∧
          (renderFragment e (depth + 1) byName.fragment scope).outcome w =
            (writePlain e (pure u)).outcome w.labelled := by
  refine ⟨fun keys hne hkeys => ?_, ?_⟩
  · exact ⟨Path.parse_bracketed hne hkeys, fun _ _ _ data hentries hstores =>
      Scope.get_bracketed hentries hne hkeys hstores data⟩
  · intro file owner key scope w v u p howner hkey hunclosed hname hread hv hmember hu hp
    obtain ⟨place, hbyKey⟩ := Template.ofSource_plain
      (Tag.plain_lookup howner.toWritable hp hunclosed) file
      (fun place => parse_lookup howner.toWritable hp ⟨place, e.registry.lookup⟩) fun _ => rfl
    obtain ⟨place', hbyName⟩ := Template.ofSource_plain
      (Tag.plain_behind howner hkey hunclosed) file
      (fun place => parse_behind_tag howner.toWritable hkey ⟨place, e.registry.lookup⟩)
      fun _ => rfl
    refine ⟨_, _, hbyKey, hbyName, fun depth => ⟨?_, ?_⟩⟩
    · rw [hlookup]
      exact (Template.writes_tag rfl).outcome_eq
        (fun _ _ => outcome_outputValue_lookup he hread hv hp hmember) depth
    · rw [hname]
      exact (Template.writes_tag rfl).outcome_eq
        (fun _ _ => outcome_outputValue_behind he hmissing hread howner hkey hmember hu) depth

/-- A key with a point, an empty key, and one with a space. -/
theorem brackets_reach_keys_odd :
    Engine.standard.registry.lookup "lookup" = some ⟨0, .builtin .lookup⟩ ∧
    Engine.standard.missing? = none ∧ Engine.standard.transformer.KeepsData ∧
    (Scope.ofModel (.map 0 [(.text "a.b", .map 1 [(.text "", .int 3)])]) Resolver.standard).get []
      "[a.b].[]" = .ok (.int 3) ∧
    ∃ byKey byName,
      Engine.standard.parse .standard "page" "\x7b\x7blookup o \"x y\"\x7d\x7d" = .ok byKey ∧
      Engine.standard.parse .standard "page" "\x7b\x7bo.[x y]\x7d\x7d" = .ok byName ∧
      ∀ depth,
        (renderFragment Engine.standard (depth + 1) byKey.fragment
            (.ofModel (.map 0 [(.text "o", .map 1 [(.text "x y", .text "<")])])
              Resolver.standard)).outcome {} =
          (writePlain Engine.standard (pure (.text "<"))).outcome (World.labelled {}) ∧
        (renderFragment Engine.standard (depth + 1) byName.fragment
            (.ofModel (.map 0 [(.text "o", .map 1 [(.text "x y", .text "<")])])
              Resolver.standard)).outcome {} =
          (writePlain Engine.standard (pure (.text "<"))).outcome (World.labelled {}) := by
  have hlookup : Engine.standard.registry.lookup "lookup" = some ⟨0, .builtin .lookup⟩ := rfl
  have hmissing : Engine.standard.missing? = none := rfl
  have hdata : Engine.standard.transformer.KeepsData := .standard
  obtain ⟨hpaths, htags⟩ := brackets_reach_keys hlookup hmissing hdata
  obtain ⟨-, hget⟩ := hpaths ["a.b", ""] (by simp) (by simp)
  have hunmarked : ∀ c ∈ "o".toList.head?, c ∉ Tag.firstMarks := by
    intro c hc
    rw [← Option.mem_some.1 hc]
    decide
  have howner : Path.Names "o" :=
    ⟨⟨by decide, .plain rfl .nil, rfl, .of_isChain (.singleton 'o')⟩, hunmarked, by decide⟩
  have hbracketed : Path.bracketed ["a.b", ""] = "[a.b].[]" := by decide
  have hkey : Delimiters.standard.enclose
      (lookupExpression "o" (Expression.textParam '"' "x y")) =
        "\x7b\x7blookup o \"x y\"\x7d\x7d" := by decide
  have hname : Delimiters.standard.enclose (Path.behind "o" "x y") =
      "\x7b\x7bo.[x y]\x7d\x7d" := by decide
  refine ⟨hlookup, hmissing, hdata, ?_, ?_⟩
  · rw [← hbracketed]
    exact hget _ _ _ [] (by decide) (.inside rfl (.inside rfl (.here _)))
  · rw [← hkey, ← hname]
    exact htags "page" "o" "x y" _ {} _ (.text "<") _ howner (by decide)
      (.of_isChain (by decide)) rfl rfl rfl rfl rfl (.quoted (.inl rfl))

end Stencil
