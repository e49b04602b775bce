import Stencil.Proofs.Source.Items

/-!
# Arguments in source

The items that arguments are written as. What is written for normal arguments is scanned as these
items, and may stand in a tag.
-/

namespace Stencil

namespace Param

mutual

/-- The items of an argument in source. -/
def items : Param → List Item
  | literal raw (.text _) => [.quoted raw]
  | literal raw _ => [.word raw]
  | reference raw => [.word raw]
  | call _ name args hash _ =>
    .openParen :: .word name :: (argItems args ++ hashItems hash ++ [.closeParen])

/-- The items of positional arguments in source. -/
def argItems : List Param → List Item
  | [] => []
  | p :: rest => items p ++ argItems rest

/-- The items of named arguments in source. -/
def hashItems : List (String × Param) → List Item
  | [] => []
  | (key, p) :: rest => .word key :: .equals :: (items p ++ hashItems rest)

end

theorem argItems_eq (args : List Param) : argItems args = args.flatMap items := by
  induction args with
  | nil => rw [argItems, List.flatMap_nil]
  | cons p rest ih => rw [argItems, ih, List.flatMap_cons]

theorem hashItems_eq (hash : HashParams) :
    hashItems hash = hash.flatMap fun e => .word e.1 :: .equals :: items e.2 := by
  induction hash with
  | nil => rw [hashItems, List.flatMap_nil]
  | cons e rest ih => rw [hashItems, ih, List.flatMap_cons, List.cons_append, List.cons_append]

/-- A named argument in source. -/
def entryText (e : String × Param) : String := e.1 ++ "=" ++ text e.2

theorem argTexts_eq (args : List Param) : argTexts args = args.map text := by
  induction args with
  | nil => rw [argTexts, List.map_nil]
  | cons p rest ih => rw [argTexts, ih, List.map_cons]

theorem hashTexts_eq (hash : HashParams) : hashTexts hash = hash.map entryText := by
  induction hash with
  | nil => rw [hashTexts, List.map_nil]
  | cons e rest ih => rw [hashTexts, ih, List.map_cons, entryText]

/-- Texts with a space before each. -/
def spacedAll (texts : List String) : List Char := texts.flatMap fun s => ' ' :: s.toList

theorem intercalate_toList (s : String) (rest : List String) :
    (" ".intercalate (s :: rest)).toList = s.toList ++ spacedAll rest := by
  induction rest generalizing s with
  | nil => simp [spacedAll]
  | cons t rest ih =>
    rw [String.intercalate_cons_cons, String.toList_append, String.toList_append, ih t,
      List.append_assoc]
    rfl

theorem spaced_intercalate {texts : List String} (h : ∀ s ∈ texts, s ≠ "") :
    (spaced (" ".intercalate texts)).toList = spacedAll texts := by
  cases texts with
  | nil => rfl
  | cons s rest =>
    have hne : " ".intercalate (s :: rest) ≠ "" := by
      intro heq
      have hjoin := intercalate_toList s rest
      rw [heq] at hjoin
      have hnil := List.append_eq_nil_iff.1 hjoin.symm
      exact h s List.mem_cons_self (String.toList_eq_nil_iff.1 hnil.1)
    rw [spaced, if_neg (by simpa using hne), String.toList_append, intercalate_toList]
    rfl

theorem tailText_toList {args : List Param} {hash : HashParams} (h : ∀ p ∈ args, text p ≠ "") :
    (tailText args hash).toList = spacedAll (args.map text) ++ spacedAll (hash.map entryText) := by
  have hargs : ∀ s ∈ args.map text, s ≠ "" := by
    intro s hs
    obtain ⟨p, hp, rfl⟩ := List.mem_map.1 hs
    exact h p hp
  have hhash : ∀ s ∈ hash.map entryText, s ≠ "" := by
    intro s hs heq
    obtain ⟨e, -, rfl⟩ := List.mem_map.1 hs
    have hlength := congrArg String.length heq
    simp [entryText] at hlength
  rw [tailText, argsText, hashText, argTexts_eq, hashTexts_eq, String.toList_append,
    spaced_intercalate hargs, spaced_intercalate hhash]

theorem text_call (place : Option Location) (name : String) (args : List Param) (hash : HashParams)
    (helper : Option Helper) :
    text (.call place name args hash helper) = "(" ++ name ++ tailText args hash ++ ")" := by
  rw [text, tailText, argsText, hashText]
  simp only [String.append_assoc]

/-- What is written for an argument is scanned as its items and may stand in a tag. -/
structure Legible (p : Param) : Prop where
  nonempty : text p ≠ ""
  scans : Item.Scans (text p).toList (items p)
  settled : Settled (text p).toList

theorem endsWord_spacedAll (texts : List String) : Item.EndsWord (spacedAll texts) := by
  cases texts with
  | nil => exact .nil
  | cons s rest => exact .cons ⟨rfl, by decide⟩ _

theorem scans_spacedAll {α : Type} {f : α → String} {g : α → List Item} {as : List α}
    (h : ∀ a ∈ as, Item.Scans (f a).toList (g a)) :
    Item.Scans (spacedAll (as.map f)) (as.flatMap g) := by
  induction as with
  | nil => exact .nil
  | cons a rest ih =>
    have hrest := ih fun b hb => h b (List.mem_cons_of_mem _ hb)
    exact ((h a List.mem_cons_self).blank).append hrest (endsWord_spacedAll _)

theorem settled_spacedAll {α : Type} {f : α → String} {as : List α}
    (h : ∀ a ∈ as, f a ≠ "" ∧ Settled (f a).toList) : Settled (spacedAll (as.map f)) := by
  induction as with
  | nil => exact .nil
  | cons a rest ih =>
    obtain ⟨hne, hsettled⟩ := h a List.mem_cons_self
    have hne : (f a).toList ≠ [] := fun hnil => hne (String.toList_eq_nil_iff.1 hnil)
    exact (hsettled.cons (by decide) hne).append (ih fun b hb => h b (List.mem_cons_of_mem _ hb))

/-- The arguments of a tag are written as their items, each behind a space. -/
theorem legible_tail {args : List Param} {hash : HashParams} (hargs : ∀ p ∈ args, Legible p)
    (hkeys : ∀ e ∈ hash, isPlainName e.1 = true) (hhash : ∀ e ∈ hash, Legible e.2) :
    Item.Scans (tailText args hash).toList (argItems args ++ hashItems hash) ∧
      Settled (tailText args hash).toList ∧ Item.EndsWord (tailText args hash).toList := by
  have hentry : ∀ e ∈ hash, (entryText e).toList = e.1.toList ++ ('=' :: (text e.2).toList) := by
    intro e _
    rw [entryText, String.toList_append, String.toList_append, List.append_assoc]
    rfl
  have hentryScans : ∀ e ∈ hash,
      Item.Scans (entryText e).toList (.word e.1 :: .equals :: items e.2) := by
    intro e he
    rw [hentry e he]
    exact (Item.Scans.word (.of_isPlainName (hkeys e he))).append (hhash e he).scans.equals
      (.cons ⟨rfl, by decide⟩ _)
  have hentrySettled : ∀ e ∈ hash, entryText e ≠ "" ∧ Settled (entryText e).toList := by
    intro e he
    have hne : (text e.2).toList ≠ [] :=
      fun hnil => (hhash e he).nonempty (String.toList_eq_nil_iff.1 hnil)
    refine ⟨?_, ?_⟩
    · intro heq
      have hnil := hentry e he
      rw [heq] at hnil
      exact absurd hnil.symm (by simp)
    · rw [hentry e he]
      exact (Settled.of_bare (BareWord.of_isPlainName (hkeys e he)).2).append
        ((hhash e he).settled.cons (by decide) hne)
  rw [tailText_toList fun p hp => (hargs p hp).nonempty, argItems_eq, hashItems_eq]
  refine ⟨?_, ?_, ?_⟩
  · exact (scans_spacedAll fun p hp => (hargs p hp).scans).append (scans_spacedAll hentryScans)
      (endsWord_spacedAll _)
  · exact (settled_spacedAll fun p hp => ⟨(hargs p hp).nonempty, (hargs p hp).settled⟩).append
      (settled_spacedAll hentrySettled)
  · exact (endsWord_spacedAll _).append (endsWord_spacedAll _)

theorem Legible.of_word {p : Param} (raw : String) (htext : text p = raw)
    (hitems : items p = [.word raw]) (h : BareWord raw) : Legible p := by
  subst htext
  refine ⟨?_, ?_, Settled.of_bare h.2⟩
  · intro hempty
    exact h.1 (String.toList_eq_nil_iff.2 hempty)
  · rw [hitems]
    exact .word h

/-- Normal arguments are legible. -/
theorem Normal.legible {p : Param} (h : Normal p) : Legible p := by
  induction h with
  | @bare raw value hread hbare =>
    refine .of_word raw ?_ ?_ (.of_literal hread hbare)
    · rw [text]
    · rw [items]
      exact hbare
  | @quoted raw s hread hscan hunclosed =>
    obtain ⟨quote, -, hfirst, -⟩ := Literal.quote_of_text hread
    refine ⟨?_, ?_, ?_⟩
    · rw [text]
      intro hempty
      rw [hempty] at hfirst
      cases hfirst
    · rw [text, items]
      exact .quoted hscan
    · rw [text]
      exact .of_quoted hread hunclosed
  | @reference raw _ hname =>
    refine .of_word raw ?_ ?_ (.of_isPlainName hname)
    · rw [text]
    · rw [items]
  | @call place name args hash helper hname _ hkeys _ hargs hhash =>
    obtain ⟨hscans, hsettled, hends⟩ := legible_tail hargs hkeys hhash
    have hword := BareWord.of_isPlainName hname
    have htext : (text (.call place name args hash helper)).toList =
        '(' :: (name.toList ++ ((tailText args hash).toList ++ [')'])) := by
      rw [text_call]
      simp only [String.toList_append, List.append_assoc]
      rfl
    have hclose : Item.Scans [')'] [.closeParen] := Item.Scans.nil.closeParen
    have hclosed : Item.EndsWord [')'] := .cons ⟨rfl, by decide⟩ []
    refine ⟨?_, ?_, ?_⟩
    · intro hempty
      rw [hempty] at htext
      cases htext
    · rw [htext, items]
      exact ((Item.Scans.word hword).append (hscans.append hclose hclosed)
        (hends.append hclosed)).openParen
    · rw [htext]
      refine Settled.cons (by decide) ?_ ((Settled.of_bare hword.2).append
        (hsettled.append (.singleton (by decide))))
      simp

end Param

/-- What declares block parameters in the opening tag of a section. -/
def BlockHead.paramsText (names : List String) : String :=
  if names.isEmpty then "" else " as |" ++ " ".intercalate names ++ "|"

/-- The items that declare block parameters. -/
def BlockHead.paramItems : List String → List Item
  | [] => []
  | name :: rest => .word "as" :: .pipe :: .word name :: (rest.map .word ++ [.pipe])

theorem BlockHead.paramsText_legible {names : List String}
    (h : ∀ name ∈ names, isPlainName name = true) :
    Item.Scans (paramsText names).toList (paramItems names) ∧ Settled (paramsText names).toList ∧
      Item.EndsWord (paramsText names).toList := by
  cases names with
  | nil => exact ⟨.nil, .nil, .nil⟩
  | cons name rest =>
    have hwords : ∀ other ∈ name :: rest, BareWord other :=
      fun other hother => .of_isPlainName (h other hother)
    obtain ⟨hname, hrest⟩ := List.forall_mem_cons.1 hwords
    have htext : (paramsText (name :: rest)).toList =
        ' ' :: ("as".toList ++ ' ' :: '|' :: (name.toList ++ (Param.spacedAll rest ++ ['|']))) := by
      have hcons : paramsText (name :: rest) =
          " as |" ++ " ".intercalate (name :: rest) ++ "|" := rfl
      rw [hcons, String.toList_append, String.toList_append, Param.intercalate_toList,
        List.append_assoc, List.append_assoc]
      rfl
    have hpipe : Item.EndsWord ['|'] := .cons ⟨rfl, by decide⟩ []
    refine ⟨?_, ?_, ?_⟩
    · have hspaced : Item.Scans (Param.spacedAll rest) (rest.map .word) := by
        have hscans := Param.scans_spacedAll (f := id)
          fun other hother => .word (hrest other hother)
        rwa [List.map_id, ← List.map_eq_flatMap] at hscans
      have hnames := (Item.Scans.word hname).append (hspaced.append Item.Scans.nil.pipe hpipe)
        ((Param.endsWord_spacedAll rest).append hpipe)
      rw [htext]
      exact ((Item.Scans.word (s := "as") (.of_isPlainName (by decide))).append hnames.pipe.blank
        (.cons ⟨rfl, by decide⟩ _)).blank
    · have hspaced : Settled (Param.spacedAll rest) := by
        have hsettled := Param.settled_spacedAll (f := id) fun other hother =>
          ⟨fun hnil => (hrest other hother).1 (String.toList_eq_nil_iff.2 hnil),
            Settled.of_bare (hrest other hother).2⟩
        rwa [List.map_id] at hsettled
      have hnames : Settled (name.toList ++ (Param.spacedAll rest ++ ['|'])) :=
        (Settled.of_bare hname.2).append (hspaced.append (.singleton (by decide)))
      rw [htext]
      exact ((Settled.of_bare (BareWord.of_isPlainName (s := "as") (by decide)).2).append
        ((hnames.cons (by decide) (by simp)).cons (by decide) (by simp))).cons (by decide) (by simp)
    · rw [htext]
      exact .cons ⟨rfl, by decide⟩ _

namespace Expression

/-- An expression in source: a name, its arguments, and the block parameters. -/
def written (name : String) (args : List Param) (hash : HashParams) (names : List String) :
    String :=
  name ++ Param.tailText args hash ++ BlockHead.paramsText names

theorem written_toList (name : String) (args : List Param) (hash : HashParams)
    (names : List String) : (written name args hash names).toList =
      name.toList ++
        ((Param.tailText args hash).toList ++ (BlockHead.paramsText names).toList) := by
  rw [written, String.toList_append, String.toList_append, List.append_assoc]

/-- What is written for a normal expression is scanned as its items and may stand in a tag. -/
theorem written_legible {name : String} {args : List Param} {hash : HashParams}
    {names : List String} (hname : isPlainName name = true) (h : Param.AllNormal args hash)
    (hnames : ∀ other ∈ names, isPlainName other = true) :
    Item.Scans (written name args hash names).toList
        (.word name ::
          (Param.argItems args ++ (Param.hashItems hash ++ BlockHead.paramItems names))) ∧
      Settled (written name args hash names).toList := by
  obtain ⟨htail, htailSettled, htailEnds⟩ := Param.legible_tail
    (fun p hp => (h.args p hp).legible) h.keys fun e he => (h.hash e he).legible
  obtain ⟨hparams, hparamsSettled, hparamsEnds⟩ := BlockHead.paramsText_legible hnames
  have hword := BareWord.of_isPlainName hname
  rw [written_toList]
  refine ⟨?_, (Settled.of_bare hword.2).append (htailSettled.append hparamsSettled)⟩
  have hscans := (Item.Scans.word hword).append (htail.append hparams hparamsEnds)
    (htailEnds.append hparamsEnds)
  rwa [List.append_assoc] at hscans

/-- An expression begins as its name does. -/
theorem written_head {name : String} (args : List Param) (hash : HashParams) (names : List String)
    (hname : isPlainName name = true) :
    ∃ c cs, (written name args hash names).toList = c :: cs ∧ isNameStart c = true := by
  obtain ⟨c, cs, hs, hstart, -⟩ := exists_of_isPlainName hname
  rw [written_toList, hs]
  exact ⟨c, _, rfl, hstart⟩

end Expression

end Stencil
