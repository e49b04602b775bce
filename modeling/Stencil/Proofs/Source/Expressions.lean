import Stencil.Proofs.Outcome
import Stencil.Proofs.Source.Arguments

/-!
# Expressions read again

The items that normal arguments are written as are read as these arguments, apart from places and
bound helpers.
-/

namespace Stencil

namespace Expression

variable {b : Binding} {inCall named : Bool} {items left rest : List Item} {p : Param}
  {found : Arguments}

/-- An argument is read off the front of these items. -/
def ParamRead (b : Binding) (items : List Item) (p : Param) (rest : List Item) : Prop :=
  ∃ h, param b items = .ok (p, ⟨rest, h⟩)

/-- The arguments at the front of these items are read. -/
def ArgumentsRead (b : Binding) (inCall named : Bool) (items : List Item) (found : Arguments)
    (rest : List Item) : Prop :=
  ∃ h, arguments b inCall named items = .ok (found, ⟨rest, h⟩)

theorem ParamRead.word {raw : String} (h : bareParam raw = .ok p) :
    ParamRead b (.word raw :: rest) p rest := by
  refine ⟨by simp, ?_⟩
  rw [param, h]
  rfl

theorem ParamRead.quoted {raw : String} (h : bareParam raw = .ok p) :
    ParamRead b (.quoted raw :: rest) p rest := by
  refine ⟨by simp, ?_⟩
  rw [param, h]
  rfl

theorem ParamRead.call {name : String}
    (h : ArgumentsRead b true false items found (.closeParen :: rest)) :
    ParamRead b (.openParen :: .word name :: items)
      (.call (some b.place) name found.args found.hash (b.helperOf name)) rest := by
  obtain ⟨hlength, h⟩ := h
  simp only [List.length_cons] at hlength
  refine ⟨by simp only [List.length_cons]; omega, ?_⟩
  rw [param, callBehind, h]
  rfl

theorem ArgumentsRead.nil : ArgumentsRead b inCall named [] {} [] := by
  refine ⟨by simp, ?_⟩
  rw [arguments]
  rfl

theorem ArgumentsRead.closed :
    ArgumentsRead b true named (.closeParen :: rest) {} (.closeParen :: rest) := by
  refine ⟨le_rfl, ?_⟩
  rw [arguments]
  · rfl
  · rintro _ _ ⟨⟩
  · rintro _ ⟨⟩

theorem ArgumentsRead.hash {key : String} (hp : ParamRead b items p left)
    (h : ArgumentsRead b inCall true left found rest) :
    ArgumentsRead b inCall named (.word key :: .equals :: items)
      { found with hash := (key, p) :: found.hash } rest := by
  obtain ⟨hleft, hp⟩ := hp
  obtain ⟨hrest, h⟩ := h
  refine ⟨by simp only [List.length_cons]; omega, ?_⟩
  rw [arguments, if_neg (by simp), hp]
  change (arguments b inCall true left >>= _) = _
  rw [h]
  rfl

/-- An argument begins here, and neither its name nor the word before block parameters. -/
def BeginsArgument : List Item → Prop
  | .closeParen :: _ => False
  | .word _ :: .equals :: _ => False
  | .word "as" :: .pipe :: _ => False
  | items => items ≠ []

theorem ArgumentsRead.positional (hbegins : BeginsArgument items) (hp : ParamRead b items p left)
    (h : ArgumentsRead b inCall false left found rest) :
    ArgumentsRead b inCall false items { found with args := p :: found.args } rest := by
  obtain ⟨hleft, hp⟩ := hp
  obtain ⟨hrest, h⟩ := h
  refine ⟨by omega, ?_⟩
  cases items with
  | nil => exact absurd rfl hbegins
  | cons item after =>
    have hopen : item ≠ .closeParen := by
      rintro rfl
      exact hbegins
    rw [arguments, if_neg (by simp [hopen]), Expression.positional, if_neg Bool.false_ne_true, hp]
    · change (arguments b inCall false left >>= _) = _
      rw [h]
      rfl
    · rintro key rest rfl rfl
      exact hbegins
    · rintro rest rfl rfl
      exact hbegins

theorem blockNames_words (place : Location) (names : List String) :
    blockNames place (names.map .word ++ [.pipe]) = .ok (names, []) := by
  induction names with
  | nil => rfl
  | cons name rest ih =>
    rw [List.map_cons, List.cons_append, blockNames, ih]
    rfl

/-- Block parameters are read where they are declared. -/
theorem ArgumentsRead.blockParams (names : List String) :
    ArgumentsRead b false named (BlockHead.paramItems names) { blockParams := names } [] := by
  cases names with
  | nil => exact .nil
  | cons name rest =>
    refine ⟨by simp, ?_⟩
    have hparams : Expression.blockParams b.place (.word name :: (rest.map .word ++ [.pipe])) =
        .ok (name :: rest) := by
      have hnames := blockNames_words b.place (name :: rest)
      rw [List.map_cons, List.cons_append] at hnames
      rw [Expression.blockParams, hnames]
      rfl
    rw [BlockHead.paramItems, arguments, if_neg (by simp), if_neg Bool.false_ne_true, hparams]
    rfl

/-- These items do not make a key or the word before block parameters of the item before them. -/
def Detached (items : List Item) : Prop :=
  items.head? ≠ some .equals ∧ items.head? ≠ some .pipe

theorem beginsArgument_items (p : Param) (hrest : Detached rest) :
    BeginsArgument (p.items ++ rest) := by
  -- A word is an argument unless what is behind it makes it a key or declares block parameters.
  have hword (raw : String) : BeginsArgument (.word raw :: rest) := by
    unfold BeginsArgument
    split
    · rename_i heq
      cases heq
    · rename_i heq
      cases heq
      exact hrest.1 rfl
    · rename_i heq
      cases heq
      exact hrest.2 rfl
    · exact List.cons_ne_nil _ _
  cases p with
  | literal raw value =>
    cases value with
    | text s => exact List.cons_ne_nil _ _
    | _ => exact hword raw
  | reference raw => exact hword raw
  | call place name args hash helper => exact List.cons_ne_nil _ _

theorem detached_items (p : Param) (rest : List Item) : Detached (p.items ++ rest) := by
  cases p with
  | literal raw value => cases value <;> exact ⟨nofun, nofun⟩
  | reference raw => exact ⟨nofun, nofun⟩
  | call place name args hash helper => exact ⟨nofun, nofun⟩

theorem detached_argItems (args : List Param) (hrest : Detached rest) :
    Detached (Param.argItems args ++ rest) := by
  cases args with
  | nil => exact hrest
  | cons p more =>
    rw [Param.argItems, List.append_assoc]
    exact detached_items p _

theorem detached_hashItems (hash : HashParams) (hrest : Detached rest) :
    Detached (Param.hashItems hash ++ rest) := by
  cases hash with
  | nil => exact hrest
  | cons e more => exact ⟨nofun, nofun⟩

/-- Items that are read as arguments are detached: neither sign begins one. -/
theorem ArgumentsRead.detached (h : ArgumentsRead b inCall named items found rest) :
    Detached items := by
  obtain ⟨hrest, h⟩ := h
  cases items with
  | nil => exact ⟨by simp, by simp⟩
  | cons item after =>
    cases item with
    | equals | pipe =>
      rw [arguments, if_neg (by simp), Expression.positional] at h
      · split at h
        · cases h
        · rw [param] at h
          · cases h
          all_goals simp
      all_goals simp
    | _ => exact ⟨by simp, by simp⟩

/-- The items of an argument are read as that argument, whatever follows. -/
def Reads (b : Binding) (p : Param) : Prop :=
  ∀ rest, ∃ q, ParamRead b (p.items ++ rest) q rest ∧ Param.same q p = true

/-- What was read says the same as these arguments and declares these block parameters. -/
structure Says (found : Arguments) (args : List Param) (hash : HashParams) (names : List String) :
    Prop where
  args : Param.sameArgs found.args args = true
  hash : Param.sameHash found.hash hash = true
  names : found.blockParams = names

variable {args : List Param} {hash : HashParams} {names : List String} {tail : List Item}

/-- Named arguments are read where what follows them is. -/
theorem hash_read (hhash : ∀ e ∈ hash, Reads b e.2)
    (htail : ∀ named, ArgumentsRead b inCall named tail { blockParams := names } rest)
    (named : Bool) :
    ∃ found, ArgumentsRead b inCall named (Param.hashItems hash ++ tail) found rest ∧
      Says found [] hash names := by
  induction hash generalizing named with
  | nil => exact ⟨_, htail named, rfl, rfl, rfl⟩
  | cons e more ih =>
    obtain ⟨q, hq, hsame⟩ := hhash e List.mem_cons_self (Param.hashItems more ++ tail)
    obtain ⟨found, hfound, hsaid⟩ := ih (fun d hd => hhash d (List.mem_cons_of_mem _ hd)) true
    refine ⟨{ found with hash := (e.1, q) :: found.hash }, ?_, hsaid.args, ?_, hsaid.names⟩
    · rw [Param.hashItems, List.cons_append, List.cons_append, List.append_assoc]
      exact .hash hq hfound
    · rw [Param.sameHash, hsame, hsaid.hash, beq_self_eq_true]
      rfl

/-- Arguments are read where what follows them is. -/
theorem arguments_read (hargs : ∀ p ∈ args, Reads b p) (hhash : ∀ e ∈ hash, Reads b e.2)
    (htail : ∀ named, ArgumentsRead b inCall named tail { blockParams := names } rest)
    (hdetached : Detached tail) :
    ∃ found, ArgumentsRead b inCall false (Param.argItems args ++ (Param.hashItems hash ++ tail))
      found rest ∧ Says found args hash names := by
  induction args with
  | nil => exact hash_read hhash htail false
  | cons p more ih =>
    obtain ⟨q, hq, hsame⟩ := hargs p List.mem_cons_self
      (Param.argItems more ++ (Param.hashItems hash ++ tail))
    obtain ⟨found, hfound, hsaid⟩ := ih fun d hd => hargs d (List.mem_cons_of_mem _ hd)
    refine ⟨{ found with args := q :: found.args }, ?_, ?_, hsaid.hash, hsaid.names⟩
    · rw [Param.argItems, List.append_assoc]
      exact .positional (beginsArgument_items p (detached_argItems more
        (detached_hashItems hash hdetached))) hq hfound
    · rw [Param.sameArgs, hsame, hsaid.args]
      rfl

/-- A normal argument is read where it is written. -/
theorem reads_of_normal (h : p.Normal) : Reads b p := by
  have hbare {raw : String} {q : Param} (hread : Param.ofText raw = .ok q) :
      bareParam raw = .ok q := by
    rw [bareParam, hread]
    rfl
  induction h with
  | @bare raw value hread hne =>
    intro rest
    refine ⟨.literal raw value, ?_, ?_⟩
    · rw [Param.items]
      · exact .word (hbare hread)
      · exact hne
    · rw [Param.same, beq_self_eq_true]
  | @quoted raw s hread =>
    intro rest
    refine ⟨.literal raw (.text s), .quoted (hbare hread), ?_⟩
    rw [Param.same, beq_self_eq_true]
  | @reference raw hread =>
    intro rest
    refine ⟨.reference raw, .word (hbare hread), ?_⟩
    rw [Param.same, beq_self_eq_true]
  | @call place name args hash helper _ _ _ _ hargs hhash =>
    intro rest
    have hclosed (named : Bool) : ArgumentsRead b true named (.closeParen :: rest)
        { blockParams := [] } (.closeParen :: rest) := .closed
    obtain ⟨found, hfound, hsaid⟩ := arguments_read hargs hhash hclosed ⟨by simp, by simp⟩
    refine ⟨.call (some b.place) name found.args found.hash (b.helperOf name), ?_, ?_⟩
    · rw [Param.items, List.cons_append, List.cons_append, List.append_assoc, List.append_assoc]
      exact .call hfound
    · rw [Param.same, hsaid.args, hsaid.hash, beq_self_eq_true]
      rfl

/-- The items of an expression behind its name. -/
def itemsBehind (args : List Param) (hash : HashParams) (names : List String) : List Item :=
  Param.argItems args ++ (Param.hashItems hash ++ BlockHead.paramItems names)

theorem itemsOf_written {name : String} (hname : isPlainName name = true)
    (h : Param.AllNormal args hash) (hnames : ∀ other ∈ names, isPlainName other = true)
    (place : Location) :
    itemsOf place (written name args hash names) =
      .ok (.word name :: itemsBehind args hash names) := by
  rw [itemsOf, (written_legible hname h hnames).1.scan_eq]
  rfl

theorem arguments_written (h : Param.AllNormal args hash) (names : List String) :
    ∃ found, ArgumentsRead b false false (itemsBehind args hash names) found [] ∧
      Says found args hash names := by
  refine arguments_read (fun p hp => reads_of_normal (h.args p hp))
    (fun e he => reads_of_normal (h.hash e he)) (fun _ => .blockParams names) ?_
  cases names with
  | nil => exact ⟨nofun, nofun⟩
  | cons other rest => exact ⟨nofun, nofun⟩

theorem parse_of_items {name expression : String}
    (hitems : itemsOf b.place expression = .ok (.word name :: items))
    (hfound : ArgumentsRead b false false items found rest) :
    parse b expression = .ok (name, found) := by
  obtain ⟨_, hfound⟩ := hfound
  rw [parse, hitems]
  change (arguments b false false items >>= _) = _
  rw [hfound]
  rfl

/-- A reference in front of the name of a tag makes it an argument: what is behind it is read as it was
behind the reference alone. -/
theorem parse_naming {name reference expression expression' : String}
    (hreference : Param.ofText reference = .ok (.reference reference))
    (hitems : itemsOf b.place expression = .ok (.word reference :: items))
    (hitems' : itemsOf b.place expression' = .ok (.word name :: .word reference :: items))
    (h : parse b expression = .ok (reference, found)) :
    parse b expression' =
      .ok (name, { found with args := .reference reference :: found.args }) := by
  have hfound : ∃ rest, ArgumentsRead b false false items found rest := by
    rw [parse, hitems] at h
    change (arguments b false false items >>= _) = _ at h
    obtain ⟨read, hread, hsame⟩ := bind_eq_ok_iff.1 h
    have hfound : read.1 = found := (Prod.mk.inj (Except.ok.inj hsame)).2
    rw [← hfound]
    exact ⟨read.2.1, read.2.2, hread⟩
  obtain ⟨rest, hfound⟩ := hfound
  have hbare : bareParam reference = .ok (.reference reference) := by
    rw [bareParam, hreference]
    rfl
  exact parse_of_items hitems' (.positional
    (beginsArgument_items (.reference reference) hfound.detached) (.word hbare) hfound)

/-- A normal expression is read where it is written. -/
theorem parse_written {name : String} (hname : isPlainName name = true)
    (h : Param.AllNormal args hash) (hnames : ∀ other ∈ names, isPlainName other = true) :
    ∃ found, parse b (written name args hash names) = .ok (name, found) ∧
      Says found args hash names := by
  obtain ⟨found, hfound, hsaid⟩ := arguments_written (b := b) h names
  exact ⟨found, parse_of_items (itemsOf_written hname h hnames b.place) hfound, hsaid⟩

theorem length_of_sameArgs {xs ys : List Param} (h : Param.sameArgs xs ys = true) :
    xs.length = ys.length := by
  induction xs generalizing ys with
  | nil =>
    cases ys with
    | nil => rfl
    | cons y ys => simp [Param.sameArgs] at h
  | cons x xs ih =>
    cases ys with
    | nil => simp [Param.sameArgs] at h
    | cons y ys =>
      rw [Param.sameArgs, Bool.and_eq_true] at h
      rw [List.length_cons, List.length_cons, ih h.2]

end Expression

end Stencil
