import Stencil.Proofs.Expression.Bracketed
import Stencil.Proofs.Scope.Climbing

/-!
# Keys in brackets

Every key without a closing bracket can be written in brackets, where none of its characters means
anything. A row of such keys is taken apart into them, and a reference with one more key behind it
reads the member of that name from what the reference reads.
-/

namespace Stencil

namespace Path

variable {key cs : List Char}

/-! ### Taking references apart -/

theorem segmentsFrom_bracket (hkey : ']' ∉ key) (name rest : List Char) :
    segmentsFrom (.bracket name) (key ++ ']' :: rest) =
      (name.reverse ++ key) :: segmentsFrom .between rest := by
  induction key generalizing name with
  | nil => simp [segmentsFrom]
  | cons c key ih =>
    obtain ⟨hc, hkey⟩ := not_or.1 (List.mem_cons.not.1 hkey)
    have hc' : (c == ']') = false := by simpa using Ne.symm hc
    simp [segmentsFrom, hc', ih hkey]

/-- A key in brackets is one segment. -/
theorem segmentsFrom_key (hkey : ']' ∉ key) (rest : List Char) :
    segmentsFrom .between ('[' :: (key ++ ']' :: rest)) = key :: segmentsFrom .between rest := by
  have hplain : isPlain '[' = false := rfl
  rw [segmentsFrom, hplain, if_neg Bool.false_ne_true, if_pos (by simp), segmentsFrom_bracket hkey]
  rfl

theorem segmentsFrom_point (rest : List Char) :
    segmentsFrom .between ('.' :: rest) = segmentsFrom .between rest := rfl

/-- Where the reading of a word stands, outside of brackets or inside of one. -/
def Reading.Stands : Bool → Reading → Prop
  | true, .bracket _ => True
  | false, .between | false, .plain _ => True
  | _, _ => False

/-- A key in brackets behind a word is one more segment, by induction on the word. -/
theorem segmentsFrom_append {inside : Bool} (hcs : Item.WordFrom inside cs) (hkey : ']' ∉ key)
    {reading : Reading} (hreading : reading.Stands inside) :
    segmentsFrom reading (cs ++ keyBehind key) = segmentsFrom reading cs ++ [key] := by
  have hend : segmentsFrom .between (keyBehind key) = [key] := by
    rw [keyBehind, segmentsFrom_point, segmentsFrom_key hkey]
    rfl
  induction hcs generalizing reading with
  | nil =>
    cases reading with
    | between => exact hend
    | plain name =>
      have hstep : segmentsFrom (.plain name) (keyBehind key) =
          name.reverse :: segmentsFrom .between ('[' :: (key ++ [']'])) := rfl
      rw [List.nil_append, hstep, segmentsFrom_key hkey]
      rfl
    | bracket _ => exact hreading.elim
  | @plain c cs hc _ ih =>
    have hbracket : (c == '[') = false := by
      rw [beq_eq_false_iff_ne]
      rintro rfl
      cases hc
    cases reading with
    | between =>
      simp only [List.cons_append, segmentsFrom, hbracket, Bool.false_and, Bool.false_eq_true,
        if_false]
      split
      · exact ih trivial
      · exact ih trivial
    | plain name =>
      simp only [List.cons_append, segmentsFrom, hbracket, Bool.false_and, Bool.false_eq_true,
        if_false]
      split
      · exact ih trivial
      · rw [ih (show Reading.Stands false .between from trivial), List.cons_append]
    | bracket _ => exact hreading.elim
  | @opening cs hcs ih =>
    have hplain : isPlain '[' = false := rfl
    have hclosed : (cs ++ keyBehind key).contains ']' = true := by simp [hcs.closed]
    have hclosed' : cs.contains ']' = true := by simpa using hcs.closed
    cases reading with
    | between =>
      rw [List.cons_append, segmentsFrom, segmentsFrom, hplain, if_neg Bool.false_ne_true, hclosed,
        hclosed']
      exact ih trivial
    | plain name =>
      simp only [List.cons_append, segmentsFrom, hplain, hclosed, hclosed', Bool.false_eq_true,
        if_false, beq_self_eq_true, Bool.and_self, if_true]
      rw [ih (show Reading.Stands true (.bracket []) from trivial)]
    | bracket _ => exact hreading.elim
  | @inside c cs hc _ ih =>
    have hc' : (c == ']') = false := by simpa using hc
    cases reading with
    | between | plain => exact hreading.elim
    | bracket name =>
      simp only [List.cons_append, segmentsFrom, hc', Bool.false_eq_true, if_false]
      exact ih trivial
  | @closing cs _ ih =>
    cases reading with
    | between | plain => exact hreading.elim
    | bracket name =>
      simp only [List.cons_append, segmentsFrom, beq_self_eq_true, if_true]
      rw [ih (show Reading.Stands false .between from trivial)]

/-! ### Words as references -/

theorem strip_of_word {reference : String} (h : Item.WordFrom false reference.toList) :
    (Text.strip reference).toList = reference.toList := by
  have hfirst : ∀ c ∈ reference.toList.head?, Text.isBlank c = false := by
    intro c hc
    obtain ⟨cs, hcs⟩ := List.head?_eq_some_iff.1 hc
    exact (hcs ▸ h).first_ne.1
  rw [Text.strip, String.toList_ofList, Text.trimBoth_eq_self hfirst h.last_not_blank]

/-- A reference whose characters behind an `@`, if there is one, are known. -/
def ofBody (raw : String) (isData : Bool) (body : List Char) : Path :=
  { raw, hops := (climbs body).1, isLocal := (afterClimbs (climbs body).2).1, isData,
    segments := (afterClimbs (climbs body).2).2.map String.ofList }

theorem parse_data {reference : String} {rest : List Char}
    (h : Item.WordFrom false reference.toList) (hlist : reference.toList = '@' :: rest) :
    parse reference = ofBody reference true rest := by
  rw [parse, strip_of_word h, hlist]
  rfl

theorem parse_no_data {reference : String} (h : Item.WordFrom false reference.toList)
    (hfirst : reference.toList.head? ≠ some '@') :
    parse reference = ofBody reference false reference.toList := by
  rw [parse, strip_of_word h]
  split
  rename_i isData body hbody
  split at hbody
  · rename_i hlist
    rw [hlist] at hfirst
    exact absurd rfl hfirst
  · cases hbody
    rfl

/-! ### Rows of keys -/

/-- Keys in brackets with points between them. -/
def bracketed (keys : List String) : String :=
  ".".intercalate (keys.map fun key => "[" ++ key ++ "]")

theorem toList_bracketed (key : String) (rest : List String) :
    (bracketed (key :: rest)).toList =
      '[' :: (key.toList ++ ']' :: rest.flatMap fun other => keyBehind other.toList) := by
  induction rest generalizing key with
  | nil => simp [bracketed]
  | cons other rest ih =>
    have hstep : bracketed (key :: other :: rest) =
        "[" ++ key ++ "]" ++ "." ++ bracketed (other :: rest) := by
      rw [bracketed, List.map_cons, List.map_cons, String.intercalate_cons_cons]
      rfl
    rw [hstep, String.toList_append, ih]
    simp [keyBehind]

theorem word_bracketed {keys : List String} (hne : keys ≠ []) (h : ∀ key ∈ keys, ']' ∉ key.toList) :
    Item.WordFrom false (bracketed keys).toList := by
  obtain ⟨key, rest, rfl⟩ := List.exists_cons_of_ne_nil hne
  obtain ⟨hkey, hrest⟩ := List.forall_mem_cons.1 h
  rw [toList_bracketed]
  refine .opening (.of_key hkey ?_)
  clear h hkey hne
  induction rest with
  | nil => exact .nil
  | cons other rest ih =>
    obtain ⟨hother, hrest⟩ := List.forall_mem_cons.1 hrest
    exact (Item.WordFrom.keyBehind hother).append (ih hrest)

theorem segmentsFrom_bracketed {key : String} {rest : List String}
    (h : ∀ other ∈ key :: rest, ']' ∉ other.toList) :
    segmentsFrom .between (bracketed (key :: rest)).toList = (key :: rest).map String.toList := by
  obtain ⟨hkey, hrest⟩ := List.forall_mem_cons.1 h
  rw [toList_bracketed, segmentsFrom_key hkey, List.map_cons]
  refine congrArg _ ?_
  clear h hkey
  induction rest with
  | nil => rfl
  | cons other rest ih =>
    obtain ⟨hother, hrest⟩ := List.forall_mem_cons.1 hrest
    rw [List.flatMap_cons, keyBehind, List.cons_append, segmentsFrom_point, List.cons_append,
      List.append_assoc, List.singleton_append, segmentsFrom_key hother, ih hrest]
    rfl

/-- Keys in brackets are taken apart into these keys, whatever they hold beside the closing
bracket. -/
theorem parse_bracketed {keys : List String} (hne : keys ≠ [])
    (h : ∀ key ∈ keys, ']' ∉ key.toList) :
    parse (bracketed keys) =
      { raw := bracketed keys, hops := 0, isLocal := false, isData := false,
        segments := keys } := by
  have hword := word_bracketed hne h
  obtain ⟨key, rest, rfl⟩ := List.exists_cons_of_ne_nil hne
  have hsegments := segmentsFrom_bracketed h
  have hlist := toList_bracketed key rest
  rw [parse_no_data hword (by rw [hlist]; simp), ofBody]
  generalize (bracketed (key :: rest)).toList = cs at hlist hsegments
  -- Nothing that means something at the front of a reference begins with a bracket.
  have hclimbs : climbs cs = (0, cs) := by
    rw [hlist]
    rfl
  have hafter : afterClimbs cs = (false, segmentsFrom .between cs) := by
    rw [hlist]
    rfl
  rw [hclimbs, hafter, hsegments]
  simp

/-! ### One key more -/

section

variable {word : List Char}

theorem append_keyBehind_ne (h : '[' ∉ word) : cs ++ keyBehind key ≠ word := by
  rintro rfl
  exact h (by simp [keyBehind])

/-- Behind a reference to something, a key in brackets does not change what is in front. -/
theorem climbs_append (h : (afterClimbs (climbs cs).2).2 ≠ []) (key : List Char) :
    climbs (cs ++ keyBehind key) = ((climbs cs).1, (climbs cs).2 ++ keyBehind key) := by
  induction cs using climbs.induct with
  | case1 rest hops after hrest ih =>
    have hstep (cs : List Char) :
        climbs ('.' :: '.' :: '/' :: cs) = ((climbs cs).1 + 1, (climbs cs).2) := rfl
    rw [hstep] at h
    rw [List.cons_append, List.cons_append, List.cons_append, hstep, hstep, ih h]
  | case2 cs hcs hparent =>
    rw [beq_iff_eq.1 hparent] at h
    exact absurd rfl h
  | case3 cs hcs hparent =>
    have hself : climbs cs = (0, cs) := by
      rw [climbs, if_neg hparent]
      exact hcs
    have hne : cs ++ keyBehind key ≠ ['.', '.'] := append_keyBehind_ne (by decide)
    rw [hself, climbs, if_neg (by simpa using hne)]
    intro rest heq
    rcases cs with _ | ⟨a, _ | ⟨b, _ | ⟨c, cs⟩⟩⟩
    · simp [keyBehind] at heq
    · simp [keyBehind] at heq
    · simp [keyBehind] at heq
    · simp only [List.cons_append, List.cons.injEq] at heq
      obtain ⟨rfl, rfl, rfl, -⟩ := heq
      exact hcs cs rfl

/-- References to the scope itself have no segments. -/
theorem afterClimbs_self (h : cs = [] ∨ cs = "this".toList ∨ cs = ['.']) :
    (afterClimbs cs).2 = [] := by
  rcases h with rfl | rfl | rfl <;> rfl

theorem afterClimbs_eq (hself : ¬(cs = [] ∨ cs = "this".toList ∨ cs = ['.']))
    (hslash : ∀ rest, cs ≠ '.' :: '/' :: rest) :
    afterClimbs cs =
      if "this.".toList.isPrefixOf cs || "this/".toList.isPrefixOf cs then
        (true, segmentsFrom .between (cs.drop 5))
      else (false, segmentsFrom .between cs) := by
  rw [afterClimbs, if_neg (by simpa [or_assoc] using hself)]
  exact hslash

/-- A key in brackets makes no `this` with a mark behind it, unless the `this` is there. -/
theorem isPrefixOf_append_key (hthis : cs ≠ "this".toList) (mark : Char) (key : List Char) :
    ("this".toList ++ [mark]).isPrefixOf (cs ++ keyBehind key) =
      ("this".toList ++ [mark]).isPrefixOf cs := by
  rw [Bool.eq_iff_iff, List.isPrefixOf_iff_prefix, List.isPrefixOf_iff_prefix]
  refine ⟨fun hprefix => ?_, fun hprefix => hprefix.trans (List.prefix_append _ _)⟩
  rcases List.prefix_or_prefix_of_prefix hprefix (List.prefix_append cs _) with hcs | ⟨rest, hrest⟩
  · exact hcs
  · -- Otherwise the words meet at the point in front of the key.
    rw [← hrest, List.prefix_append_right_inj] at hprefix
    rcases List.eq_nil_or_concat rest with rfl | ⟨front, last, rfl⟩
    · exact (List.append_nil cs ▸ hrest).symm ▸ List.prefix_refl _
    · rw [List.concat_eq_append, ← List.append_assoc] at hrest
      have hfront : cs ++ front = "this".toList := List.append_inj_left' hrest rfl
      cases front with
      | nil => exact absurd (List.append_nil cs ▸ hfront) hthis
      | cons c front =>
        have hpoint : c = '.' := (List.cons_prefix_cons.1 hprefix).1
        exact absurd (show '.' ∈ "this".toList by rw [← hfront, hpoint]; simp) (by decide)

theorem afterClimbs_append (hcs : Item.WordFrom false cs) (h : (afterClimbs cs).2 ≠ [])
    (hkey : ']' ∉ key) :
    afterClimbs (cs ++ keyBehind key) = ((afterClimbs cs).1, (afterClimbs cs).2 ++ [key]) := by
  have hsegments {cs : List Char} (hcs : Item.WordFrom false cs) :
      segmentsFrom .between (cs ++ keyBehind key) = segmentsFrom .between cs ++ [key] :=
    segmentsFrom_append hcs hkey trivial
  have hself : ¬(cs = [] ∨ cs = "this".toList ∨ cs = ['.']) :=
    fun hself => h (afterClimbs_self hself)
  have hself' : ¬(cs ++ keyBehind key = [] ∨ cs ++ keyBehind key = "this".toList ∨
      cs ++ keyBehind key = ['.']) := by
    rintro (heq | heq | heq)
    all_goals exact append_keyBehind_ne (by decide) heq
  by_cases hslash : ∃ rest, cs = '.' :: '/' :: rest
  · obtain ⟨rest, rfl⟩ := hslash
    have hrest : Item.WordFrom false rest := (hcs.tail rfl).tail rfl
    have hstep (cs : List Char) :
        afterClimbs ('.' :: '/' :: cs) = (true, segmentsFrom .between cs) := rfl
    rw [List.cons_append, List.cons_append, hstep, hstep, hsegments hrest]
  · have hslash : ∀ rest, cs ≠ '.' :: '/' :: rest := fun rest heq => hslash ⟨rest, heq⟩
    have hslash' : ∀ rest, cs ++ keyBehind key ≠ '.' :: '/' :: rest := by
      intro rest heq
      rcases cs with _ | ⟨a, _ | ⟨b, cs⟩⟩
      · simp [keyBehind] at heq
      · simp [keyBehind] at heq
      · simp only [List.cons_append, List.cons.injEq] at heq
        obtain ⟨rfl, rfl, -⟩ := heq
        exact hslash cs rfl
    have hpoint := isPrefixOf_append_key (fun h => hself (.inr (.inl h))) '.' key
    have hmark := isPrefixOf_append_key (fun h => hself (.inr (.inl h))) '/' key
    have hbehind (mark : Char) (hword : Item.isWordChar mark = true)
        (hthis : ("this".toList ++ [mark]).isPrefixOf cs = true) :
        5 ≤ cs.length ∧ Item.WordFrom false (cs.drop 5) := by
      obtain ⟨rest, rfl⟩ := List.isPrefixOf_iff_prefix.1 hthis
      exact ⟨by simp, ((((hcs.tail rfl).tail rfl).tail rfl).tail rfl).tail hword⟩
    rw [afterClimbs_eq hself hslash, afterClimbs_eq hself' hslash']
    change "this.".toList.isPrefixOf (cs ++ keyBehind key) = "this.".toList.isPrefixOf cs at hpoint
    change "this/".toList.isPrefixOf (cs ++ keyBehind key) = "this/".toList.isPrefixOf cs at hmark
    rw [hpoint, hmark]
    split
    · rename_i hthis
      obtain ⟨hlength, hdrop⟩ : 5 ≤ cs.length ∧ Item.WordFrom false (cs.drop 5) := by
        rcases Bool.or_eq_true _ _ ▸ hthis with hthis | hthis
        · exact hbehind '.' rfl hthis
        · exact hbehind '/' rfl hthis
      rw [List.drop_append_of_le_length hlength, hsegments hdrop]
    · rw [hsegments hcs]

end

/-- What follows the parent steps of a word is a word. -/
theorem word_climbs (hcs : Item.WordFrom false cs) : Item.WordFrom false (climbs cs).2 := by
  induction cs using climbs.induct with
  | case1 rest hops after hrest ih =>
    have hstep : (climbs ('.' :: '.' :: '/' :: rest)).2 = (climbs rest).2 := rfl
    rw [hstep]
    exact ih (((hcs.tail rfl).tail rfl).tail rfl)
  | case2 cs _ hparent =>
    rw [beq_iff_eq.1 hparent]
    exact .nil
  | case3 cs hcs' hparent =>
    rw [climbs, if_neg hparent]
    · exact hcs
    · exact hcs'

/-- The segments of a reference with a body of its own. -/
theorem ofBody_append (hcs : Item.WordFrom false cs) {raw raw' : String} {isData : Bool}
    {key : String} (h : (ofBody raw isData cs).segments ≠ []) (hkey : ']' ∉ key.toList) :
    ofBody raw' isData (cs ++ keyBehind key.toList) =
      { ofBody raw isData cs with
        raw := raw', segments := (ofBody raw isData cs).segments ++ [key] } := by
  have hne : (afterClimbs (climbs cs).2).2 ≠ [] := by
    intro hnil
    exact h (by rw [ofBody, hnil, List.map_nil])
  rw [ofBody, climbs_append hne, afterClimbs_append (word_climbs hcs) hne hkey, ofBody]
  simp

/-- A reference with one more key in brackets. -/
def behind (reference key : String) : String := reference ++ ".[" ++ key ++ "]"

theorem toList_behind (reference key : String) :
    (behind reference key).toList = reference.toList ++ keyBehind key.toList := by
  simp [behind, keyBehind]

theorem word_behind {reference key : String} (hword : Item.WordFrom false reference.toList)
    (hkey : ']' ∉ key.toList) : Item.WordFrom false (behind reference key).toList := by
  rw [toList_behind]
  exact hword.append (.keyBehind hkey)

/-- A reference to something, with a key in brackets behind it, has this key for its last
segment. -/
theorem parse_behind {reference key : String} (hword : Item.WordFrom false reference.toList)
    (h : (parse reference).segments ≠ []) (hkey : ']' ∉ key.toList) :
    parse (behind reference key) =
      { parse reference with
        raw := behind reference key, segments := (parse reference).segments ++ [key] } := by
  have hlist := toList_behind reference key
  have hword' := word_behind hword hkey
  by_cases hdata : reference.toList.head? = some '@'
  · obtain ⟨rest, hrest⟩ := List.head?_eq_some_iff.1 hdata
    have hrest' : (behind reference key).toList = '@' :: (rest ++ keyBehind key.toList) := by
      rw [hlist, hrest, List.cons_append]
    have hcs : Item.WordFrom false rest := (hrest ▸ hword).tail rfl
    rw [parse_data hword hrest] at h ⊢
    rw [parse_data hword' hrest', ofBody_append hcs h hkey]
  · have hdata' : (behind reference key).toList.head? ≠ some '@' := by
      cases hcs : reference.toList with
      | nil =>
        rw [parse_no_data hword hdata, hcs] at h
        exact absurd rfl h
      | cons c cs =>
        rw [hcs] at hdata
        rw [hlist, hcs]
        exact hdata
    rw [parse_no_data hword hdata] at h ⊢
    rw [parse_no_data hword' hdata', hlist, ofBody_append hword h hkey]

end Path

/-! ## Members at the end of a chain -/

section

variable {resolvers : List Resolver}

/-- One name more is read from what the names before it have read. -/
theorem readMembers_append (names : List String) (name : String) (v : Value) :
    readMembers resolvers v (names ++ [name]) =
      readMembers resolvers v names >>= fun found => readMembers resolvers found [name] := by
  induction names generalizing v with
  | nil => rfl
  | cons first rest ih =>
    have hstep (others : List String) : readMembers resolvers v (first :: others) =
        if v.isNull then .ok .null
        else readMember v first resolvers >>= fun found =>
          found.elim (.ok .null) fun found => readMembers resolvers found others := by
      rw [readMembers]
      split
      · rfl
      · cases readMember v first resolvers with
        | error cause => rfl
        | ok found => cases found <;> rfl
    rw [List.cons_append, hstep, hstep]
    split
    · rfl
    · cases readMember v first resolvers with
      | error cause => rfl
      | ok found =>
        cases found with
        | none => rfl
        | some found => exact ih found

end

namespace Scope

section

variable {s : Scope} {data : Bindings} {v : Value} {key : String} {names : List String}

theorem climb?_resolvers {scope : Scope} {hops : Nat} (h : s.climb? hops = some scope) :
    scope.resolvers = s.resolvers := by
  induction hops generalizing s with
  | zero =>
    cases h
    rfl
  | succ hops ih =>
    obtain ⟨here, outer, resolvers⟩ := s
    cases outer with
    | nil => cases h
    | cons level rest => exact @ih ⟨level, rest, resolvers⟩ h

theorem readLevels_append_key {resolvers : List Resolver} {isLocal : Bool} {name : String}
    {levels : List Level} (h : readLevels resolvers isLocal name names levels = .ok v) :
    readLevels resolvers isLocal name (names ++ [key]) levels = readMembers resolvers v [key] := by
  induction levels with
  | nil =>
    cases h
    rfl
  | cons level outer ih =>
    rw [readLevels_cons] at h ⊢
    cases hlevel : readLevel resolvers level name with
    | error cause =>
      rw [hlevel] at h
      cases h
    | ok found =>
      rw [hlevel] at h
      cases found with
      | some found =>
        change readMembers resolvers found names = .ok v at h
        change readMembers resolvers found (names ++ [key]) = _
        rw [readMembers_append, h]
        rfl
      | none =>
        change (if isLocal then pure Value.null else _) = Except.ok v at h
        change (if isLocal then pure Value.null else _) = _
        cases isLocal with
        | true =>
          cases h
          rfl
        | false => exact ih h

theorem readData_append_key (hne : names ≠ []) (h : s.readData data names = .ok v) :
    s.readData data (names ++ [key]) = readMembers s.resolvers v [key] := by
  have hmembers {found : Value} {rest : List String}
      (h : readMembers s.resolvers found rest = .ok v) :
      readMembers s.resolvers found (rest ++ [key]) = readMembers s.resolvers v [key] := by
    rw [readMembers_append, h]
    rfl
  obtain ⟨name, rest, rfl⟩ := List.exists_cons_of_ne_nil hne
  rw [List.cons_append, readData]
  rw [readData] at h
  split
  · rename_i hroot
    rw [if_pos hroot] at h
    exact hmembers h
  · rename_i hroot
    rw [if_neg hroot] at h
    split
    · rename_i found hbinding
      rw [hbinding] at h
      exact hmembers h
    · rename_i hbinding
      rw [hbinding] at h
      dsimp only at h
      split
      · rename_i found hdata
        rw [hdata] at h
        exact hmembers h
      · rename_i hdata
        rw [hdata] at h
        cases h
        rfl

/-- A reference with a key in brackets behind it reads the member under the key from what the
reference reads. -/
theorem get_behind {reference : String} (hword : Item.WordFrom false reference.toList)
    (hne : (Path.parse reference).segments ≠ []) (hkey : ']' ∉ key.toList)
    (h : s.get data reference = .ok v) :
    s.get data (Path.behind reference key) =
      (readMembers s.resolvers v [key]).mapError Failure.fault := by
  have hparse := Path.parse_behind hword hne hkey
  have hhops : (Path.parse (Path.behind reference key)).hops = (Path.parse reference).hops := by
    rw [hparse]
  cases hclimb : s.climb? (Path.parse reference).hops with
  | none =>
    rw [get_of_beyond hclimb] at h
    cases h
  | some scope =>
    have hresolvers := climb?_resolvers hclimb
    rw [get_of_climb? hclimb] at h
    rw [get_of_climb? (by rw [hhops, hclimb]), hparse, ← hresolvers]
    refine congrArg _ ?_
    have hread : scope.readPath data (Path.parse reference) = .ok v := by
      cases hpath : scope.readPath data (Path.parse reference) with
      | error cause =>
        rw [hpath] at h
        cases h
      | ok found =>
        rw [hpath] at h
        cases h
        rfl
    generalize Path.parse reference = path at hne hread
    rw [readPath] at hread ⊢
    dsimp only
    split
    · rename_i hdata
      rw [if_pos hdata] at hread
      exact readData_append_key hne hread
    · rename_i hdata
      rw [if_neg hdata] at hread
      obtain ⟨name, rest, hsegments⟩ := List.exists_cons_of_ne_nil hne
      rw [hsegments] at hread ⊢
      exact readLevels_append_key hread

end

end Scope

/-! ## Chains of mappings -/

/-- What is stored under keys in mappings inside of each other. -/
inductive Value.Stores : Value → List String → Value → Prop where
  | here (v : Value) : Stores v [] v
  | inside {label : Label} {entries : List (Value × Value)} {key : String} {keys : List String}
      {inner v : Value} : entry? key entries = some inner → Stores inner keys v →
      Stores (.map label entries) (key :: keys) v

section

variable {resolvers : List Resolver}

/-- The entry of a mapping is what every resolver that answers gives. -/
theorem readMember_map (h : Resolver.entries ∈ resolvers) {label : Label}
    {entries : List (Value × Value)} {key : String} {v : Value}
    (hentry : Value.entry? key entries = some v) :
    readMember (.map label entries) key resolvers = .ok (some v) := by
  induction resolvers with
  | nil => exact absurd h List.not_mem_nil
  | cons resolver rest ih =>
    cases resolver with
    | entries =>
      rw [readMember, Resolver.read, hentry]
      rfl
    | items => exact ih ((List.mem_cons.1 h).resolve_left (by decide))
    | fields =>
      have hread : Resolver.read .fields (.map label entries) key = .ok none := by
        rw [Resolver.read]
        simp [Resolver.fieldsOf, pure, Except.pure]
      rw [readMember, hread]
      exact ih ((List.mem_cons.1 h).resolve_left (by decide))

theorem readMembers_of_stores (h : Resolver.entries ∈ resolvers) {model v : Value}
    {keys : List String} (hstores : model.Stores keys v) :
    readMembers resolvers model keys = .ok v := by
  induction hstores with
  | here v => rfl
  | @inside label entries key keys inner v hentry _ ih =>
    have hnull : (Value.map label entries).isNull = false := rfl
    rw [readMembers, hnull, if_neg Bool.false_ne_true, readMember_map h hentry]
    exact ih

/-- Keys in brackets read what is stored under them, whatever the keys are. -/
theorem Scope.get_bracketed (h : Resolver.entries ∈ resolvers) {model v : Value}
    {keys : List String} (hne : keys ≠ []) (hkeys : ∀ key ∈ keys, ']' ∉ key.toList)
    (hstores : model.Stores keys v) (data : Bindings) :
    (Scope.ofModel model resolvers).get data (Path.bracketed keys) = .ok v := by
  obtain ⟨key, rest, rfl⟩ := List.exists_cons_of_ne_nil hne
  have hparse := Path.parse_bracketed hne hkeys
  have hbegins : (Path.parse (Path.bracketed (key :: rest))).BeginsWith key rest := by
    rw [hparse]
    exact ⟨rfl, rfl, rfl, rfl⟩
  rw [get_of_beginsWith hbegins]
  cases hstores with
  | @inside label entries _ _ inner _ hentry hinner =>
    have hlevel : readLevel resolvers ⟨.map label entries, []⟩ key = .ok (some inner) :=
      (readLevel_of_unbound rfl).trans (readMember_map h hentry)
    change (readLevels resolvers false key rest [⟨.map label entries, []⟩]).mapError _ = _
    rw [readLevels_of_found hlevel, readMembers_of_stores h hinner]
    rfl

end

end Stencil
