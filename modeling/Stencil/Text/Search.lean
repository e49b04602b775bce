/-!
# Searching and replacing

Finding the first of several texts inside a longer one, and the small rewritings of characters
that the other modules need. The main law: a cut loses nothing.
-/

namespace Stencil.Text

/-- The text cut at the first place where one of `needles` begins: what stands before it, the
needle, and what follows it. Of several needles that begin there the first listed is taken. -/
def cut? (needles : List (List Char)) : List Char → Option (List Char × List Char × List Char)
  | [] =>
    match needles.find? (·.isPrefixOf []) with
    | some needle => some ([], needle, [])
    | none => none
  | c :: rest =>
    match needles.find? (·.isPrefixOf (c :: rest)) with
    | some needle => some ([], needle, (c :: rest).drop needle.length)
    | none => (cut? needles rest).map fun (before, needle, after) => (c :: before, needle, after)

/-- The characters before the first `mark`, and those after it. -/
def splitAt? (mark : Char) : List Char → Option (List Char × List Char)
  | [] => none
  | c :: rest =>
    if c == mark then some ([], rest)
    else (splitAt? mark rest).map fun (before, after) => (c :: before, after)

/-- The characters after the last line break, or all of them. -/
def lastLine (cs : List Char) : List Char := (cs.reverse.takeWhile (· != '\n')).reverse

/-- The parts of a text between the marks. -/
def splitOn (mark : Char) : List Char → List (List Char)
  | [] => [[]]
  | c :: rest =>
    match splitOn mark rest with
    | [] => [[c]]
    | part :: parts => if c == mark then [] :: part :: parts else (c :: part) :: parts

/-- Every backslash that stands before an `x` removed, read from left to right. -/
def dropEscapes (x : Char) : List Char → List Char
  | [] => []
  | [c] => [c]
  | c :: d :: rest =>
    if c == '\\' && d == x then x :: dropEscapes x rest else c :: dropEscapes x (d :: rest)

/-- Line ends written as one line feed: a carriage return, with or without a line feed after it,
counts as one line end. -/
def unifyLineEnds : List Char → List Char
  | [] => []
  | '\r' :: '\n' :: rest => '\n' :: unifyLineEnds rest
  | '\r' :: rest => '\n' :: unifyLineEnds rest
  | c :: rest => c :: unifyLineEnds rest

/-- The characters that end a line of a list file. -/
def endsLine (c : Char) : Bool :=
  let n := c.toNat
  (10 ≤ n && n ≤ 13) || (28 ≤ n && n ≤ 30) || n == 0x85 || n == 0x2028 || n == 0x2029

/-- The lines of a list file, without their ends. -/
def lines (s : String) : List String :=
  go [] (unifyLineEnds s.toList)
where
  /-- Lines from here on, `current` being the line so far, last character first. -/
  go (current : List Char) : List Char → List String
    | [] => if current.isEmpty then [] else [String.ofList current.reverse]
    | c :: rest =>
      if endsLine c then String.ofList current.reverse :: go [] rest else go (c :: current) rest

/-! ## Laws -/

/-- A cut loses nothing, and the needle it found is one of those asked for. -/
theorem append_of_cut? {needles : List (List Char)} {text before needle after : List Char}
    (h : cut? needles text = some (before, needle, after)) :
    text = before ++ needle ++ after ∧ needle ∈ needles := by
  have found : ∀ {t : List Char} {n : List Char}, needles.find? (·.isPrefixOf t) = some n →
      t = n ++ t.drop n.length ∧ n ∈ needles := by
    intro t n hn
    have hp : n <+: t := by simpa using List.find?_some hn
    obtain ⟨r, rfl⟩ := hp
    exact ⟨by simp, List.mem_of_find?_eq_some hn⟩
  induction text generalizing before with
  | nil =>
    unfold cut? at h
    split at h
    · rename_i n hn
      simp only [Option.some.injEq, Prod.mk.injEq] at h
      obtain ⟨rfl, rfl, rfl⟩ := h
      simpa using found hn
    · simp at h
  | cons c rest ih =>
    unfold cut? at h
    split at h
    · rename_i n hn
      simp only [Option.some.injEq, Prod.mk.injEq] at h
      obtain ⟨rfl, rfl, rfl⟩ := h
      simpa using found hn
    · simp only [Option.map_eq_some_iff, Prod.exists, Prod.mk.injEq] at h
      obtain ⟨b, n, a, hcut, rfl, rfl, rfl⟩ := h
      obtain ⟨hr, hm⟩ := ih hcut
      exact ⟨by simp [hr], hm⟩

/-- What follows a cut is never longer than the text. -/
theorem length_after_cut? {needles : List (List Char)} {text before needle after : List Char}
    (h : cut? needles text = some (before, needle, after)) :
    before.length + needle.length + after.length = text.length := by
  rw [(append_of_cut? h).1]
  simp [Nat.add_assoc]

/-- Splitting at a mark loses only the mark. -/
theorem append_of_splitAt? {mark : Char} {text before after : List Char}
    (h : splitAt? mark text = some (before, after)) : text = before ++ mark :: after := by
  induction text generalizing before with
  | nil => simp [splitAt?] at h
  | cons c rest ih =>
    unfold splitAt? at h
    split at h
    · rename_i hc
      simp only [Option.some.injEq, Prod.mk.injEq] at h
      obtain ⟨rfl, rfl⟩ := h
      simpa using hc
    · simp only [Option.map_eq_some_iff, Prod.exists, Prod.mk.injEq] at h
      obtain ⟨b, a, hs, rfl, rfl⟩ := h
      simp [ih hs]

example : lastLine "a\nbc".toList = ['b', 'c'] := by decide
example : dropEscapes '"' "a\\\"b".toList = "a\"b".toList := by decide
example : splitOn '/' "a//b".toList = [['a'], [], ['b']] := by decide

end Stencil.Text
