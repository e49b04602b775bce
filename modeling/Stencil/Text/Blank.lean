/-!
# White space

The white-space class that template text, tag expressions and configuration all share, and the
three operations on it: stripping either end of a text and splitting a text into words. Everything
works on lists of characters; the `String` forms at the end are what the other modules call.
-/

namespace Stencil.Text

/-- White space is the ASCII blanks with U+001C to U+001F, U+0085, U+00A0 and the Unicode space,
line and paragraph separators; the zero-width characters are not among them. -/
def isBlank (c : Char) : Bool :=
  let n := c.toNat
  (9 ≤ n && n ≤ 13) || (28 ≤ n && n ≤ 32) || n == 0x85 || n == 0xA0 || n == 0x1680 ||
    (0x2000 ≤ n && n ≤ 0x200A) || n == 0x2028 || n == 0x2029 || n == 0x202F || n == 0x205F ||
    n == 0x3000

/-- The characters left after the leading ones that satisfy `p`. -/
def trimFront (p : Char → Bool) (cs : List Char) : List Char := cs.dropWhile p

/-- The characters left before the trailing ones that satisfy `p`. -/
def trimBack (p : Char → Bool) (cs : List Char) : List Char := (cs.reverse.dropWhile p).reverse

/-- Both ends trimmed. -/
def trimBoth (p : Char → Bool) (cs : List Char) : List Char := trimBack p (trimFront p cs)

/-- The maximal runs of characters outside the white space, in order; `current` is the run being
read, last character first. -/
def wordsFrom (current : List Char) : List Char → List (List Char)
  | [] => if current.isEmpty then [] else [current.reverse]
  | c :: rest =>
    if isBlank c then
      if current.isEmpty then wordsFrom [] rest else current.reverse :: wordsFrom [] rest
    else wordsFrom (c :: current) rest

/-! ## On strings -/

/-- A text without the white space at its ends. -/
def strip (s : String) : String := String.ofList (trimBoth isBlank s.toList)

/-- A text without the white space before it. -/
def stripFront (s : String) : String := String.ofList (trimFront isBlank s.toList)

/-- A text without the white space after it. -/
def stripBack (s : String) : String := String.ofList (trimBack isBlank s.toList)

/-- A text without the characters `c` at its front. -/
def dropFront (c : Char) (s : String) : String := String.ofList (trimFront (· == c) s.toList)

/-- A text without the characters `c` at either end. -/
def dropEnds (c : Char) (s : String) : String := String.ofList (trimBoth (· == c) s.toList)

/-- The words of a text, in order. -/
def words (s : String) : List String := (wordsFrom [] s.toList).map String.ofList

/-! ## Laws -/

/-- Every white-space character of the core library is white space here. -/
theorem isBlank_of_isWhitespace {c : Char} (h : c.isWhitespace = true) : isBlank c = true := by
  simp only [Char.isWhitespace, Bool.or_eq_true, decide_eq_true_eq] at h
  rcases h with ((rfl | rfl) | rfl) | rfl <;> rfl

theorem length_trimFront_le (p : Char → Bool) (cs : List Char) :
    (trimFront p cs).length ≤ cs.length :=
  (List.dropWhile_sublist p).length_le

theorem length_trimBack_le (p : Char → Bool) (cs : List Char) :
    (trimBack p cs).length ≤ cs.length := by
  have h := (List.dropWhile_sublist p (l := cs.reverse)).length_le
  simpa [trimBack] using h

section

variable {p : Char → Bool} {cs : List Char}

theorem trimFront_eq_self (h : ∀ c ∈ cs.head?, p c = false) : trimFront p cs = cs := by
  cases cs with
  | nil => rfl
  | cons c cs => exact List.dropWhile_cons_of_neg (by simp [h c rfl])

theorem trimBack_eq_self (h : ∀ c ∈ cs.getLast?, p c = false) : trimBack p cs = cs := by
  have hreverse : trimFront p cs.reverse = cs.reverse :=
    trimFront_eq_self (by rwa [List.head?_reverse])
  rw [trimFront] at hreverse
  rw [trimBack, hreverse, List.reverse_reverse]

theorem trimBoth_eq_self (hfirst : ∀ c ∈ cs.head?, p c = false)
    (hlast : ∀ c ∈ cs.getLast?, p c = false) : trimBoth p cs = cs := by
  rw [trimBoth, trimFront_eq_self hfirst, trimBack_eq_self hlast]

/-- A first character that stays keeps its place when the end of a text is trimmed. -/
theorem trimBack_cons {c : Char} (hc : p c = false) (cs : List Char) :
    trimBack p (c :: cs) = c :: trimBack p cs := by
  simp only [trimBack, List.reverse_cons, List.dropWhile_append]
  by_cases hempty : (cs.reverse.dropWhile p).isEmpty = true
  · have hnil : cs.reverse.dropWhile p = [] := by simpa using hempty
    simp [hnil, hc]
  · simp [hempty]

theorem trimBoth_cons {c : Char} (hc : p c = false) (cs : List Char) :
    trimBoth p (c :: cs) = c :: trimBack p cs := by
  rw [trimBoth, trimFront_eq_self fun d hd => Option.mem_some.1 hd ▸ hc, trimBack_cons hc]

end

example : strip "\u00a0 a b\t" = "a b" := by decide
example : words " a\tbc  d " = ["a", "bc", "d"] := by decide

end Stencil.Text
