import Stencil.Decimal.Read
import Stencil.Document.Basic
import Stencil.Document.Quoted
import Stencil.Proofs.Typed.Loading

/-!
# JSON

The texts of RFC 8259, what they hold, and the readers of documents that take them for it. A text is
scanned into pieces one character at a time, and the pieces are put together along the grammar. A
reader may refuse a text that is JSON, and every reader of a larger language does refuse some; what
it may not do is to read something else into it.
-/

namespace Stencil

/-- What a JSON text holds. -/
inductive Json where
  | null
  | truth (b : Bool)
  | integer (n : Int)
  /-- A number that is written with a fraction or an exponent. -/
  | decimal (x : Decimal.Scientific)
  | text (s : String)
  | array (items : List Json)
  /-- Values under names, none of which stands twice. -/
  | object (members : List (String × Json))

namespace Json

mutual

/-- The document that JSON is. -/
def document : Json → Document
  | null => .scalar .null
  | truth b => .scalar (.bool b)
  | integer n => .scalar (.int n)
  | decimal x => .scalar (.float x.toFloat)
  | text s => .text s
  | array items => .list (documents items)
  | object members => .map (entries members)

/-- The documents that some values are. -/
def documents : List Json → List Document
  | [] => []
  | json :: rest => document json :: documents rest

/-- The entries that some members are. -/
def entries : List (String × Json) → List (Document.Scalar × Document)
  | [] => []
  | (name, json) :: rest => (.text name, document json) :: entries rest

end

/-- What holds of an array or an object when it holds of the values in it, and of everything else,
holds of all JSON. -/
theorem induct {P : Json → Prop} (null : P .null) (truth : ∀ b, P (.truth b))
    (integer : ∀ n, P (.integer n)) (decimal : ∀ x, P (.decimal x)) (text : ∀ s, P (.text s))
    (array : ∀ items, (∀ json ∈ items, P json) → P (.array items))
    (object : ∀ members, (∀ member ∈ members, P member.2) → P (.object members)) : ∀ json, P json :=
  @Json.rec P (fun items => ∀ json ∈ items, P json) (fun members => ∀ member ∈ members, P member.2)
    (fun member => P member.2) null truth integer decimal text array object
    (fun _ h => absurd h List.not_mem_nil) (fun _ _ h hrest => List.forall_mem_cons.2 ⟨h, hrest⟩)
    (fun _ h => absurd h List.not_mem_nil) (fun _ _ h hrest => List.forall_mem_cons.2 ⟨h, hrest⟩)
    fun _ _ h => h

theorem isRaw_documents {items : List Json}
    (h : ∀ json ∈ items, ∀ next, (json.document.toValue next).1.IsRaw) (next : Label) :
    ∀ v ∈ (Document.toValues next (documents items)).1, v.IsRaw := by
  induction items generalizing next with
  | nil => exact fun _ hv => absurd hv List.not_mem_nil
  | cons json rest ih =>
    obtain ⟨hfirst, hrest⟩ := List.forall_mem_cons.1 h
    exact List.forall_mem_cons.2 ⟨hfirst next, ih hrest _⟩

theorem isRaw_entries {members : List (String × Json)}
    (h : ∀ member ∈ members, ∀ next, (member.2.document.toValue next).1.IsRaw) (next : Label) :
    ∀ entry ∈ (Document.toEntries next (entries members)).1,
      (∃ s, entry.1 = .text s) ∧ entry.2.IsRaw := by
  induction members generalizing next with
  | nil => exact fun _ hentry => absurd hentry List.not_mem_nil
  | cons member rest ih =>
    obtain ⟨hfirst, hrest⟩ := List.forall_mem_cons.1 h
    exact List.forall_mem_cons.2 ⟨⟨⟨_, rfl⟩, hfirst (next + 1)⟩, ih hrest _⟩

/-- JSON is raw under all labels. -/
theorem isRaw_document (json : Json) (next : Label) : (json.document.toValue next).1.IsRaw := by
  induction json using Json.induct generalizing next with
  | null => exact .null
  | truth b => exact .bool b
  | integer n => exact .int _
  | decimal x => exact .float _
  | text s => exact .text _
  | array items ih => exact .list (isRaw_documents ih (next + 1))
  | object members ih =>
    have hentries := isRaw_entries ih (next + 1)
    exact .map (fun entry h => (hentries entry h).1) fun entry h => (hentries entry h).2

/-! ### Numbers and words -/

/-- Digits, one or more. -/
def areDigits (cs : List Char) : Bool := !cs.isEmpty && cs.all Char.isDigit

/-- Digits without a zero in front of others. -/
def isWhole (cs : List Char) : Bool := areDigits cs && (cs.length == 1 || cs.head? != some '0')

/-- An exponent, or nothing. -/
def isExponent : List Char → Bool
  | [] => true
  | e :: rest => (e == 'e' || e == 'E') && areDigits (Decimal.takeSign rest).2

/-- A fraction and an exponent; each may be missing. -/
def isBroken : List Char → Bool
  | '.' :: rest =>
    areDigits (rest.takeWhile Char.isDigit) && isExponent (rest.dropWhile Char.isDigit)
  | rest => isExponent rest

/-- The number that characters write. -/
def ofNumber? (cs : List Char) : Option Json :=
  let body := if cs.head? == some '-' then cs.drop 1 else cs
  let whole := body.takeWhile Char.isDigit
  let behind := body.dropWhile Char.isDigit
  if isWhole whole && isBroken behind then
    if behind.isEmpty then
      let n : Int := Text.digitsValue whole
      some (integer (if cs.head? == some '-' then -n else n))
    else (Decimal.readScientific? cs).map decimal
  else none

/-- What characters without quotes are: a word of JSON, or a number. -/
def ofWord? (cs : List Char) : Option Json :=
  if cs == "null".toList then some null
  else if cs == "true".toList then some (truth true)
  else if cs == "false".toList then some (truth false)
  else ofNumber? cs

/-! ### Pieces -/

/-- A piece of a JSON text. -/
inductive Piece where
  | openArray
  | closeArray
  | openObject
  | closeObject
  | comma
  | colon
  | text (s : String)
  | word (cs : List Char)
deriving DecidableEq, Repr

/-- Where a scan stands. -/
inductive Standing where
  | between
  /-- In characters without quotes. -/
  | word (done : List Char)
  /-- In a text, of which code units have been read. -/
  | text (units : List Nat)
  /-- Behind a backslash in a text. -/
  | escape (units : List Nat)
  /-- In the four digits of a code unit. -/
  | unit (units digits : List Nat)

/-- Blanks of JSON. -/
def isBlank (c : Char) : Bool := c == ' ' || c == '\t' || c == '\n' || c == '\r'

/-- The piece that a character is. -/
def mark? : Char → Option Piece
  | '[' => some .openArray
  | ']' => some .closeArray
  | '\x7b' => some .openObject
  | '\x7d' => some .closeObject
  | ',' => some .comma
  | ':' => some .colon
  | _ => none

/-- The character that one behind a backslash stands for. -/
def escaped? : Char → Option Char
  | '"' => some '"'
  | '\\' => some '\\'
  | '/' => some '/'
  | 'b' => some '\x08'
  | 'f' => some '\x0c'
  | 'n' => some '\n'
  | 'r' => some '\r'
  | 't' => some '\t'
  | _ => none

/-- The characters of code units: a high half and a low half are one, and neither stands alone. -/
def characters? : List Nat → Option (List Char)
  | [] => some []
  | high :: low :: rest =>
    if 0xD800 ≤ high && high < 0xDC00 then
      if 0xDC00 ≤ low && low < 0xE000 then
        (characters? rest).map fun cs =>
          Char.ofNat (0x10000 + 0x400 * (high - 0xD800) + (low - 0xDC00)) :: cs
      else none
    else if 0xDC00 ≤ high && high < 0xE000 then none
    else (characters? (low :: rest)).map fun cs => Char.ofNat high :: cs
  | [single] => if 0xD800 ≤ single && single < 0xE000 then none else some [Char.ofNat single]

example : characters? [0x61, 0xD83D, 0xDE00] = some ['a', '😀'] ∧ characters? [0xDE00] = none := by
  decide

/-- What a character between the pieces is, or what it begins. -/
def begin (c : Char) : List Piece × Standing :=
  match mark? c with
  | some piece => ([piece], .between)
  | none =>
    if isBlank c then ([], .between) else if c == '"' then ([], .text []) else ([], .word [c])

/-- The pieces that end with a character, and where the scan stands behind it. -/
def step : Standing → Char → Option (List Piece × Standing)
  | .between, c => some (begin c)
  | .word done, c =>
    match begin c with
    | (_, .word _) => some ([], .word (done ++ [c]))
    | (pieces, next) => some (.word done :: pieces, next)
  | .text units, c =>
    if c == '"' then
      (characters? units).map fun cs => ([.text (String.ofList cs)], .between)
    else if c == '\\' then some ([], .escape units)
    else if c.toNat < 0x20 then none
    else some ([], .text (units ++ [c.toNat]))
  | .escape units, c =>
    if c == 'u' then some ([], .unit units [])
    else (escaped? c).map fun d => ([], .text (units ++ [d.toNat]))
  | .unit units digits, c =>
    (Document.hexValue? c).map fun d =>
      match digits with
      | [i, j, k] => ([], .text (units ++ [0x1000 * i + 0x100 * j + 0x10 * k + d]))
      | _ => ([], .unit units (digits ++ [d]))

/-- The pieces of the rest of a text. -/
def scan (standing : Standing) : List Char → Option (List Piece)
  | [] =>
    match standing with
    | .between => some []
    | .word done => some [.word done]
    | _ => none
  | c :: rest => do
    let (pieces, next) ← step standing c
    pure (pieces ++ (← scan next rest))

/-! ### Grammar -/

/-- A part that was put together, and the pieces left, fewer than there were. -/
abbrev Taken (α : Type) (pieces : List Piece) : Type :=
  Option (α × { rest : List Piece // rest.length < pieces.length })

mutual

/-- A value. -/
def value (pieces : List Piece) : Taken Json pieces :=
  match pieces with
  | .word cs :: rest => (ofWord? cs).map fun json => (json, ⟨rest, by simp⟩)
  | .text s :: rest => some (.text s, ⟨rest, by simp⟩)
  | .openArray :: .closeArray :: rest =>
    some (.array [], ⟨rest, by simp only [List.length_cons]; omega⟩)
  | .openArray :: rest => do
    let (items, ⟨left, hleft⟩) ← elements rest
    pure (.array items, ⟨left, by simp only [List.length_cons]; omega⟩)
  | .openObject :: .closeObject :: rest =>
    some (.object [], ⟨rest, by simp only [List.length_cons]; omega⟩)
  | .openObject :: rest => do
    let (found, ⟨left, hleft⟩) ← members rest
    pure (.object found, ⟨left, by simp only [List.length_cons]; omega⟩)
  | _ => none
termination_by 2 * pieces.length

/-- The values of an array, up to its closing bracket. -/
def elements (pieces : List Piece) : Taken (List Json) pieces := do
  let (first, ⟨left, hleft⟩) ← value pieces
  match hl : left with
  | .closeArray :: rest =>
    pure ([first], ⟨rest, by subst hl; simp only [List.length_cons] at *; omega⟩)
  | .comma :: rest => do
    let (others, ⟨last, hlast⟩) ← elements rest
    pure (first :: others, ⟨last, by subst hl; simp only [List.length_cons] at *; omega⟩)
  | _ => none
termination_by 2 * pieces.length + 1
decreasing_by all_goals ((try subst hl); (try simp only [List.length_cons] at *); omega)

/-- The members of an object, up to its closing brace. -/
def members (pieces : List Piece) : Taken (List (String × Json)) pieces :=
  match pieces with
  | .text name :: .colon :: behind => do
    let (json, ⟨left, hleft⟩) ← value behind
    match hl : left with
    | .closeObject :: rest =>
      pure ([(name, json)], ⟨rest, by subst hl; simp only [List.length_cons] at *; omega⟩)
    | .comma :: rest => do
      let (others, ⟨last, hlast⟩) ← members rest
      if (others.lookup name).isSome then none
      else
        pure ((name, json) :: others, ⟨last, by subst hl; simp only [List.length_cons] at *; omega⟩)
    | _ => none
  | _ => none
termination_by 2 * pieces.length + 1
decreasing_by all_goals ((try subst hl); (try simp only [List.length_cons] at *); omega)

end

/-- The value that pieces make up; nothing may stand behind it. -/
def ofPieces? (pieces : List Piece) : Option Json :=
  match value pieces with
  | some (json, ⟨[], _⟩) => some json
  | _ => none

/-- What a text holds that is JSON. -/
def ofText? (text : String) : Option Json := (scan .between text.toList).bind ofPieces?

/-- What the text of a file holds: an empty file holds null. -/
def held? (text : String) : Option Json := if text.isEmpty then some null else ofText? text

/-- The reader that takes JSON and nothing else. -/
def reader : Document.Reader := fun text =>
  match held? text with
  | some json => .ok json.document
  | none => .error .malformed

end Json

/-- The line ends of YAML that are no line ends of JSON: a text may have them between its quotes, and
they are folded there. -/
def foldedEnds : List Char := ['\u0085', '\u2028', '\u2029']

/-- A text without line ends that are folded. -/
def Unfolded (text : String) : Prop := ∀ c ∈ text.toList, c ∉ foldedEnds

/-- A reader of a language that JSON is part of: nothing is null, and a text that is JSON is read as
what it holds, or refused. -/
structure Document.Reader.ReadsJson (reader : Document.Reader) : Prop where
  nothing : reader "" = .ok Json.null.document
  json : ∀ {text json}, Json.ofText? text = some json → Unfolded text →
    reader text = .ok json.document ∨ ∃ refusal, reader text = .error refusal

namespace Document.Reader.ReadsJson

variable {reader : Document.Reader}

/-- What is read of the text of a file is what it holds. -/
theorem eq_document (hreader : reader.ReadsJson) {text : String} {json : Json}
    (hheld : Json.held? text = some json) (hunfolded : Unfolded text) {document : Document}
    (hread : reader text = .ok document) : document = json.document := by
  rw [Json.held?] at hheld
  split at hheld
  case isTrue hempty =>
    cases hheld
    rw [String.isEmpty_iff.1 hempty, hreader.nothing] at hread
    exact (Except.ok.inj hread).symm
  case isFalse =>
    rcases hreader.json hheld hunfolded with hok | ⟨refusal, herror⟩
    · exact Except.ok.inj (hread.symm.trans hok)
    · cases hread.symm.trans herror

end Document.Reader.ReadsJson

/-- The reader of JSON reads JSON. -/
theorem Json.reader_readsJson : Document.Reader.ReadsJson Json.reader where
  nothing := rfl
  json {text json} hjson _ := by
    have hfull : ¬text.isEmpty = true := by
      intro hempty
      obtain rfl := String.isEmpty_iff.1 hempty
      simp [ofText?, scan, ofPieces?, value] at hjson
    left
    rw [reader, held?, if_neg hfull, hjson]

end Stencil
