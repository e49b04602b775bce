import Stencil.Text.Digit
import Stencil.Text.Search

/-!
# Words of a command line

The words behind a command name are options, the values they take, and plain words. An option may be
shortened as long as only one option begins that way, and may bring its value behind an equals sign.
What looks like an option and is none is remembered as a mistake, since an option that asks for help
is answered all the same.
-/

namespace Stencil.CommandLine

/-- The options of a command, and how many plain words it takes. -/
structure Grammar where
  /-- Options that end the program with an answer of their own. -/
  answers : List String
  /-- Options that take a value. -/
  valued : List String
  plain : Nat

/-- All options of a command. -/
def Grammar.options (g : Grammar) : List String := g.answers ++ g.valued

/-- How reading a command line ends early: with an answer that was asked for, or with a mistake. -/
inductive Stop where
  | answered
  | mistaken
deriving DecidableEq, Repr

/-- What a word is. -/
inductive Word where
  | plain (s : String)
  /-- The two dashes behind which all words are plain. -/
  | separator
  /-- An option that answers, or fails to. -/
  | answer (stop : Stop)
  /-- An option that takes a value, and what stands behind its equals sign. -/
  | option (name : String) (value : Option String)
  | unknown
  | ambiguous
deriving DecidableEq, Repr

namespace Word

/-- A negative number, which is no option. -/
def isNegative (cs : List Char) : Bool :=
  match cs with
  | '-' :: body =>
    match Text.splitAt? '.' body with
    | none => !body.isEmpty && body.all Text.isDecimal
    | some (whole, fraction) =>
      whole.all Text.isDecimal && !fraction.isEmpty && fraction.all Text.isDecimal
  | _ => false

/-- A word cut at its first equals sign. -/
def cutValue (word : String) : String × Option String :=
  match Text.splitAt? '=' word.toList with
  | some (name, value) => (String.ofList name, some (String.ofList value))
  | none => (word, none)

/-- The options that a shortened word may mean, each with the value it brings. A word with one dash
means the option of its first letter. -/
def meanings (g : Grammar) (word : String) : List (String × Option String) :=
  if "--".toList.isPrefixOf word.toList then
    let (name, value) := cutValue word
    (g.options.filter fun o => name.toList.isPrefixOf o.toList).map fun o => (o, value)
  else
    (g.options.filter (· == String.ofList (word.toList.take 2))).map fun o =>
      (o, some (String.ofList (word.toList.drop 2)))

/-- How an option that answers does so. Behind the letter of a short one, letters of further such
options may stand, but nothing else. -/
def answerOf (g : Grammar) (name : String) (value : Option String) : Stop :=
  match value with
  | none => .answered
  | some behind =>
    if !"--".toList.isPrefixOf name.toList && behind != "" &&
        behind.toList.all fun c => g.answers.contains (String.ofList ['-', c]) then .answered
    else .mistaken

/-- An option with what stands behind its equals sign or its letter. -/
def ofOption (g : Grammar) (name : String) (value : Option String) : Word :=
  if g.answers.contains name then answer (answerOf g name value) else option name value

/-- What a word is. -/
def ofText (g : Grammar) (word : String) : Word :=
  if word.toList.head? != some '-' || word == "-" then plain word
  else if g.options.contains word then ofOption g word none
  else
    let (name, value) := cutValue word
    if value.isSome && g.options.contains name then ofOption g name value
    else
      match meanings g word with
      | [(o, v)] => ofOption g o v
      | _ :: _ :: _ => ambiguous
      | [] => if isNegative word.toList || word.toList.contains ' ' then plain word else unknown

/-- What some words are. -/
def ofTexts (g : Grammar) : List String → List Word
  | [] => []
  | word :: rest =>
    if word == "--" then separator :: rest.map plain else ofText g word :: ofTexts g rest

end Word

/-- What words say: the values of options in order, the plain words taken, and whether a word was
left over. -/
structure Reading where
  values : List (String × String) := []
  plain : List String := []
  leftOver : Bool := false

/-- What words say. The separator is left over unless it stands beside a plain word that is taken;
`beside` holds right behind such a word. -/
def readWords (g : Grammar) (beside : Bool) (done : Reading) : List Word → Except Stop Reading
  | [] => pure done
  | .plain s :: rest =>
    if done.plain.length < g.plain then
      readWords g true { done with plain := done.plain ++ [s] } rest
    else readWords g false { done with leftOver := true } rest
  | .separator :: rest =>
    if beside || done.plain.length < g.plain then readWords g false done rest
    else readWords g false { done with leftOver := true } rest
  | .answer stop :: _ => throw stop
  | .option name (some v) :: rest =>
    readWords g false { done with values := done.values ++ [(name, v)] } rest
  | .option name none :: .plain v :: rest =>
    readWords g false { done with values := done.values ++ [(name, v)] } rest
  | .option _ none :: _ => throw .mistaken
  | .unknown :: rest => readWords g false { done with leftOver := true } rest
  | .ambiguous :: _ => throw .mistaken

/-- What the words behind a command name say. An ambiguous word is a mistake before anything else. -/
def readAll (g : Grammar) (words : List String) : Except Stop Reading :=
  let found := Word.ofTexts g words
  if found.contains .ambiguous then throw .mistaken else readWords g false {} found

end Stencil.CommandLine
