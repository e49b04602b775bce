import Stencil.Fault

/-!
# Failures

Everything that ends a compilation or a render: a template that is not there, source that does not
scan or does not parse, a render that fails at a tag, and the faults of host code. Each failure
names its cause; `Failure.message` is the only place where they are put into words.
-/

namespace Stencil

/-- A sequence of two steps succeeds exactly when each of them does in turn. -/
theorem bind_eq_ok_iff {ε α β : Type} {x : Except ε α} {f : α → Except ε β} {b : β} :
    (x >>= f) = .ok b ↔ ∃ a, x = .ok a ∧ f a = .ok b := by
  cases x <;> simp [bind, Except.bind]

/-- A place in a named source; lines and columns count from one. -/
structure Location where
  file : String
  line : Nat
  column : Nat
deriving DecidableEq, Repr

/-- Why source does not scan into tags. -/
inductive ScanError where
  | unclosedTag (expected : String)
  | emptyTag
  | missingName (sigil : Char)
  | badDelimiters (written : String)
deriving DecidableEq, Repr

/-- Why tags do not parse into a tree. -/
inductive ParseError where
  | unexpectedClose (name : String)
  | strayElse
  | secondElse (section_ : String)
  | unterminated (name : String)
  | wrongClose (expected found : String)
  | blockParamsOutsideSection
  | unknownDecorator (name : String)
  | unnamedInline
  | elseInInline
  | partialNameExpected
  | partialArguments
  | nameExpected (expression : String)
  | unexpectedCharacter (c : Char)
  | unexpectedItem (item : String)
  | unexpectedEnd
  | positionalAfterHash
  | callHeadExpected
  | unclosedCall
  | unclosedBlockParams
  | badBlockParam (item : String)
  | noBlockParams
  | blockParamsNotLast
deriving DecidableEq, Repr

/-- Why a render fails at a tag. -/
inductive RenderError where
  /-- A path with more parent hops than there are enclosing scopes. -/
  | beyondRoot (path : String) (hops : Nat)
  /-- A tag with arguments whose name is no helper. -/
  | helperNotFound (name : String)
  /-- A reference that reads nothing, where that is an error. -/
  | missingValue (name : String)
  /-- A fault inside a helper. -/
  | helperFailed (name : String) (cause : Fault)
deriving DecidableEq, Repr

/-- A failure. -/
inductive Failure where
  /-- No template at a location; `searched` is the name it was looked for under. -/
  | notFound (location : String) (searched : Option String)
  | scan (place : Location) (cause : ScanError)
  | parse (place : Location) (cause : ParseError)
  /-- A render error with the place of the tag, once a tag with a place has seen it. -/
  | render (cause : RenderError) (place : Option Location)
  | fault (cause : Fault)
deriving DecidableEq, Repr

/-- The words of a scan error. -/
def ScanError.message : ScanError → String
  | unclosedTag expected => s!"Unclosed tag, expected '{expected}'"
  | emptyTag => "Empty tag"
  | missingName sigil => s!"Missing name after '{sigil}'"
  | badDelimiters written => s!"Invalid delimiter switch: {Text.quoted written}"

/-- The words of a parse error. -/
def ParseError.message : ParseError → String
  | unexpectedClose name => s!"Unexpected close tag '{name}'"
  | strayElse => "'else' outside of a section"
  | secondElse name => s!"Section '{name}' has more than one else clause"
  | unterminated name => s!"Unterminated section '{name}'"
  | wrongClose expected found => s!"Expected close tag for '{expected}', found '{found}'"
  | blockParamsOutsideSection => "Block parameters are only allowed on sections"
  | unknownDecorator name => s!"Unsupported decorator '{name}'"
  | unnamedInline => "Inline partial requires a quoted name"
  | elseInInline => "'else' inside an inline partial"
  | partialNameExpected => "Partial name expected"
  | partialArguments => "A partial takes at most one context argument"
  | nameExpected expression => s!"Expected a name in '{expression}'"
  | unexpectedCharacter c => s!"Unexpected character {Text.quoted (String.singleton c)}"
  | unexpectedItem item => s!"Unexpected '{item}'"
  | unexpectedEnd => "Unexpected end of expression"
  | positionalAfterHash => "Positional parameters must precede hash arguments"
  | callHeadExpected => "Sub-expression must start with a helper name"
  | unclosedCall => "Unclosed sub-expression"
  | unclosedBlockParams => "Unclosed block parameter list"
  | badBlockParam item => s!"Invalid block parameter '{item}'"
  | noBlockParams => "Empty block parameter list"
  | blockParamsNotLast => "Block parameters must come last"

/-- The words of a render error. -/
def RenderError.message : RenderError → String
  | beyondRoot path hops =>
    s!"Path '{path}' navigates {hops} scope(s) up, beyond the root scope"
  | helperNotFound name => s!"Could not find helper: '{name}'"
  | missingValue name => s!"Missing value for '{name}'"
  | helperFailed name cause => s!"Helper '{name}' failed: {cause.message}"

namespace Failure

/-- A render error that no tag has seen yet. -/
def atRender (cause : RenderError) : Failure := .render cause none

/-- The words of a failure. A compile error leaves out the name of a nameless source; a render error
is preceded by its place once it has one. -/
def message : Failure → String
  | notFound location searched =>
    let resolved := match searched with
      | some name => if name == "" || name == location then "" else s!" (resolved to {name})"
      | none => ""
    s!"Template not found: '{location}'{resolved}"
  | scan place cause => compileMessage place cause.message
  | parse place cause => compileMessage place cause.message
  | render cause (some place) =>
    s!"{place.file}:{place.line}:{place.column}: {cause.message}"
  | render cause none => cause.message
  | fault cause => cause.message
where
  /-- The words of a compile error behind its place. -/
  compileMessage (place : Location) (text : String) : String :=
    (if place.file == "" then "" else place.file ++ ":") ++
      s!"{place.line}:{place.column}: {text}"

/-- The innermost place wins: a render error that already has one keeps it, other failures have
none. -/
def locate (place : Option Location) : Failure → Failure
  | render cause none => .render cause place
  | failure => failure

/-- Failures that are the template's own and pass through helpers as they are; a helper that meets a
fault is named with it. -/
def fromHelper (name : String) : Failure → Failure
  | fault cause => .render (.helperFailed name cause) none
  | failure => failure

end Failure

end Stencil
