import Stencil.Node.Basic

/-!
# Names in a tree

Which names a template uses: those of its tags by kind, and those that stand as references among
their arguments. Names are listed in the order of the source, each once.
-/

namespace Stencil

namespace Node

/-- The names of the calls among arguments. -/
def callNames (args : List Param) (hash : HashParams) : List String :=
  Param.argsCallNames args ++ Param.hashCallNames hash

mutual

/-- The names of the tags of the wanted kinds in a node, in order, with repetitions. -/
def names (wanted : TagKind → Bool) : Node → List String
  | text .. | comment .. => []
  | output _ style call _ =>
    (if wanted style.tag then [call.name] else []) ++
      if wanted .call then callNames call.args call.hash else []
  | block head body inverse =>
    (if wanted .block then [head.call.name] else []) ++
      (if wanted .call then callNames head.call.args head.call.hash else []) ++
      (match body with
        | some nodes => namesAll wanted nodes
        | none => []) ++
      (match inverse with
        | some nodes => namesAll wanted nodes
        | none => [])
  | inlinePartial _ _ body _ => namesAll wanted body
  | inclusion _ _ args hash _ => if wanted .call then callNames args hash else []

/-- The same in nodes one after the other. -/
def namesAll (wanted : TagKind → Bool) : List Node → List String
  | [] => []
  | n :: rest => names wanted n ++ namesAll wanted rest

end

mutual

/-- The references among the arguments of a node's tags, in order, with repetitions. -/
def references : Node → List String
  | text .. | comment .. => []
  | output _ _ call _ => Param.allReferences call.args call.hash
  | block head body inverse =>
    Param.allReferences head.call.args head.call.hash ++
      (match body with
        | some nodes => referencesAll nodes
        | none => []) ++
      (match inverse with
        | some nodes => referencesAll nodes
        | none => [])
  | inlinePartial _ _ body _ => referencesAll body
  | inclusion _ _ args hash _ => Param.allReferences args hash

/-- The same in nodes one after the other. -/
def referencesAll : List Node → List String
  | [] => []
  | n :: rest => references n ++ referencesAll rest

end

end Node

namespace Template

/-- The names of the tags of the given kinds, in order of first appearance. -/
def names (t : Template) (kinds : List TagKind) : List String :=
  (Node.namesAll kinds.contains t.root).eraseDups

/-- The references among arguments, in order of first appearance. -/
def references (t : Template) : List String := (Node.referencesAll t.root).eraseDups

end Template

end Stencil
