import Stencil.Proofs.Render.Composed

/-!
# Engines with other sources

The loader of an engine is asked by the tags that render partials, and by nothing else. What is
rendered without including a partial is the same whatever the sources are.
-/

namespace Stencil

open Render

/-- The engine with other sources. -/
def Engine.withLoader (e : Engine) (loader : Loader) : Engine := { e with loader }

section

variable (e : Engine) (l : Loader) (render : Renderer) (scope : Scope)

theorem invoke_withLoader (helper : Helper) (subject : Value) (call : Call) (clauses : Clauses) :
    invoke (e.withLoader l) render helper subject call clauses =
      invoke e render helper subject call clauses := rfl

theorem arguments_withLoader {args : List Param}
    (h : ∀ p ∈ args, argument (e.withLoader l) render scope p = argument e render scope p) :
    arguments (e.withLoader l) render scope args = arguments e render scope args := by
  induction args with
  | nil => simp only [arguments]
  | cons p rest ih =>
    obtain ⟨hp, hrest⟩ := List.forall_mem_cons.1 h
    simp only [arguments, hp, ih hrest]

theorem namedArguments_withLoader {hash : HashParams}
    (h : ∀ entry ∈ hash,
      argument (e.withLoader l) render scope entry.2 = argument e render scope entry.2) :
    namedArguments (e.withLoader l) render scope hash = namedArguments e render scope hash := by
  induction hash with
  | nil => simp only [namedArguments]
  | cons entry rest ih =>
    obtain ⟨hp, hrest⟩ := List.forall_mem_cons.1 h
    simp only [namedArguments, hp, ih hrest]

/-- Arguments, by induction on the calls in them. -/
theorem argument_withLoader (p : Param) :
    argument (e.withLoader l) render scope p = argument e render scope p := by
  induction p using Param.induct with
  | literal | reference => simp only [argument]
  | call place name args hash bound ihargs ihhash =>
    have hhash := namedArguments_withLoader e l render scope ihhash
    cases args with
    | nil =>
      simp only [argument, hhash]
      rfl
    | cons first rest =>
      obtain ⟨hfirst, hrest⟩ := List.forall_mem_cons.1 ihargs
      simp only [argument, hhash, hfirst, arguments_withLoader e l render scope hrest]
      rfl

theorem subjectOf_withLoader (args : List Param) :
    subjectOf (e.withLoader l) render scope args = subjectOf e render scope args := by
  cases args with
  | nil => rfl
  | cons first rest => exact argument_withLoader e l render scope first

theorem callOf_withLoader (name : String) (tag : TagKind) (args : List Param) (hash : HashParams)
    (blockParams : List String) :
    callOf (e.withLoader l) render name tag scope args hash blockParams =
      callOf e render name tag scope args hash blockParams := by
  unfold callOf
  rw [arguments_withLoader e l render scope fun p _ => argument_withLoader e l render scope p,
    namedArguments_withLoader e l render scope fun x _ => argument_withLoader e l render scope x.2]

theorem outputValue_withLoader (style : OutputStyle) (call : Invocation) (marks : Delimiters) :
    outputValue (e.withLoader l) render scope style call marks =
      outputValue e render scope style call marks := by
  unfold outputValue
  simp only [callOf_withLoader, subjectOf_withLoader]
  rfl

theorem treatment_withLoader (head : BlockHead) (body : List Node) (v : Value) :
    treatment (e.withLoader l) scope head body v = treatment e scope head body v := rfl

theorem implicitHelper_withLoader (head : BlockHead) (which : Builtin) (v : Value) :
    implicitHelper (e.withLoader l) head which v = implicitHelper e head which v := rfl

theorem blockValue_withLoader (head : BlockHead) (body : List Node) (inverse : Fragment) :
    blockValue (e.withLoader l) render scope head body inverse =
      blockValue e render scope head body inverse := by
  unfold blockValue
  simp only [callOf_withLoader, subjectOf_withLoader, treatment_withLoader,
    implicitHelper_withLoader, invoke_withLoader]
  rfl

theorem renderNode_withLoader {n : Node} (hn : n.isInclusion = false) :
    renderNode (e.withLoader l) render scope n = renderNode e render scope n := by
  cases n with
  | text | comment | inlinePartial => rfl
  | inclusion => cases hn
  | output place style call marks =>
    simp only [renderNode, renderOutput, outputValue_withLoader]
    rfl
  | block head body inverse =>
    cases body with
    | none => rfl
    | some body =>
      simp only [renderNode, renderBlock, blockValue_withLoader]

theorem partialScope_withLoader (args : List Param) (hash : HashParams) :
    partialScope (e.withLoader l) render scope args hash =
      partialScope e render scope args hash := by
  have hhash : namedArguments (e.withLoader l) render scope hash =
      namedArguments e render scope hash :=
    namedArguments_withLoader e l render scope fun x _ => argument_withLoader e l render scope x.2
  unfold partialScope
  cases args with
  | nil => simp only [hhash]
  | cons first rest => simp only [hhash, argument_withLoader]

end

end Stencil
