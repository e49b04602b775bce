import Stencil.Proofs.Scope.Deeper

/-!
# One parent step more

A reference with `../` in front of it reads in a child scope what the reference itself reads in the
scope around the child. Taking it apart gives one hop more and changes nothing else, unless the front
of the reference means something only at the front: white space is dropped there, and an `@` asks for
data.
-/

namespace Stencil

namespace Path

/-- References that a parent step can be put in front of: the first character is no white space, and
does not ask for data. -/
def Extensible (reference : String) : Prop :=
  ∀ c ∈ reference.toList.head?, c ≠ '@' ∧ Text.isBlank c = false

/-- What is left of a reference without the white space behind it. -/
def body (reference : String) : List Char := Text.trimBack Text.isBlank reference.toList

theorem extensible_parent (reference : String) : Extensible ("../" ++ reference) := by
  intro c hc
  have hdot : c = '.' := by simpa using hc.symm
  subst hdot
  decide

theorem body_parent (reference : String) :
    body ("../" ++ reference) = '.' :: '.' :: '/' :: body reference := by
  have hdot : Text.isBlank '.' = false := by decide
  have hslash : Text.isBlank '/' = false := by decide
  have hlist : ("../" ++ reference).toList = '.' :: '.' :: '/' :: reference.toList := by simp
  rw [body, hlist, Text.trimBack_cons hdot, Text.trimBack_cons hdot, Text.trimBack_cons hslash]
  rfl

/-- Such a reference is its parent steps and what follows them. -/
theorem parse_of_extensible {reference : String} (h : Extensible reference) :
    parse reference =
      { raw := reference, hops := (climbs (body reference)).1,
        isLocal := (afterClimbs (climbs (body reference)).2).1, isData := false,
        segments := (afterClimbs (climbs (body reference)).2).2.map String.ofList } := by
  have hfront : Text.trimFront Text.isBlank reference.toList = reference.toList :=
    Text.trimFront_eq_self fun c hc => (h c hc).2
  have hstrip : (Text.strip reference).toList = body reference := by
    simp [Text.strip, Text.trimBoth, hfront, body]
  -- Trimming its end does not bring an `@` to the front.
  have hdata : ∀ rest, body reference ≠ '@' :: rest := by
    intro rest hrest
    cases hlist : reference.toList with
    | nil => simp [body, hlist, Text.trimBack] at hrest
    | cons c cs =>
      have hc := h c (by simp [hlist])
      rw [body, hlist, Text.trimBack_cons hc.2] at hrest
      exact hc.1 (List.cons.inj hrest).1
  unfold parse
  rw [hstrip]
  split
  rename_i isData rest hbody
  split at hbody
  · rename_i cs hcs
    exact absurd hcs (hdata _)
  · cases hbody
    rfl

/-- One parent step in front of a reference is one hop more. -/
theorem parse_parent {reference : String} (h : Extensible reference) :
    parse ("../" ++ reference) =
      { parse reference with
        raw := "../" ++ reference, hops := (parse reference).hops + 1 } := by
  rw [parse_of_extensible h, parse_of_extensible (extensible_parent reference), body_parent]
  rfl

end Path

/-- The failure of a reference that climbs one hop more. -/
def Failure.behindParent (reference : String) : Failure → Failure
  | .render (.beyondRoot _ hops) place => .render (.beyondRoot reference (hops + 1)) place
  | failure => failure

namespace Scope

/-- Reading a path at the level that it has climbed to does not depend on how far it has climbed. -/
theorem readPath_hops (s : Scope) (data : Bindings) (path : Path) (raw : String) (hops : Nat) :
    s.readPath data { path with raw, hops } = s.readPath data path := rfl

/-- Parent steps compose. A reference behind `../` reads in a child what it reads in the scope around
the child, whatever the model and the bindings of the child are, or fails as it fails there; if it
climbs beyond the root there, it does so from the child with one hop more. -/
theorem get_child_of_parent {reference : String} (h : Path.Extensible reference) (s : Scope)
    (model : Value) (bindings data : Bindings) :
    (s.child model bindings).get data ("../" ++ reference) =
      (s.get data reference).mapError (Failure.behindParent ("../" ++ reference)) := by
  have hparse := Path.parse_parent h
  have hhops : (Path.parse ("../" ++ reference)).hops = (Path.parse reference).hops + 1 := by
    rw [hparse]
  rw [get_child_of_climbs hhops, hparse]
  cases hclimb : s.climb? (Path.parse reference).hops with
  | none =>
    rw [get_of_beyond hclimb]
    rfl
  | some outer =>
    dsimp only
    rw [get_of_climb? hclimb, readPath_hops]
    cases outer.readPath data (Path.parse reference) with
    | ok v => rfl
    | error cause => rfl

/-- The scope of a shelf with a book on it. -/
def shelf : Scope :=
  .ofModel (.map 0 [(.text "title", .text "T"), (.text "books", .list 1 [.text "b"])]) Resolver.standard

theorem get_child_of_parent_books :
    Path.Extensible "books.[0]" ∧ Path.Extensible ".." ∧
      (shelf.child (.text "inner") [("books", .null)]).get [] "../books.[0]" = .ok (.text "b") ∧
      (shelf.child (.text "inner") []).get [] "../.." =
        .error (.atRender (.beyondRoot "../.." 2)) := by
  have hfirst : Path.Extensible "books.[0]" := by
    intro c hc
    have hb : c = 'b' := by simpa using hc.symm
    subst hb
    decide
  have hup : Path.Extensible ".." := by
    intro c hc
    have hdot : c = '.' := by simpa using hc.symm
    subst hdot
    decide
  refine ⟨hfirst, hup, ?_, ?_⟩
  · rw [show "../books.[0]" = "../" ++ "books.[0]" from rfl, get_child_of_parent hfirst]
    rfl
  · rw [show "../.." = "../" ++ ".." from rfl, get_child_of_parent hup]
    rfl

end Scope

end Stencil
