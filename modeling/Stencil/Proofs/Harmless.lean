import Stencil.Escaping

/-!
# Harmless text

Harmless text holds none of the characters that could open or close markup, and its ampersands all
start an entity. Whatever is escaped is harmless.
-/

namespace Stencil

/-- The characters that mean something in markup, ampersands aside. -/
def markupChars : List Char := ['<', '>', '"', '\'', '\x60', '=']

/-- One of the entities that escaping writes stands at the front. -/
def StartsEntity (cs : List Char) : Prop :=
  ∃ c entity, Escaping.entity? c = some entity ∧ entity.toList <+: cs

/-- Text without markup characters in which every ampersand starts an entity. -/
structure HarmlessChars (cs : List Char) : Prop where
  plain : ∀ c ∈ cs, c ∉ markupChars
  entities : ∀ before after, cs = before ++ '&' :: after → StartsEntity ('&' :: after)

/-- Harmless text. -/
def Harmless (s : String) : Prop := HarmlessChars s.toList

namespace HarmlessChars

variable {cs : List Char} {c : Char}

theorem nil : HarmlessChars [] := by
  refine ⟨(fun c hc => nomatch hc), fun before after h => ?_⟩
  cases before <;> cases h

theorem cons (hplain : c ∉ markupChars) (hentity : c = '&' → StartsEntity (c :: cs))
    (h : HarmlessChars cs) : HarmlessChars (c :: cs) := by
  refine ⟨List.forall_mem_cons.2 ⟨hplain, h.plain⟩, fun before after hsplit => ?_⟩
  cases before with
  | nil =>
    obtain ⟨rfl, rfl⟩ := List.cons.inj hsplit
    exact hentity rfl
  | cons d before =>
    obtain ⟨rfl, hrest⟩ := List.cons.inj hsplit
    exact h.entities before after hrest

/-- Characters that escaping leaves alone may stand in front. -/
theorem append_plain {front : List Char} (hplain : ∀ d ∈ front, d ∉ markupChars ∧ d ≠ '&')
    (h : HarmlessChars cs) : HarmlessChars (front ++ cs) := by
  induction front with
  | nil => exact h
  | cons d front ih =>
    obtain ⟨⟨hd, hne⟩, hfront⟩ := List.forall_mem_cons.1 hplain
    exact cons hd (fun heq => absurd heq hne) (ih hfront)

end HarmlessChars

/-- An entity is an ampersand and characters that escaping leaves alone. -/
theorem entity?_shape {c : Char} {entity : String} (h : Escaping.entity? c = some entity) :
    ∃ body, entity.toList = '&' :: body ∧ ∀ d ∈ body, d ∉ markupChars ∧ d ≠ '&' := by
  unfold Escaping.entity? at h
  split at h <;> cases h
  · exact ⟨"amp;".toList, rfl, by simp [markupChars]⟩
  · exact ⟨"lt;".toList, rfl, by simp [markupChars]⟩
  · exact ⟨"gt;".toList, rfl, by simp [markupChars]⟩
  · exact ⟨"quot;".toList, rfl, by simp [markupChars]⟩
  · exact ⟨"#x27;".toList, rfl, by simp [markupChars]⟩
  · exact ⟨"#x60;".toList, rfl, by simp [markupChars]⟩
  · exact ⟨"#x3D;".toList, rfl, by simp [markupChars]⟩

/-- Every character that means something in markup has an entity. -/
theorem entity?_of_none {c : Char} (h : Escaping.entity? c = none) : c ∉ markupChars ∧ c ≠ '&' := by
  constructor
  · intro hc
    simp only [markupChars, List.mem_cons, List.not_mem_nil, or_false] at hc
    rcases hc with rfl | rfl | rfl | rfl | rfl | rfl <;> exact absurd h (by decide)
  · rintro rfl
    exact absurd h (by decide)

theorem HarmlessChars.escapeChar_append {cs : List Char} (h : HarmlessChars cs) (c : Char) :
    HarmlessChars (Escaping.escapeChar c ++ cs) := by
  unfold Escaping.escapeChar
  split
  · rename_i entity hentity
    obtain ⟨body, hbody, hplain⟩ := entity?_shape hentity
    have hstart : StartsEntity ('&' :: (body ++ cs)) :=
      ⟨c, entity, hentity, by rw [hbody]; exact List.prefix_append ('&' :: body) cs⟩
    rw [hbody]
    exact HarmlessChars.cons (by decide) (fun _ => hstart) (h.append_plain hplain)
  · rename_i hnone
    exact h.append_plain fun d hd => by
      rw [List.mem_singleton.1 hd]
      exact entity?_of_none hnone

/-- Escaped text is harmless, whatever it was, by induction on its characters. -/
theorem harmless_escape (s : String) : Harmless (Escaping.html.escape s) := by
  unfold Harmless Escaping.escape
  dsimp only
  rw [String.toList_ofList]
  induction s.toList with
  | nil => exact HarmlessChars.nil
  | cons c cs ih =>
    rw [List.flatMap_cons]
    exact ih.escapeChar_append c

end Stencil
