import Stencil.Loader.FileTree

/-!
# Paths and their texts

The text of a path gives its parts back. A path of some characters has parts of no more, and following
parts from a directory leads no further than the parts reach, so a shorter text never leads to where a
longer path of proper parts ends.
-/

namespace Stencil

namespace Text

/-! ### Splitting at a mark -/

variable {mark : Char}

theorem splitOn_ne_nil (cs : List Char) : splitOn mark cs ≠ [] := by
  cases cs with
  | nil => simp [splitOn]
  | cons c rest =>
    rw [splitOn]
    split
    · simp
    · split <;> simp

theorem splitOn_cons (c : Char) (rest : List Char) :
    splitOn mark (c :: rest) =
      if c == mark then [] :: splitOn mark rest else (splitOn mark rest).modifyHead (c :: ·) := by
  rw [splitOn]
  split
  · rename_i hnil
    exact absurd hnil (splitOn_ne_nil rest)
  · rename_i part parts hparts
    rw [hparts, List.modifyHead_cons]

theorem splitOn_append_mark (before after : List Char) :
    splitOn mark (before ++ mark :: after) = splitOn mark before ++ splitOn mark after := by
  induction before with
  | nil => rw [List.nil_append, splitOn_cons, if_pos (beq_self_eq_true mark)]; rfl
  | cons c rest ih =>
    rw [List.cons_append, splitOn_cons, splitOn_cons, ih]
    split
    · rfl
    · have hne : splitOn mark rest ≠ [] := splitOn_ne_nil rest
      obtain ⟨part, parts, hparts⟩ := List.exists_cons_of_ne_nil hne
      rw [hparts]
      rfl

theorem splitOn_of_not_mem {cs : List Char} (h : mark ∉ cs) : splitOn mark cs = [cs] := by
  induction cs with
  | nil => rfl
  | cons c rest ih =>
    simp only [List.mem_cons, not_or] at h
    obtain ⟨hc, hrest⟩ := h
    rw [splitOn_cons, if_neg (by simpa using Ne.symm hc), ih hrest]
    rfl

end Text

namespace FilePath

/-- A part that stands for itself: it is not left out of a path, leads one directory down and holds no
slash. -/
structure IsPart (part : String) : Prop where
  ne_empty : part ≠ ""
  ne_here : part ≠ "."
  ne_around : part ≠ ".."
  no_slash : '/' ∉ part.toList

/-- The parts of a path of two texts are the parts of both. -/
theorem parts_ofText_append (a b : String) :
    (ofText (a ++ "/" ++ b)).parts = (ofText a).parts ++ (ofText b).parts := by
  have htext : (a ++ "/" ++ b).toList = a.toList ++ '/' :: b.toList := by simp
  simp only [ofText, htext, Text.splitOn_append_mark, List.map_append, List.filter_append]

theorem parts_ofText_part {part : String} (h : IsPart part) : (ofText part).parts = [part] := by
  simp [ofText, Text.splitOn_of_not_mem h.no_slash, h.ne_empty, h.ne_here]

/-- The text of some parts gives the parts back. -/
theorem parts_ofText_intercalate {parts : List String} (h : ∀ part ∈ parts, IsPart part) :
    (ofText ("/".intercalate parts)).parts = parts := by
  induction parts with
  | nil => rfl
  | cons part rest ih =>
    obtain ⟨hpart, hrest⟩ := List.forall_mem_cons.1 h
    cases rest with
    | nil => rw [String.intercalate_singleton, parts_ofText_part hpart]
    | cons next others =>
      rw [String.intercalate_cons_cons, parts_ofText_append, parts_ofText_part hpart, ih hrest]
      rfl

/-- The text of proper parts does not begin with a slash. -/
theorem head_intercalate {parts : List String} (h : ∀ part ∈ parts, IsPart part) :
    ("/".intercalate parts).toList.head? ≠ some '/' := by
  cases parts with
  | nil => simp
  | cons part rest =>
    have hpart := (List.forall_mem_cons.1 h).1
    have htext : ∃ behind, ("/".intercalate (part :: rest)).toList = part.toList ++ behind := by
      cases rest with
      | nil => exact ⟨[], by simp⟩
      | cons next others =>
        refine ⟨("/" ++ "/".intercalate (next :: others)).toList, ?_⟩
        rw [String.intercalate_cons_cons, String.append_assoc, String.toList_append]
    obtain ⟨behind, hbehind⟩ := htext
    obtain ⟨c, cs, hcs⟩ := List.exists_cons_of_ne_nil (l := part.toList) (by simpa using hpart.ne_empty)
    rw [hbehind, hcs]
    intro hhead
    cases hhead
    exact hpart.no_slash (hcs ▸ List.mem_cons_self)

/-! ### The size of a path -/

/-- The characters of some parts, with one more for each of them. -/
def size : List String → Nat
  | [] => 0
  | part :: rest => part.length + 1 + size rest

@[simp] theorem size_nil : size [] = 0 := rfl

@[simp] theorem size_cons (part : String) (rest : List String) :
    size (part :: rest) = part.length + 1 + size rest := rfl

@[simp] theorem size_append (xs ys : List String) : size (xs ++ ys) = size xs + size ys := by
  induction xs with
  | nil => simp
  | cons part rest ih =>
    rw [List.cons_append, size_cons, size_cons, ih]
    omega

theorem size_le_of_sublist {xs ys : List String} (h : xs.Sublist ys) : size xs ≤ size ys := by
  induction h with
  | slnil => exact Nat.le_refl _
  | cons part _ ih =>
    rw [size_cons]
    omega
  | cons_cons part _ ih =>
    rw [size_cons, size_cons]
    omega

/-- Every character is in a part or is a slash between two. -/
theorem size_splitOn (cs : List Char) :
    size ((Text.splitOn '/' cs).map String.ofList) = cs.length + 1 := by
  induction cs with
  | nil => rfl
  | cons c rest ih =>
    rw [Text.splitOn_cons]
    split
    · rw [List.map_cons, size_cons, ih, List.length_cons, String.length_ofList, List.length_nil]
      omega
    · have hne : Text.splitOn '/' rest ≠ [] := Text.splitOn_ne_nil rest
      obtain ⟨part, parts, hparts⟩ := List.exists_cons_of_ne_nil hne
      rw [hparts, List.map_cons, size_cons, String.length_ofList] at ih
      rw [hparts, List.modifyHead_cons, List.map_cons, size_cons, String.length_ofList,
        List.length_cons, List.length_cons]
      omega

theorem size_ofText_le (s : String) : size (ofText s).parts ≤ s.length + 1 := by
  rw [← String.length_toList, ← size_splitOn]
  exact size_le_of_sublist List.filter_sublist

theorem length_intercalate {parts : List String} (h : parts ≠ []) :
    ("/".intercalate parts).length + 1 = size parts := by
  induction parts with
  | nil => exact absurd rfl h
  | cons part rest ih =>
    cases rest with
    | nil => simp [size]
    | cons next others =>
      have hrest := ih (List.cons_ne_nil _ _)
      have hslash : "/".length = 1 := rfl
      rw [String.intercalate_cons_cons, String.length_append, String.length_append, size_cons]
      omega

/-! ### Following parts -/

theorem walk_append (dir xs ys : List String) : walk dir (xs ++ ys) = walk (walk dir xs) ys := by
  induction xs generalizing dir with
  | nil => rfl
  | cons part rest ih => exact ih _

theorem walk_parts {parts : List String} (h : ∀ part ∈ parts, IsPart part) (dir : List String) :
    walk dir parts = dir ++ parts := by
  induction parts generalizing dir with
  | nil => simp [walk]
  | cons part rest ih =>
    obtain ⟨hpart, hrest⟩ := List.forall_mem_cons.1 h
    have hdown : (part == "..") = false := by simpa using hpart.ne_around
    rw [walk, hdown, ih hrest]
    simp

theorem size_walk_le (dir parts : List String) : size (walk dir parts) ≤ size dir + size parts := by
  induction parts generalizing dir with
  | nil => simp [walk, size]
  | cons part rest ih =>
    have hrest := ih (if part == ".." then dir.dropLast else dir ++ [part])
    have hstep : size (if part == ".." then dir.dropLast else dir ++ [part]) ≤
        size dir + (part.length + 1) := by
      have hlast := size_le_of_sublist (List.dropLast_sublist dir)
      split
      · omega
      · simp [size]
    rw [walk, size_cons]
    omega

end FilePath

namespace FileTree

/-- Where there is a way, it leads to where the parts alone lead. -/
theorem walk_eq_of_walk? {t : FileTree} {dir parts place : List String}
    (h : t.walk? dir parts = some place) : FilePath.walk dir parts = place := by
  induction parts generalizing dir with
  | nil => exact Option.some.inj h
  | cons part rest ih =>
    rw [walk?] at h
    rw [FilePath.walk]
    split at h
    · rename_i hup
      rw [if_pos hup]
      split at h
      · exact ih h
      · cases h
    · rename_i hdown
      rw [if_neg hdown]
      exact ih h

theorem walk?_parts (t : FileTree) {parts : List String} (h : ∀ part ∈ parts, FilePath.IsPart part)
    (dir : List String) : t.walk? dir parts = some (dir ++ parts) := by
  induction parts generalizing dir with
  | nil => simp [walk?]
  | cons part rest ih =>
    obtain ⟨hpart, hrest⟩ := List.forall_mem_cons.1 h
    have hdown : (part == "..") = false := by simpa using hpart.ne_around
    rw [walk?, hdown, if_neg Bool.false_ne_true, ih hrest]
    simp

end FileTree

end Stencil
