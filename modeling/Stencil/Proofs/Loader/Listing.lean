import Stencil.Loader.Glob
import Stencil.Proofs.Loader.Paths

/-!
# Listed files and their locations

Listing a directory without patterns, whatever patterns mean to the host, gives one location for each
file with the right ending, its path from there without the ending, and no two files have one
location. A location leads back to its file exactly when completing it undoes the cut: there is no
white space around it, and it does not end with the ending once more.
-/

namespace Stencil

/-! ### Files below a directory -/

namespace FileTree

/-- The files of a tree have different paths, made of proper parts. -/
structure Sound (t : FileTree) : Prop where
  distinct : (t.files.map (·.1)).Nodup
  parts : ∀ file ∈ t.files, ∀ part ∈ file.1, FilePath.IsPart part

variable {t : FileTree} {root : List String}

/-- What is below a directory is its path with more parts behind it. -/
theorem below_eq_some {file : List String} {stored : StoredFile} {found : List String × StoredFile} :
    (if root.isPrefixOf file && root.length < file.length then
        some (file.drop root.length, stored)
      else none) = some found ↔ file = root ++ found.1 ∧ found.1 ≠ [] ∧ stored = found.2 := by
  constructor
  · intro h
    split at h
    · rename_i hbelow
      cases h
      simp only [Bool.and_eq_true, decide_eq_true_eq] at hbelow
      obtain ⟨rest, rfl⟩ := List.isPrefixOf_iff_prefix.1 hbelow.1
      rw [List.drop_left]
      refine ⟨rfl, ?_, rfl⟩
      rintro rfl
      simp at hbelow
    · cases h
  · obtain ⟨rel, stored'⟩ := found
    rintro ⟨rfl, hne, rfl⟩
    have hlength : 0 < rel.length := List.length_pos_iff.2 hne
    rw [if_pos (by simpa using hlength), List.drop_left]

theorem mem_filesBelow {rel : List String} {stored : StoredFile} :
    (rel, stored) ∈ t.filesBelow root ↔ (root ++ rel, stored) ∈ t.files ∧ rel ≠ [] := by
  simp only [filesBelow, List.mem_filterMap]
  constructor
  · rintro ⟨⟨file, found⟩, hmem, hfound⟩
    have hbelow := below_eq_some.1 hfound
    dsimp only at hbelow
    obtain ⟨rfl, hne, rfl⟩ := hbelow
    exact ⟨hmem, hne⟩
  · rintro ⟨hmem, hne⟩
    exact ⟨_, hmem, below_eq_some.2 ⟨rfl, hne, rfl⟩⟩

/-- The paths below a directory are as different as the paths themselves. -/
theorem Sound.nodup_filesBelow (ht : t.Sound) : ((t.filesBelow root).map (·.1)).Nodup := by
  have hfiles := List.pairwise_map.1 ht.distinct
  rw [List.Nodup, List.pairwise_map, filesBelow, List.pairwise_filterMap]
  refine hfiles.imp ?_
  rintro ⟨file, stored⟩ ⟨file', stored'⟩ hne found hfound found' hfound' heq
  obtain ⟨rfl, -, -⟩ := below_eq_some.1 hfound
  obtain ⟨rfl, -, -⟩ := below_eq_some.1 hfound'
  exact hne (congrArg (root ++ ·) heq)

/-- What is at a path is what is found there. -/
theorem Sound.file?_eq (ht : t.Sound) {path : List String} {stored : StoredFile}
    (h : (path, stored) ∈ t.files) : t.file? path = some stored := by
  obtain ⟨before, after, hsplit⟩ := List.append_of_mem h
  refine List.lookup_eq_some_iff.2 ⟨before, after, hsplit, fun file hfile => ?_⟩
  have hdistinct := ht.distinct
  rw [hsplit, List.map_append, List.map_cons] at hdistinct
  have hne := (List.nodup_append.1 hdistinct).2.2 file.1 (List.mem_map_of_mem hfile) path
    List.mem_cons_self
  simpa using Ne.symm hne

end FileTree

/-! ### Locations -/

namespace Text

theorem head_trimFront {p : Char → Bool} (cs : List Char) :
    ∀ c ∈ (trimFront p cs).head?, p c = false := by
  intro c hc
  have hfirst := List.head?_dropWhile_not p cs
  rw [trimFront] at hc
  rw [Option.mem_def.1 hc] at hfirst
  simpa using hfirst

theorem head_trimBoth {p : Char → Bool} (cs : List Char) :
    ∀ c ∈ (trimBoth p cs).head?, p c = false := by
  intro c hc
  have hfirst := head_trimFront (p := p) cs
  rw [trimBoth] at hc
  cases hfront : trimFront p cs with
  | nil =>
    rw [hfront] at hc
    cases hc
  | cons d rest =>
    rw [hfront] at hc hfirst
    have hd := hfirst d rfl
    rw [trimBack_cons hd] at hc
    cases hc
    exact hd

theorem strip_sublist (s : String) : (strip s).toList.Sublist s.toList := by
  have hback : (trimBoth isBlank s.toList).Sublist (trimFront isBlank s.toList) := by
    have h := (List.dropWhile_sublist (l := (trimFront isBlank s.toList).reverse) isBlank).reverse
    rwa [List.reverse_reverse] at h
  rw [strip, String.toList_ofList]
  exact hback.trans (List.dropWhile_sublist isBlank)

theorem dropFront_sublist (c : Char) (s : String) : (dropFront c s).toList.Sublist s.toList := by
  rw [dropFront, String.toList_ofList]
  exact List.dropWhile_sublist _

end Text

namespace Naming

theorem endsWith_iff {s ending : String} :
    endsWith s ending = true ↔ ending.toList <:+ s.toList :=
  List.isSuffixOf_iff_suffix

/-- A location completed, without the folder. -/
def named (n : Naming) (location : String) : String :=
  let name := Text.dropFront '/' (Text.strip location)
  if n.ending != "" && !endsWith name n.ending then name ++ n.ending else name

/-- A completed location without the folder begins with no slash, if the ending holds none. -/
theorem head_named {n : Naming} (hslash : '/' ∉ n.ending.toList) (location : String) :
    (n.named location).toList.head? ≠ some '/' := by
  have hname : (Text.dropFront '/' (Text.strip location)).toList.head? ≠ some '/' := by
    intro hhead
    rw [Text.dropFront, String.toList_ofList] at hhead
    simpa using Text.head_trimFront _ '/' hhead
  unfold named
  dsimp only
  split
  · rw [String.toList_append, List.head?_append]
    intro hhead
    rcases Option.or_eq_some_iff.1 hhead with hhead | ⟨-, hhead⟩
    · exact hname hhead
    · exact hslash (List.mem_of_head? hhead)
  · exact hname

/-- Completing a location is as long as adding the ending only if nothing is stripped from it and the
ending is added. -/
theorem strip_eq_of_length_named {n : Naming} (hending : n.ending ≠ "") {location : String}
    (h : location.length + n.ending.length ≤ (n.named location).length) :
    Text.strip location = location ∧ endsWith location n.ending = false := by
  have hdrop := Text.dropFront_sublist '/' (Text.strip location)
  have hstrip := Text.strip_sublist location
  have hle := hdrop.length_le
  have hle' := hstrip.length_le
  rw [String.length_toList, String.length_toList] at hle hle'
  have hpos : 0 < n.ending.length := by
    rw [← String.length_toList]
    exact List.length_pos_iff.2 (by simpa using hending)
  unfold named at h
  dsimp only at h
  split at h
  · rename_i hadded
    rw [String.length_append] at h
    have hstripped : Text.strip location = location := String.toList_injective
      (hstrip.eq_of_length (by rw [String.length_toList, String.length_toList]; omega))
    have hdropped : Text.dropFront '/' (Text.strip location) = Text.strip location :=
      String.toList_injective
        (hdrop.eq_of_length (by rw [String.length_toList, String.length_toList]; omega))
    rw [hdropped, hstripped] at hadded
    exact ⟨hstripped, by simpa [hending] using hadded⟩
  · omega

theorem complete_eq (n : Naming) (location : String) :
    n.complete location =
      if n.folder != "" then n.folder ++ "/" ++ n.named location else n.named location := rfl

end Naming

/-- Without patterns nothing is selected; an empty line is no pattern. -/
def Selection.SkipsBlanks (selection : Selection) : Prop :=
  ∀ lines, (∀ line ∈ lines, line = "") →
    ∃ selected, selection lines = .ok selected ∧ ∀ path, selected path = false

theorem Glob.selection_skipsBlanks : Selection.SkipsBlanks Glob.selection := by
  intro lines hlines
  have hnone : lines.filter (· != "") = [] :=
    List.filter_eq_nil_iff.2 fun line hline => by simp [hlines line hline]
  refine ⟨Glob.selected [], ?_, fun path => rfl⟩
  unfold Glob.selection Glob.ofLines
  rw [hnone]
  rfl

namespace FileLoader

/-- The location that a file below the listed directory is listed with. -/
def locationOf (l : FileLoader) (rel : List String) : String :=
  let path := "/".intercalate rel
  String.ofList (path.toList.take (path.length - l.naming.ending.length))

/-- The paths of the files with the right ending below a directory. -/
def listed (l : FileLoader) (t : FileTree) (root : List String) : List (List String) :=
  ((t.filesBelow root).map (·.1)).filter fun rel =>
    Naming.endsWith (rel.getLast?.getD "") l.naming.ending

variable {l : FileLoader} {selection : Selection} {t : FileTree} {root : List String}

/-- Without patterns every file with the right ending is listed, each with its location. -/
theorem list_eq (hselection : selection.SkipsBlanks) (hroot : l.root? t = some root)
    {exclude : List String} (hpatterns : ∀ pattern ∈ l.exclude ++ l.ignored t ++ exclude, pattern = "") :
    l.list selection t exclude =
      .ok (((l.listed t root).map l.locationOf).mergeSort fun a b => !(b < a)) := by
  obtain ⟨selected, hselected, hnothing⟩ := hselection _ hpatterns
  have hfound (files : List (List String × StoredFile)) :
      (files.filterMap fun file =>
        let path := "/".intercalate file.1
        if !Naming.endsWith (file.1.getLast?.getD "") l.naming.ending || selected path then none
        else some (String.ofList (path.toList.take (path.length - l.naming.ending.length)))) =
      ((files.map (·.1)).filter fun rel =>
        Naming.endsWith (rel.getLast?.getD "") l.naming.ending).map l.locationOf := by
    induction files with
    | nil => rfl
    | cons file rest ih =>
      rw [List.filterMap_cons, ih, List.map_cons, List.filter_cons]
      cases Naming.endsWith (file.1.getLast?.getD "") l.naming.ending with
      | true | false =>
        simp only [hnothing]
        rfl
  rw [list, hroot]
  dsimp only
  rw [hselected]
  exact congrArg (fun names => Except.ok (names.mergeSort fun a b => !(b < a))) (hfound _)

/-! ### What a location leads to -/

/-- The text of a path ends as its last part does. -/
theorem suffix_intercalate {parts : List String} (h : parts ≠ []) :
    (parts.getLast?.getD "").toList <:+ ("/".intercalate parts).toList := by
  induction parts with
  | nil => exact absurd rfl h
  | cons part rest ih =>
    cases rest with
    | nil => simp
    | cons next others =>
      rw [List.getLast?_cons_cons, String.intercalate_cons_cons, String.toList_append]
      exact (ih (List.cons_ne_nil _ _)).trans (List.suffix_append _ _)

/-- A listed file, as a path from the root of the listing. -/
theorem mem_listed {rel : List String} (h : rel ∈ l.listed t root) :
    rel ≠ [] ∧ (∃ stored, (root ++ rel, stored) ∈ t.files) ∧
      Naming.endsWith (rel.getLast?.getD "") l.naming.ending = true := by
  obtain ⟨hmem, hends⟩ := List.mem_filter.1 h
  obtain ⟨⟨rel', stored⟩, hbelow, rfl⟩ := List.mem_map.1 hmem
  obtain ⟨hfile, hne⟩ := FileTree.mem_filesBelow.1 hbelow
  exact ⟨hne, ⟨stored, hfile⟩, hends⟩

/-- The ending is what is cut from the path of a listed file. -/
theorem locationOf_append {rel : List String} (h : rel ∈ l.listed t root) :
    l.locationOf rel ++ l.naming.ending = "/".intercalate rel := by
  obtain ⟨hne, -, hends⟩ := mem_listed h
  obtain ⟨front, hfront⟩ := (Naming.endsWith_iff.1 hends).trans (suffix_intercalate hne)
  have hlength : ("/".intercalate rel).length - l.naming.ending.length = front.length := by
    rw [← String.length_toList, ← hfront, List.length_append, String.length_toList,
      Nat.add_sub_cancel]
  apply String.toList_injective
  rw [String.toList_append, locationOf, String.toList_ofList, hlength, ← hfront, List.take_left]

theorem parts_of_listed (ht : t.Sound) {rel : List String} (h : rel ∈ l.listed t root) :
    ∀ part ∈ rel, FilePath.IsPart part := by
  obtain ⟨-, ⟨stored, hfile⟩, -⟩ := mem_listed h
  exact fun part hpart => ht.parts _ hfile part (List.mem_append_right _ hpart)

/-- No two listed files have one location. -/
theorem nodup_locations (ht : t.Sound) : ((l.listed t root).map l.locationOf).Nodup := by
  rw [List.Nodup, List.pairwise_map]
  have hpaths : (l.listed t root).Nodup := ht.nodup_filesBelow.filter _
  refine hpaths.imp_of_mem fun {rel rel'} hrel hrel' hne heq => hne ?_
  have htexts : "/".intercalate rel = "/".intercalate rel' := by
    rw [← locationOf_append hrel, ← locationOf_append hrel', heq]
  rw [← FilePath.parts_ofText_intercalate (parts_of_listed ht hrel), htexts,
    FilePath.parts_ofText_intercalate (parts_of_listed ht hrel')]

/-- The ending of a listed file holds no slash. -/
theorem no_slash_of_listed (ht : t.Sound) {rel : List String} (h : rel ∈ l.listed t root) :
    '/' ∉ l.naming.ending.toList := by
  obtain ⟨hne, -, hends⟩ := mem_listed h
  have hpart := parts_of_listed ht h _ (List.getLast_mem hne)
  rw [List.getLast?_eq_some_getLast hne, Option.getD_some] at hends
  exact fun hmem => hpart.no_slash ((Naming.endsWith_iff.1 hends).subset hmem)

section

variable {folder ending : String} (hnaming : l.naming = .ofTexts folder ending)

include hnaming

/-- A location whose ending holds no slash is completed to a path from the base on, and leads to where
its own parts lead from the root of the listing. -/
theorem pathOf_eq (hroot : l.root? t = some root) (hslash : '/' ∉ l.naming.ending.toList)
    (location : String) :
    l.pathOf t location =
      FilePath.walk root (FilePath.ofText (l.naming.named location)).parts := by
  have hwalk : FilePath.walk l.base (FilePath.ofText l.naming.folder).parts = root := by
    obtain ⟨hwalk, -⟩ := Option.filter_eq_some_iff.1 hroot
    exact FileTree.walk_eq_of_walk? hwalk
  have hparts : (FilePath.ofText (l.naming.complete location)).parts =
      (FilePath.ofText l.naming.folder).parts ++
        (FilePath.ofText (l.naming.named location)).parts := by
    rw [Naming.complete_eq]
    split
    · exact FilePath.parts_ofText_append _ _
    · rename_i hempty
      have hempty : l.naming.folder = "" := by simpa using hempty
      rw [hempty]
      rfl
  have hrelative : (FilePath.ofText (l.naming.complete location)).isAbsolute = false := by
    have hhead : (l.naming.complete location).toList.head? ≠ some '/' := by
      rw [Naming.complete_eq]
      split
      · rename_i hfolder
        have hne : l.naming.folder.toList ≠ [] := by simpa using hfolder
        obtain ⟨c, rest, hcons⟩ := List.exists_cons_of_ne_nil hne
        have hc : c ≠ '/' := by
          have hfront := Text.head_trimBoth (p := (· == '/')) folder.toList c
          have htrimmed : (Text.trimBoth (· == '/') folder.toList).head? = some c := by
            rw [hnaming] at hcons
            simpa [Naming.ofTexts, Text.dropEnds] using congrArg List.head? hcons
          simpa using hfront htrimmed
        simp [hcons, hc]
      · exact Naming.head_named hslash location
    simpa [FilePath.ofText] using hhead
  unfold pathOf
  dsimp only
  rw [hrelative, if_neg Bool.false_ne_true, hparts, FilePath.walk_append, hwalk]

/-- A location that leads to the file is at least as long as its path without the ending. -/
theorem strip_eq_of_pathOf (ht : t.Sound) (hending : l.naming.ending ≠ "")
    (hroot : l.root? t = some root) {rel : List String} (hrel : rel ∈ l.listed t root)
    (hpath : l.pathOf t (l.locationOf rel) = root ++ rel) :
    Text.strip (l.locationOf rel) = l.locationOf rel ∧
      Naming.endsWith (l.locationOf rel) l.naming.ending = false := by
  obtain ⟨hne, -⟩ := mem_listed hrel
  have hsize := congrArg FilePath.size hpath
  rw [pathOf_eq hnaming hroot (no_slash_of_listed ht hrel), FilePath.size_append] at hsize
  have hwalk := FilePath.size_walk_le root
    (FilePath.ofText (l.naming.named (l.locationOf rel))).parts
  have hparts := FilePath.size_ofText_le (l.naming.named (l.locationOf rel))
  have htext := FilePath.length_intercalate hne
  rw [← locationOf_append hrel, String.length_append] at htext
  exact Naming.strip_eq_of_length_named hending (by omega)

/-- Where completing a location undoes the cut, the location leads to its file. -/
theorem pathOf_locationOf (ht : t.Sound) (hending : l.naming.ending ≠ "")
    (hroot : l.root? t = some root) {rel : List String} (hrel : rel ∈ l.listed t root)
    (hstrip : Text.strip (l.locationOf rel) = l.locationOf rel)
    (hends : Naming.endsWith (l.locationOf rel) l.naming.ending = false) :
    l.pathOf t (l.locationOf rel) = root ++ rel := by
  have hparts := parts_of_listed ht hrel
  have hdrop : Text.dropFront '/' (l.locationOf rel) = l.locationOf rel := by
    apply String.toList_injective
    rw [Text.dropFront, String.toList_ofList]
    refine Text.trimFront_eq_self fun c hc => ?_
    have hhead := FilePath.head_intercalate hparts
    rw [← locationOf_append hrel, String.toList_append, List.head?_append, Option.mem_def.1 hc] at hhead
    simpa using hhead
  have hnamed : l.naming.named (l.locationOf rel) = "/".intercalate rel := by
    unfold Naming.named
    dsimp only
    rw [hstrip, hdrop, if_pos (by simp [hending, hends]), locationOf_append hrel]
  rw [pathOf_eq hnaming hroot (no_slash_of_listed ht hrel), hnamed,
    FilePath.parts_ofText_intercalate hparts, FilePath.walk_parts hparts]

end

/-- The location is accepted, and what is found there is the file at the path, with its content. -/
def Finds (l : FileLoader) (t : FileTree) (location : String) (path : List String) : Prop :=
  ∃ stored, t.file? path = some stored ∧
    l.locate t location = .ok ⟨⟨true, path⟩, l.naming.complete location⟩ ∧
    l.source t location =
      .ok (.file (l.naming.complete location) (FilePath.text ⟨true, path⟩) (some stored))

/-- A location is accepted if its path leads to a file below the base. -/
theorem finds_of_pathOf (ht : t.Sound) {location : String} {path : List String} {stored : StoredFile}
    (hpath : l.pathOf t location = path) (hbase : l.base <+: path) (hlength : l.base.length < path.length)
    (hfile : (path, stored) ∈ t.files) : l.Finds t location path := by
  have hstored := ht.file?_eq hfile
  have hlocate : l.locate t location = .ok ⟨⟨true, path⟩, l.naming.complete location⟩ := by
    unfold locate
    dsimp only
    rw [hpath, if_pos]
    · rfl
    · simp [FileTree.isFile, hstored, hlength, List.isPrefixOf_iff_prefix.2 hbase]
  have hfind : t.find? ⟨true, path⟩ = some stored := by
    have hwalk := FileTree.walk?_parts t (ht.parts _ hfile) []
    simp only [FileTree.find?, FileTree.reach?, if_true, hwalk]
    exact hstored
  refine ⟨stored, hstored, hlocate, ?_⟩
  rw [source, hlocate]
  show Except.ok (FileSource.source _ t) = _
  unfold FileSource.source
  rw [hfind]

theorem pathOf_of_finds {location : String} {path : List String} (h : l.Finds t location path) :
    l.pathOf t location = path := by
  obtain ⟨stored, -, hlocate, -⟩ := h
  unfold locate at hlocate
  dsimp only at hlocate
  split at hlocate
  · cases hlocate
    rfl
  · cases hlocate

/-- Without patterns, and whatever patterns mean as long as none select nothing, listing a directory
at the base or below it gives one location for each file below it with the right ending, and no
location twice. A listed location is accepted and leads to its own file exactly if it has no white
space around it and does not end with the ending. -/
theorem listed_location_found_iff (hselection : selection.SkipsBlanks) (ht : t.Sound)
    {folder ending : String} (hnaming : l.naming = .ofTexts folder ending) (hending : ending ≠ "")
    (hroot : l.root? t = some root) (hbase : l.base <+: root) {exclude : List String}
    (hpatterns : ∀ pattern ∈ l.exclude ++ l.ignored t ++ exclude, pattern = "") :
    ∃ names, l.list selection t exclude = .ok names ∧ names.Nodup ∧
      names.Perm ((l.listed t root).map l.locationOf) ∧
      ∀ rel ∈ l.listed t root, l.Finds t (l.locationOf rel) (root ++ rel) ↔
        Text.strip (l.locationOf rel) = l.locationOf rel ∧
          Naming.endsWith (l.locationOf rel) ending = false := by
  have hown : l.naming.ending = ending := by rw [hnaming]; rfl
  have hne : l.naming.ending ≠ "" := by rwa [hown]
  have hperm := List.mergeSort_perm ((l.listed t root).map l.locationOf) fun a b => !(b < a)
  refine ⟨_, list_eq hselection hroot hpatterns, hperm.nodup_iff.2 (nodup_locations ht), hperm, ?_⟩
  intro rel hrel
  rw [← hown]
  constructor
  · intro hfinds
    exact strip_eq_of_pathOf hnaming ht hne hroot hrel (pathOf_of_finds hfinds)
  · rintro ⟨hstrip, hends⟩
    obtain ⟨hrelne, ⟨stored, hfile⟩, -⟩ := mem_listed hrel
    have hpath := pathOf_locationOf hnaming ht hne hroot hrel hstrip hends
    have hlength : l.base.length < (root ++ rel).length := by
      have hpos := List.length_pos_iff.2 hrelne
      have hle := hbase.length_le
      rw [List.length_append]
      omega
    exact finds_of_pathOf ht hpath (hbase.trans (List.prefix_append _ _)) hlength hfile

/-- A site with two pages and a note. -/
def site : FileTree :=
  { here := []
    files := [(["srv", "pages", "home.hbs"], ⟨"Home", 0⟩),
      (["srv", "pages", "blog", "post.hbs"], ⟨"Post", 0⟩),
      (["srv", "pages", "note.txt"], ⟨"Note", 0⟩)] }

/-- The loader of its pages. -/
def sitePages : FileLoader := ⟨.ofTexts "/pages/" ".hbs", ["srv"], []⟩

theorem site_sound : site.Sound := by
  have hparts : ∀ file ∈ site.files, ∀ part ∈ file.1,
      part ≠ "" ∧ part ≠ "." ∧ part ≠ ".." ∧ '/' ∉ part.toList := by decide
  refine ⟨by decide, fun file hfile part hpart => ?_⟩
  obtain ⟨hempty, hhere, haround, hslash⟩ := hparts file hfile part hpart
  exact ⟨hempty, hhere, haround, hslash⟩

theorem listed_location_found_iff_site :
    sitePages.root? site = some ["srv", "pages"] ∧
      sitePages.Finds site "blog/post" ["srv", "pages", "blog", "post.hbs"] := by
  have hroot : sitePages.root? site = some ["srv", "pages"] := by decide
  have hpatterns : ∀ pattern ∈ sitePages.exclude ++ sitePages.ignored site ++ [], pattern = "" := by
    decide
  have hnaming : sitePages.naming = .ofTexts "/pages/" ".hbs" := rfl
  obtain ⟨names, -, -, -, hfinds⟩ := listed_location_found_iff Glob.selection_skipsBlanks
    site_sound hnaming (by decide) hroot (by decide) hpatterns
  have hlisted : ["blog", "post.hbs"] ∈ sitePages.listed site ["srv", "pages"] := by decide
  exact ⟨hroot, (hfinds ["blog", "post.hbs"] hlisted).2 (by decide)⟩

/-- The loader of the files below `srv`. -/
def srvFiles : FileLoader := ⟨.ofTexts "" ".hbs", ["srv"], []⟩

/-- A page whose name ends with the ending twice, next to the one that has it once. -/
def twiceEnded : FileTree := ⟨[], [(["srv", "a.hbs"], ⟨"y", 0⟩), (["srv", "a.hbs.hbs"], ⟨"x", 0⟩)]⟩

/-- A page whose name begins with a blank. -/
def blankEdged : FileTree := ⟨[], [(["srv", " a.hbs"], ⟨"x", 0⟩)]⟩

/-- A file whose name ends with the ending twice is listed with a location that leads to another file,
and one whose name begins with a blank is listed with a location that leads nowhere. -/
theorem listed_location_misleads :
    srvFiles.list Glob.selection twiceEnded [] = .ok ["a", "a.hbs"] ∧
      srvFiles.source twiceEnded "a.hbs" = .ok (.file "a.hbs" "/srv/a.hbs" (some ⟨"y", 0⟩)) ∧
      srvFiles.list Glob.selection blankEdged [] = .ok [" a"] ∧
      srvFiles.source blankEdged " a" = .error (.notFound " a" (some "/srv/a.hbs")) := by
  refine ⟨?_, rfl, ?_, rfl⟩
  · have hroot : srvFiles.root? twiceEnded = some ["srv"] := by decide
    rw [list_eq Glob.selection_skipsBlanks hroot (by decide), List.mergeSort_of_pairwise (by decide)]
    rfl
  · have hroot : srvFiles.root? blankEdged = some ["srv"] := by decide
    rw [list_eq Glob.selection_skipsBlanks hroot (by decide), List.mergeSort_of_pairwise (by decide)]
    rfl

end FileLoader

end Stencil
