import Mathlib.Data.List.Forall2
import Mathlib.Data.List.Sort
import LinerNotes.Proofs.Retrieval

/-!
What the inputs of a batch stand for. A directory stands for the audio files below it, each once and
in the order of their paths, and any other input for itself. Only files that the system does not
follow the search to are missing; but every directory can be spelled so that none of its files is
found.
-/

namespace LinerNotes

open LinerNotes.Text

/-- Whether the name of a file has an extension of audio files. -/
def File.IsAudio (file : File) : Prop :=
  ∃ name ∈ file.location.getLast?, Text.lower (Path.extension name) ∈ audioExtensions

namespace Path

theorem dropSlashes_within (path : List Char) :
    (path.reverse.dropWhile (· == '/')).reverse <+: path := by
  obtain ⟨slashes, hslashes⟩ := List.dropWhile_suffix (l := path.reverse) (· == '/')
  exact ⟨slashes.reverse, by rw [← List.reverse_append, hslashes, List.reverse_reverse]⟩

theorem directoryChars_within (path : List Char) : directoryChars path <+: path := by
  unfold directoryChars
  split
  · rename_i before name hcut
    rw [eq_of_cutLast hcut]
    split
    · exact ⟨name, by simp⟩
    · exact (dropSlashes_within before).trans (List.prefix_append before _)
  · exact List.nil_prefix

theorem directoryChars_append_of_getLast? {before name : List Char} (hne : before ≠ [])
    (hlast : before.getLast? ≠ some '/') (hname : '/' ∉ name) :
    directoryChars (before ++ '/' :: name) = before := by
  obtain ⟨front, last, rfl⟩ := (List.eq_nil_or_concat' before).resolve_left hne
  have hslash : last ≠ '/' := by simpa using hlast
  have hall : ¬ (front ++ [last]).all (· == '/') = true := by simp [hslash]
  rw [directoryChars_append _ hname, if_neg hall, List.reverse_append, List.reverse_singleton,
    List.singleton_append, List.dropWhile_cons_of_neg (by simpa using hslash), List.reverse_cons,
    List.reverse_reverse]

theorem directoryChars_joinChars_within {directory name : List Char} (hne : directory ≠ [])
    (hname : '/' ∉ name) : directoryChars (joinChars directory name) <+: directory := by
  have hhead : name.head? ≠ some '/' := fun hhead => hname (List.mem_of_head? hhead)
  rw [joinChars, if_neg hhead]
  by_cases hslash : directory.getLast? = some '/'
  · obtain ⟨before, rfl⟩ := List.getLast?_eq_some_iff.mp hslash
    rw [if_pos (.inr hslash), List.append_assoc, List.singleton_append,
      directoryChars_append before hname]
    split
    · exact List.prefix_rfl
    · exact (dropSlashes_within before).trans (List.prefix_append before _)
  · rw [if_neg (not_or.mpr ⟨hne, hslash⟩), directoryChars_append_of_getLast? hne hslash hname]

theorem utf8Len_joinChars (directory : List Char) {name : List Char}
    (hname : name.head? ≠ some '/') :
    String.utf8Len directory + String.utf8Len name ≤ String.utf8Len (joinChars directory name) := by
  rw [joinChars, if_neg hname]
  split
  · rw [String.utf8Len_append]
  · rw [String.utf8Len_append, String.utf8Len_cons]
    omega

theorem utf8Len_le_of_within {before path : List Char} (h : before <+: path) :
    String.utf8Len before ≤ String.utf8Len path := by
  obtain ⟨after, rfl⟩ := h
  rw [String.utf8Len_append]
  exact Nat.le_add_right _ _

theorem utf8ByteSize_eq (path : String) : path.utf8ByteSize = String.utf8Len path.toList := by
  rw [← String.utf8ByteSize_ofList, String.ofList_toList]

theorem directory_size_le (path : String) : (directory path).utf8ByteSize ≤ path.utf8ByteSize := by
  rw [directory, String.utf8ByteSize_ofList, utf8ByteSize_eq]
  exact utf8Len_le_of_within (directoryChars_within path.toList)

end Path

namespace Tree

theorem join_pathOf_inj {path : String} (hne : path.toList ≠ []) {rest other : Location}
    (hrest : ∀ name ∈ rest, IsName name) (hother : ∀ name ∈ other, IsName name)
    (h : Path.join path (pathOf rest) = Path.join path (pathOf other)) : rest = other := by
  have hnames : ∀ {names : Location}, (∀ name ∈ names, IsName name) →
      Path.names (Path.join path (pathOf names)).toList = Path.names path.toList ++ names := by
    intro names hnamed
    rw [Path.join, String.toList_ofList, Path.names_joinChars hne (plain_pathOf hnamed).1,
      names_pathOf hnamed]
  have hsame := hnames hrest
  rw [h, hnames hother] at hsame
  exact (List.append_cancel_left hsame).symm

theorem name_join_pathOf {path : String} (hne : path.toList ≠ []) {through : Location}
    (hthrough : ∀ name ∈ through, IsName name) {last : String} (hlast : '/' ∉ last.toList) :
    Path.name (Path.join path (pathOf (through ++ [last]))) = last := by
  obtain ⟨front, hfront⟩ := exists_front hne hthrough
  rw [Path.name, hfront last hlast, Path.nameChars_append front hlast, String.ofList_toList]

theorem directory_join_pathOf_concat (path : String) {through : Location}
    (hthrough : ∀ name ∈ through, IsName name) (hne : through ≠ []) {last : String}
    (hlast : '/' ∉ last.toList) : Path.directory (Path.join path (pathOf (through ++ [last]))) =
      Path.join path (pathOf through) := by
  obtain ⟨-, hend, -⟩ := plain_pathOf hthrough
  have hlast? : (Path.join path (pathOf through)).toList.getLast? =
      (pathOf through).toList.getLast? := by
    rw [Path.join, String.toList_ofList,
      Path.getLast?_joinChars path.toList (pathOf_ne_nil hthrough hne)]
  have hlong : (Path.join path (pathOf through)).toList.getLast? ≠ some '/' := hlast? ▸ hend
  have hjoin : (Path.join path (pathOf through)).toList ≠ [] := by
    intro hempty
    rw [hempty, List.getLast?_nil, eq_comm, List.getLast?_eq_none_iff] at hlast?
    exact pathOf_ne_nil hthrough hne hlast?
  rw [Path.directory, join_pathOf_concat path hthrough hne,
    Path.directoryChars_append_of_getLast? hjoin hlong hlast, String.ofList_toList]

theorem follows_false_iff {path : String} :
    follows false path = true ↔ path.utf8ByteSize ≤ pathLimit := by
  simp [follows]

theorem follows_true_iff {path : String} :
    follows true path = true ↔ (Path.directory path).utf8ByteSize ≤ pathLimit := by
  simp [follows]

theorem follows_true_of_false {path : String} (h : follows false path = true) :
    follows true path = true :=
  follows_true_iff.mpr ((Path.directory_size_le path).trans (follows_false_iff.mp h))

theorem sorted_ascending {paths : List String} (h : paths.Nodup) :
    (sorted paths).Pairwise (· < ·) := by
  have hsorted : (sorted paths).Pairwise (· ≤ ·) := List.pairwise_mergeSort' _ paths
  have hnodup : (sorted paths).Nodup := (List.mergeSort_perm paths _).nodup_iff.mpr h
  exact (hsorted.and hnodup).imp fun hpair => lt_of_le_of_ne hpair.1 hpair.2

/-- Whether an input stands for a row of paths: if it is a directory for those of the audio files
below it, as far as the system follows them, in ascending order, and otherwise for itself. -/
inductive StandsFor (tree : Tree) (recursive : Bool) (input : String) : List String → Prop
  | itself (h : tree.directory? input = none) : StandsFor tree recursive input [input]
  | contents {location : Location} {paths : List String}
      (h : tree.directory? input = some location) (ascending : paths.Pairwise (· < ·))
      (exact : ∀ path, path ∈ paths ↔ ∃ file ∈ tree.files, ∃ rest,
        file.location = location ++ rest ∧ (recursive = true ∨ rest.length = 1) ∧ file.IsAudio ∧
        path = Path.join input (pathOf rest) ∧ follows recursive path = true) :
      StandsFor tree recursive input paths

namespace Sound

variable {tree : Tree} {input : String} {location : Location}

section

variable (h : tree.Sound) (hinput : tree.directory? input = some location)

include h hinput

theorem isAudioPath_join_iff {file : File} (hfile : file ∈ tree.files) {rest : Location}
    (hlocation : file.location = location ++ rest) :
    isAudioPath (Path.join input (pathOf rest)) = true ↔ file.IsAudio := by
  obtain ⟨through, last, rfl, hthrough, hlast⟩ := h.exists_last hinput hfile hlocation
  have hne := (walk_of_directory? hinput).2.1
  rw [isAudioPath, extension_join_pathOf hne hthrough hlast.plain.1]
  simp [File.IsAudio, hlocation]

theorem mem_expand_iff_follows {recursive : Bool} {path : String} :
    path ∈ tree.expand recursive [input] ↔ ∃ file ∈ tree.files, ∃ rest,
      file.location = location ++ rest ∧ (recursive = true ∨ rest.length = 1) ∧ file.IsAudio ∧
      path = Path.join input (pathOf rest) ∧ follows recursive path = true := by
  rw [mem_expand_iff hinput]
  constructor
  · rintro ⟨file, hfile, rest, ⟨hlocation, hwanted⟩, rfl, hfinds, haudio⟩
    have hbelow : rest ∈ tree.below location recursive :=
      mem_below_iff.mpr ⟨file, hfile, hlocation, hwanted⟩
    rw [finds_eq_follows h hinput hbelow] at hfinds
    rw [h.isAudioPath_join_iff hinput hfile hlocation] at haudio
    exact ⟨file, hfile, rest, hlocation, hwanted, haudio, rfl, hfinds⟩
  · rintro ⟨file, hfile, rest, hlocation, hwanted, haudio, rfl, hfollows⟩
    have hbelow : rest ∈ tree.below location recursive :=
      mem_below_iff.mpr ⟨file, hfile, hlocation, hwanted⟩
    rw [← finds_eq_follows h hinput hbelow] at hfollows
    rw [← h.isAudioPath_join_iff hinput hfile hlocation] at haudio
    exact ⟨file, hfile, rest, ⟨hlocation, hwanted⟩, rfl, hfollows, haudio⟩

theorem ascending_expand (recursive : Bool) :
    (tree.expand recursive [input]).Pairwise (· < ·) := by
  have hne := (walk_of_directory? hinput).2.1
  have hnamed : ∀ rest ∈ tree.below location recursive, ∀ name ∈ rest, IsName name := by
    intro rest hrest
    obtain ⟨file, hfile, hlocation, -⟩ := mem_below_iff.mp hrest
    exact h.named_below hfile hlocation
  have hpaths : ((tree.below location recursive).map fun rest =>
      Path.join input (pathOf rest)).Nodup := by
    refine List.Nodup.map_on ?_ (nodup_below h.distinct location recursive)
    exact fun rest hrest other hother =>
      join_pathOf_inj hne (hnamed rest hrest) (hnamed other hother)
  rw [expand_of_directory? hinput]
  exact sorted_ascending (hpaths.filter _)

end

theorem standsFor_iff (h : tree.Sound) {recursive : Bool} {paths : List String} :
    tree.StandsFor recursive input paths ↔ tree.expandInput recursive input = paths := by
  cases hinput : tree.directory? input with
  | none =>
      have hexpand : tree.expandInput recursive input = [input] := by rw [expandInput, hinput]
      rw [hexpand]
      constructor
      · rintro (- | ⟨hother, -, -⟩)
        · rfl
        · rw [hinput] at hother
          cases hother
      · rintro rfl
        exact .itself hinput
  | some location =>
      have hexpand : tree.expandInput recursive input = tree.expand recursive [input] := by
        rw [expand, List.flatMap_singleton]
      have hascending := h.ascending_expand hinput recursive
      rw [hexpand]
      constructor
      · rintro (hnone | ⟨hother, hpaths, hexact⟩)
        · rw [hinput] at hnone
          cases hnone
        · rw [hinput] at hother
          cases hother
          refine hascending.eq_of_mem_iff hpaths fun path => ?_
          rw [hexact, h.mem_expand_iff_follows hinput]
      · rintro rfl
        exact .contents hinput hascending fun path => h.mem_expand_iff_follows hinput

/-- A search that is not recursive finds what a recursive one finds directly in the directory, as
far as the system follows the paths. -/
theorem expand_false_eq_filter (h : tree.Sound) (hinput : tree.directory? input = some location) :
    tree.expand false [input] = (tree.expand true [input]).filter fun path =>
      path == Path.join input (Path.name path) && follows false path := by
  have hne := (walk_of_directory? hinput).2.1
  refine (h.ascending_expand hinput false).eq_of_mem_iff
    ((h.ascending_expand hinput true).filter _) fun path => ?_
  rw [List.mem_filter, Bool.and_eq_true, beq_iff_eq, h.mem_expand_iff_follows hinput,
    h.mem_expand_iff_follows hinput]
  constructor
  · rintro ⟨file, hfile, rest, hlocation, hwanted, haudio, rfl, hfollows⟩
    obtain ⟨last, rfl⟩ := List.length_eq_one_iff.mp (hwanted.resolve_left Bool.false_ne_true)
    have hlast : IsName last := h.named_below hfile hlocation last List.mem_cons_self
    have hname := @name_join_pathOf input hne [] nofun last hlast.plain.1
    refine ⟨⟨file, hfile, [last], hlocation, .inl rfl, haudio, rfl, ?_⟩, ?_, hfollows⟩
    · exact follows_true_of_false hfollows
    · rw [List.nil_append] at hname
      rw [hname, pathOf_singleton]
  · rintro ⟨⟨file, hfile, rest, hlocation, -, haudio, rfl, -⟩, hdirectly, hfollows⟩
    obtain ⟨through, last, rfl, hthrough, hlast⟩ := h.exists_last hinput hfile hlocation
    rw [name_join_pathOf hne hthrough hlast.plain.1, ← pathOf_singleton last] at hdirectly
    have hsingle : through ++ [last] = [last] :=
      join_pathOf_inj hne (h.named_below hfile hlocation) (by simpa using hlast) hdirectly
    exact ⟨file, hfile, _, hlocation, .inr (congrArg List.length hsingle), haudio, rfl, hfollows⟩

/-- A directory whose path is as long as paths can be seems to be without files, and to be without
directories if it is searched through. -/
theorem expand_of_longest (h : tree.Sound) (hinput : tree.directory? input = some location)
    (hsize : input.utf8ByteSize = pathLimit) : tree.expand false [input] = [] ∧
      ∀ path, path ∈ tree.expand true [input] ↔ ∃ file ∈ tree.files, ∃ name,
        file.location = location ++ [name] ∧ file.IsAudio ∧ path = Path.join input name := by
  have hne := (walk_of_directory? hinput).2.1
  have hlong : ∀ {rest : Location}, (∀ name ∈ rest, IsName name) → rest ≠ [] →
      pathLimit < (Path.join input (pathOf rest)).utf8ByteSize := by
    intro rest hnamed hrest
    have hpositive := List.length_pos_iff.mpr (pathOf_ne_nil hnamed hrest)
    have hchars := length_le_utf8ByteSize (pathOf rest)
    have hjoin := Path.utf8Len_joinChars input.toList (plain_pathOf hnamed).1
    rw [← Path.utf8ByteSize_eq, ← Path.utf8ByteSize_eq, ← String.utf8ByteSize_ofList] at hjoin
    rw [Path.join]
    omega
  constructor
  · refine List.eq_nil_iff_forall_not_mem.mpr fun path hpath => ?_
    obtain ⟨file, hfile, rest, hlocation, -, -, rfl, hfollows⟩ :=
      (h.mem_expand_iff_follows hinput).mp hpath
    exact absurd (follows_false_iff.mp hfollows) (Nat.not_le.mpr
      (hlong (h.named_below hfile hlocation) (h.ne_nil_of_location hinput hfile hlocation)))
  · intro path
    rw [h.mem_expand_iff_follows hinput]
    constructor
    · rintro ⟨file, hfile, rest, hlocation, -, haudio, rfl, hfollows⟩
      obtain ⟨through, last, rfl, hthrough, hlast⟩ := h.exists_last hinput hfile hlocation
      by_cases hdirectly : through = []
      · subst hdirectly
        exact ⟨file, hfile, last, hlocation, haudio, by rw [List.nil_append, pathOf_singleton]⟩
      · have hdirectory := directory_join_pathOf_concat input hthrough hdirectly hlast.plain.1
        rw [follows_true_iff, hdirectory] at hfollows
        exact absurd hfollows (Nat.not_le.mpr (hlong hthrough hdirectly))
    · rintro ⟨file, hfile, name, hlocation, haudio, rfl⟩
      have hname : IsName name := h.named_below hfile hlocation name List.mem_cons_self
      refine ⟨file, hfile, [name], hlocation, .inl rfl, haudio, by rw [pathOf_singleton], ?_⟩
      have hdirectory := Path.utf8Len_le_of_within
        (Path.directoryChars_joinChars_within hne hname.plain.1)
      rw [← String.utf8ByteSize_ofList, ← Path.utf8ByteSize_eq, hsize] at hdirectory
      rw [follows_true_iff]
      rwa [Path.directory, Path.join, String.toList_ofList]

end Sound

theorem utf8ByteSize_append_slashes (path : String) (n : Nat) :
    (path ++ String.ofList (List.replicate n '/')).utf8ByteSize = path.utf8ByteSize + n := by
  rw [String.utf8ByteSize_append, String.utf8ByteSize_ofList]
  congr 1
  induction n with
  | zero => rfl
  | succ n ih =>
      rw [List.replicate_succ, String.utf8Len_cons, ih]
      rfl

theorem directory?_append_slashes {tree : Tree} {path : String} {location : Location}
    (h : tree.directory? path = some location) {n : Nat}
    (hsize : path.utf8ByteSize + n ≤ pathLimit) :
    tree.directory? (path ++ String.ofList (List.replicate n '/')) = some location := by
  obtain ⟨hnul, r, directory, hroute, hwalk, henter⟩ := directory?_eq_some_iff.mp h
  obtain ⟨-, hhead, hnames, -⟩ := route_eq_ok_iff.mp hroute
  obtain ⟨-, hne, -, -⟩ := walk_of_directory? h
  have hslashes : Path.names (path.toList ++ List.replicate n '/') = Path.names path.toList := by
    clear hsize
    induction n with
    | zero => rw [List.replicate_zero, List.append_nil]
    | succ n ih =>
        rw [List.replicate_succ', ← List.append_assoc, Path.names_append, ih]
        simp [Path.names, pieces]
  have hroute' : route (path ++ String.ofList (List.replicate n '/')) = .ok ⟨r.through, r.last,
      decide ((path ++ String.ofList (List.replicate n '/')).toList.getLast? = some '/')⟩ := by
    refine route_eq_ok_iff.mpr ⟨?_, ?_, ?_, rfl⟩
    · rwa [utf8ByteSize_append_slashes]
    · rw [String.toList_append, List.head?_append_of_ne_nil _ hne]
      exact hhead
    · rw [String.toList_append, String.toList_ofList, hslashes, hnames]
  refine directory?_eq_some_iff.mpr ⟨?_, _, directory, hroute', hwalk, henter⟩
  simpa [hasNul] using hnul

namespace Sound

variable {tree : Tree}

/-- Every directory has a spelling by which a search finds nothing in it, and one that goes below it
only what is directly in it. -/
theorem exists_unfound (h : tree.Sound) {input : String} {location : Location}
    (hinput : tree.directory? input = some location) : ∃ n,
      let spelling := input ++ String.ofList (List.replicate n '/')
      tree.directory? spelling = some location ∧ tree.expand false [spelling] = [] ∧
        ∀ path, path ∈ tree.expand true [spelling] ↔ ∃ file ∈ tree.files, ∃ name,
          file.location = location ++ [name] ∧ file.IsAudio ∧ path = Path.join spelling name := by
  obtain ⟨-, r, directory, hroute, -⟩ := directory?_eq_some_iff.mp hinput
  have hshort : input.utf8ByteSize + (pathLimit - input.utf8ByteSize) = pathLimit :=
    Nat.add_sub_cancel' (route_eq_ok_iff.mp hroute).1
  have hspelling := directory?_append_slashes hinput hshort.le
  have hsize := (utf8ByteSize_append_slashes input _).trans hshort
  exact ⟨_, hspelling, h.expand_of_longest hspelling hsize⟩

/-- Inputs are expanded to what each of them stands for, one after the other, and to nothing else.
Of one directory a search finds the paths in it that a recursive search finds, as far as the system
follows them. -/
theorem expand_eq_iff (h : tree.Sound) :
    (∀ recursive inputs paths, tree.expand recursive inputs = paths ↔
      ∃ parts, List.Forall₂ (tree.StandsFor recursive) inputs parts ∧ parts.flatten = paths) ∧
    ∀ input location, tree.directory? input = some location →
      tree.expand false [input] = (tree.expand true [input]).filter fun path =>
        path == Path.join input (Path.name path) && follows false path := by
  refine ⟨fun recursive inputs paths => ?_, fun input location hinput =>
    h.expand_false_eq_filter hinput⟩
  have hparts : ∀ parts, List.Forall₂ (tree.StandsFor recursive) inputs parts ↔
      inputs.map (tree.expandInput recursive) = parts := by
    intro parts
    have hstands : tree.StandsFor recursive =
        fun input paths => tree.expandInput recursive input = paths := by
      funext input paths
      exact propext h.standsFor_iff
    rw [hstands, ← List.forall₂_map_left_iff, List.forall₂_eq_eq_eq]
  simp only [hparts, exists_eq_left']
  rw [expand, List.flatMap_def]

/-- A directory holds audio files at two depths, below names of which one begins with the other.
With so many slashes behind it that its path is as long as paths can be, it seems to hold none. -/
theorem expand_eq_iff_nested :
    let file (location : Location) : File := ⟨location, none, none, ⟨none, none, none⟩⟩
    let tree := build [] [file ["m", "x", "c.ogg"], file ["m", "x-1", "d.WV"],
      file ["m", "cover.jpg"], file ["m", "a.mp3"]]
    let longest := "m" ++ String.ofList (List.replicate 4094 '/')
    tree.Sound ∧ tree.directory? "m" = some ["m"] ∧ tree.directory? longest = some ["m"] ∧
      (∃ parts, List.Forall₂ (tree.StandsFor true) ["m", "gone.mp3"] parts ∧
        parts.flatten = ["m/a.mp3", "m/x-1/d.WV", "m/x/c.ogg", "gone.mp3"]) ∧
      tree.expand false ["m"] = ["m/a.mp3"] ∧
      tree.expand false [longest] = [] ∧ tree.expand true [longest] ≠ [] := by
  intro file tree longest
  have hsound : tree.Sound :=
    sound_build (by decide +kernel) (by decide +kernel) (by decide +kernel)
  have hpath : tree.directory? "m" = some ["m"] := by decide +kernel
  have hlongest : tree.directory? longest = some ["m"] :=
    directory?_append_slashes hpath (by decide +kernel)
  have hexpand : tree.expand true ["m"] = ["m/a.mp3", "m/x-1/d.WV", "m/x/c.ogg"] := by
    rw [expand_of_directory? hpath]
    have hbelow : (((tree.below ["m"] true).map fun rest => Path.join "m" (pathOf rest)).filter
        fun path => tree.finds true path && isAudioPath path) =
          ["m/x/c.ogg", "m/x-1/d.WV", "m/a.mp3"] := by
      decide +kernel
    have hperm : ["m/x/c.ogg", "m/x-1/d.WV", "m/a.mp3"].Perm
        ["m/a.mp3", "m/x-1/d.WV", "m/x/c.ogg"] := by
      decide +kernel
    have hsorted : sorted ["m/x/c.ogg", "m/x-1/d.WV", "m/a.mp3"] =
        ["m/a.mp3", "m/x-1/d.WV", "m/x/c.ogg"] :=
      (sorted_ascending (by decide +kernel)).eq_of_mem_iff (by decide +kernel) fun path => by
        rw [sorted, List.mem_mergeSort, hperm.mem_iff]
    exact (congrArg sorted hbelow).trans hsorted
  obtain ⟨hexact, hdirect⟩ := expand_eq_iff hsound
  obtain ⟨hnone, hfound⟩ := hsound.expand_of_longest hlongest (utf8ByteSize_append_slashes "m" 4094)
  refine ⟨hsound, hpath, hlongest, (hexact _ _ _).mp ?_, ?_, hnone, ?_⟩
  · have hgone : tree.expand true ["gone.mp3"] = ["gone.mp3"] := by decide +kernel
    change tree.expand true (["m"] ++ ["gone.mp3"]) = _
    rw [expand, List.flatMap_append, ← expand, ← expand, hexpand, hgone]
    rfl
  · rw [hdirect "m" ["m"] hpath, hexpand]
    decide +kernel
  · refine List.ne_nil_of_mem ((hfound _).mpr ⟨file ["m", "a.mp3"], ?_, "a.mp3", rfl, ?_, rfl⟩)
    · decide +kernel
    · exact ⟨"a.mp3", rfl, by decide +kernel⟩

end Sound

end Tree

end LinerNotes
