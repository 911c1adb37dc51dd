import TaskMachine.CommandLine.Folder
import TaskMachine.CommandLine.Program

/-!
# Where paths lead

A place in a folder is given by the names that lead to it from the folder itself.  Names in
a path that are empty or a dot stay in place, and two dots lead up (`placeOf`), so different
paths may lead to one place: `out/a` and `out/./a` do.

A file is looked for from a directory on, unless it starts at the root (`placeIn`).  The path
that the program makes of the two leads there (`Program.namesOf_joinFile`).  Below a directory
a file whose name has no slash has a place of its own (`placeIn_append`).
-/

namespace TaskMachine

/-- The names in a path.  Empty ones and dots stay in place. -/
def namesOf (path : String) : List String :=
  ((path.toList.splitOn '/').map String.ofList).filter fun name => name ≠ "" ∧ name ≠ "."

/-- The place that a name leads to. -/
def stepTo (place : List String) (name : String) : List String :=
  if name = ".." then place.dropLast else place ++ [name]

/-- The place that names lead to from the folder itself. -/
def placeOf (names : List String) : List String := names.foldl stepTo []

/-- The names on the way to a file that is looked for in a directory. -/
def namesIn (directory file : String) : List String :=
  if file.startsWith "/" then namesOf file else namesOf directory ++ namesOf file

/-- The place of a file that is looked for in a directory. -/
def placeIn (directory file : String) : List String := placeOf (namesIn directory file)

example : placeIn "out" "./a" = placeIn "out" "a" := by decide +kernel
example : placeIn "out/" "../b/a" = ["b", "a"] := by decide +kernel

/-! ## Routes -/

namespace Route

theorem parts_eq_splitOn (text : List Char) : parts text = text.splitOn '/' := by
  induction text with
  | nil => rfl
  | cons char rest ih =>
      rw [parts, ih, List.splitOn_cons_eq_if_modifyHead]
      by_cases hslash : (char == '/') = true
      · rw [if_pos hslash, if_pos hslash]
      · rw [if_neg hslash, if_neg hslash]
        cases hparts : rest.splitOn '/' with
        | nil => exact absurd hparts (List.splitOn_ne_nil '/' rest)
        | cons part others => rfl

theorem names_ofNames (names : List String) : (ofNames names).names = names := by
  unfold ofNames
  split
  · exact List.append_nil names
  · exact List.append_nil names
  · rename_i name _ hlast
    obtain ⟨before, rfl⟩ := List.getLast?_eq_some_iff.mp hlast
    rw [List.dropLast_concat]
    rfl

/-- A route does not end by leading up. -/
theorem last_ofNames (names : List String) : (ofNames names).last ≠ some ".." := by
  unfold ofNames
  split
  · exact nofun
  · exact nofun
  · rename_i hup _
    exact fun h => hup (Option.some.inj h)

theorem names_ofPath (path : String) : (ofPath path).names = namesOf path := by
  have hnames : (((parts path.toList).map String.ofList).filter (· != "")).filter (· != ".") =
      namesOf path := by
    rw [parts_eq_splitOn, List.filter_filter]
    unfold namesOf
    refine List.filter_congr ?_
    intro name _
    rw [Bool.decide_and, Bool.and_comm, decide_not, decide_not]
    rfl
  unfold ofPath
  dsimp only
  rw [hnames]
  split
  · exact List.append_nil _
  · exact names_ofNames _

theorem last_ofPath (path : String) : (ofPath path).last ≠ some ".." := by
  unfold ofPath
  dsimp only
  split
  · exact nofun
  · exact last_ofNames _

/-- Where a route ends at a name, that is the last step to its place. -/
theorem placeOf_names {route : Route} {name : String} (hlast : route.last = some name)
    (hname : name ≠ "..") : placeOf route.names = placeOf route.through ++ [name] := by
  unfold names placeOf
  rw [hlast, List.foldl_append]
  exact if_neg hname

end Route

/-! ## Joined paths -/

theorem namesOf_slash (first rest : String) :
    namesOf (first ++ "/" ++ rest) = namesOf first ++ namesOf rest := by
  have hsplit : (first ++ "/" ++ rest).toList.splitOn '/' =
      first.toList.splitOn '/' ++ rest.toList.splitOn '/' := by
    rw [String.toList_append, String.toList_append, List.append_assoc]
    exact List.splitOn_append_cons_self _ _
  unfold namesOf
  rw [hsplit, List.map_append, List.filter_append]

theorem namesOf_empty : namesOf "" = [] := by decide +kernel

/-- A slash at the end adds no name. -/
theorem namesOf_append_slash (path : String) : namesOf (path ++ "/") = namesOf path := by
  have h := namesOf_slash path ""
  rwa [namesOf_empty, List.append_nil, String.append_empty] at h

theorem exists_append_slash {path : String} (h : path.endsWith "/" = true) :
    ∃ start, path = start ++ "/" := by
  rw [String.endsWith_eq_endsWith_toSlice, String.Slice.endsWith_string_eq_endsWith_toSlice,
    String.Slice.endsWith_slice_iff, String.copy_toSlice, String.copy_toSlice] at h
  obtain ⟨start, hstart⟩ := h
  refine ⟨String.ofList start, ?_⟩
  rw [← String.toList_inj, String.toList_append, String.toList_ofList, hstart]

/-- The path that the program makes of a directory and a file has the names of both. -/
theorem Program.namesOf_joinFile (directory file : String) :
    namesOf (joinFile directory file) = namesIn directory file := by
  unfold joinFile namesIn
  split
  · rfl
  · split
    · rename_i hends
      rcases Bool.or_eq_true_iff.mp hends with hempty | hslash
      · rw [String.isEmpty_iff.mp hempty, namesOf_empty, String.empty_append]
        rfl
      · obtain ⟨start, rfl⟩ := exists_append_slash hslash
        rw [namesOf_slash, namesOf_append_slash]
    · exact namesOf_slash directory file

/-! ## Names without a slash -/

/-- A file with an ending and no slash lies in the directory itself. -/
theorem placeIn_append {name ending : String} (hname : '/' ∉ name.toList)
    (hending : '/' ∉ ending.toList) (hlength : 2 < ending.length) (directory : String) :
    placeIn directory (name ++ ending) = placeOf (namesOf directory) ++ [name ++ ending] := by
  have hslash : '/' ∉ (name ++ ending).toList := by
    rw [String.toList_append, List.mem_append]
    exact not_or.mpr ⟨hname, hending⟩
  have hne : ∀ short : String, short.length ≤ 2 → name ++ ending ≠ short := by
    rintro short hshort rfl
    rw [String.length_append] at hshort
    omega
  have hroot : ¬ (name ++ ending).startsWith "/" = true := by
    intro hstarts
    obtain ⟨rest, hrest⟩ := String.startsWith_string_iff.mp hstarts
    rw [← hrest] at hslash
    exact hslash (List.mem_append_left _ (List.mem_singleton_self '/'))
  have hnames : namesOf (name ++ ending) = [name ++ ending] := by
    have hkept : name ++ ending ≠ "" ∧ name ++ ending ≠ "." :=
      ⟨hne "" (by decide +kernel), hne "." (by decide +kernel)⟩
    unfold namesOf
    rw [List.splitOn_eq_singleton hslash, List.map_singleton, String.ofList_toList]
    exact List.filter_cons_of_pos (decide_eq_true hkept)
  unfold placeIn namesIn
  rw [if_neg hroot, hnames]
  unfold placeOf
  rw [List.foldl_append]
  exact if_neg (hne ".." (by decide +kernel))

end TaskMachine
