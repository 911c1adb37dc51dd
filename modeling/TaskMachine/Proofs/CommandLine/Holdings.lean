import TaskMachine.Proofs.CommandLine.Places
import TaskMachine.Proofs.Json.Obtained

/-!
# What a folder holds

`Folder.look` says what stands at each place of a folder, and that is all there is to a
folder: a file that is written changes it at the place of its path and nowhere else
(`Folder.look_writeText`), and directories that are made only come where nothing was
(`Folder.grows_makeDirectories`, `Folder.look_makeDirectories`).

The operations go down to a directory and put a changed entry back into the whole.  A spot is
in a folder (`Spot.In`) if each directory above it has the one below under its name; then
what is seen from the spot is what is seen from the folder (`Spot.In.look_append`).
-/

namespace TaskMachine

/-- What stands at a place. -/
inductive Standing where
  | nothing
  | directory
  | file (text : String)
deriving DecidableEq, Repr

namespace Standing

/-- A place stays as it is, or a directory comes where nothing was. -/
def Grows (before after : Standing) : Prop :=
  after = before ∨ before = .nothing ∧ after = .directory

theorem Grows.refl (standing : Standing) : standing.Grows standing := .inl rfl

theorem Grows.trans {before after last : Standing} (h : before.Grows after)
    (hlast : after.Grows last) : before.Grows last := by
  rcases h with rfl | ⟨hnothing, hdirectory⟩
  · exact hlast
  · rcases hlast with rfl | ⟨hnothing', -⟩
    · exact .inr ⟨hnothing, hdirectory⟩
    · rw [hdirectory] at hnothing'
      cases hnothing'

end Standing

namespace Entry

/-- What an entry is by itself. -/
def standing : Entry → Standing
  | .file text => .file text
  | .directory _ => .directory

/-- The entries of a directory; a file has none. -/
def entries : Entry → List (String × Entry)
  | .file _ => []
  | .directory entries => entries

/-- What stands at a place below an entry. -/
def look : Entry → List String → Standing
  | entry, [] => entry.standing
  | entry, name :: rest =>
    match entry.entries.lookup name with
    | none => .nothing
    | some entry => entry.look rest

theorem look_of_lookup {entry below : Entry} {name : String}
    (h : entry.entries.lookup name = some below) (rest : List String) :
    entry.look (name :: rest) = below.look rest := by
  rw [look, h]

theorem look_of_entries_nil {entry : Entry} (h : entry.entries = []) (name : String)
    (rest : List String) : entry.look (name :: rest) = .nothing := by
  rw [look, h]
  rfl

/-- Below the name it is put under there is the new entry. -/
theorem look_put_self (name : String) (entry : Entry) (entries : List (String × Entry))
    (rest : List String) :
    look (.directory (put name entry entries)) (name :: rest) = entry.look rest := by
  refine look_of_lookup ?_ rest
  exact (lookup_put name name entry entries).trans (if_pos rfl)

/-- Elsewhere nothing changes. -/
theorem look_put_of_ne {name : String} {place : List String} (h : ¬ [name] <+: place)
    (entry : Entry) (entries : List (String × Entry)) :
    look (.directory (put name entry entries)) place = look (.directory entries) place := by
  cases place with
  | nil => rfl
  | cons other rest =>
      have hne : other ≠ name := by
        rintro rfl
        exact h (List.prefix_append [other] rest)
      have hlookup : (put name entry entries).lookup other = entries.lookup other :=
        (lookup_put name other entry entries).trans (if_neg hne)
      simp only [look, Entry.entries, hlookup]

end Entry

namespace Spot

/-- The place of a spot. -/
def place (spot : Spot) : List String := (spot.above.map Prod.fst).reverse

/-- A spot is in the folder with certain entries. -/
inductive In (root : List (String × Entry)) : Spot → Prop
  | top : In root ⟨root, []⟩
  | inside {entries outer : List (String × Entry)} {name : String}
      {above : List (String × List (String × Entry))} (hout : In root ⟨outer, above⟩)
      (hname : outer.lookup name = some (.directory entries)) :
      In root ⟨entries, (name, outer) :: above⟩

variable {root : List (String × Entry)} {spot next : Spot} {name : String} {entry : Entry}

theorem place_inside (entries outer : List (String × Entry)) (name : String)
    (above : List (String × List (String × Entry))) :
    place ⟨entries, (name, outer) :: above⟩ = place ⟨outer, above⟩ ++ [name] := by
  unfold place
  rw [List.map_cons, List.reverse_cons]

/-- What stands below a spot stands there in the folder. -/
theorem In.look_append (h : In root spot) (rest : List String) :
    Entry.look (.directory root) (spot.place ++ rest) =
      Entry.look (.directory spot.entries) rest := by
  induction h generalizing rest with
  | top => rfl
  | inside hout hname ih =>
      rw [place_inside, List.append_assoc, ih]
      exact Entry.look_of_lookup hname rest

/-! ## Going down -/

theorem find?_eq_ok {found : Option Entry} (h : spot.find? name = .ok found) :
    spot.entries.lookup name = found := by
  unfold find? at h
  split at h
  · cases h
  · exact Except.ok.inj h

theorem In.up (h : In root spot) : In root spot.up ∧ spot.up.place = spot.place.dropLast := by
  cases h with
  | top => exact ⟨.top, rfl⟩
  | inside hout _ =>
      refine ⟨hout, ?_⟩
      rw [place_inside, List.dropLast_concat]
      rfl

theorem In.enter (h : In root spot) (henter : spot.enter name = .ok next) :
    In root next ∧ next.place = stepTo spot.place name := by
  unfold Spot.enter at henter
  unfold stepTo
  by_cases hup : name = ".."
  · rw [if_pos hup] at henter ⊢
    cases henter
    exact h.up
  · rw [if_neg hup] at henter ⊢
    obtain ⟨found, hfound, henter⟩ := exists_of_bind_eq_ok henter
    have hlookup := find?_eq_ok hfound
    cases found with
    | none => cases henter
    | some entry =>
        cases entry with
        | file text => cases henter
        | directory entries =>
            cases henter
            exact ⟨.inside h hlookup, place_inside _ _ _ _⟩

theorem In.walk {names : List String} (h : In root spot) (hwalk : spot.walk names = .ok next) :
    In root next ∧ next.place = names.foldl stepTo spot.place := by
  induction names generalizing spot with
  | nil =>
      cases hwalk
      exact ⟨h, rfl⟩
  | cons name rest ih =>
      unfold Spot.walk at hwalk
      rw [List.foldlM_cons] at hwalk
      obtain ⟨inner, henter, hrest⟩ := exists_of_bind_eq_ok hwalk
      obtain ⟨hinner, hplace⟩ := h.enter henter
      rw [List.foldl_cons, ← hplace]
      exact ih hinner hrest

/-! ## Putting back -/

/-- What is put into a directory changes the entry of that directory in the one above. -/
theorem put_inside (entries outer : List (String × Entry)) (outerName : String)
    (above : List (String × List (String × Entry))) (name : String) (entry : Entry) :
    put ⟨entries, (outerName, outer) :: above⟩ name entry =
      put ⟨outer, above⟩ outerName (.directory (Entry.put name entry entries)) := rfl

/-- An entry is put at its place. -/
theorem In.look_put_below (h : In root spot) (name : String) (entry : Entry)
    (rest : List String) :
    Entry.look (.directory (spot.put name entry)) (spot.place ++ name :: rest) =
      entry.look rest := by
  induction h generalizing name entry rest with
  | top => exact Entry.look_put_self name entry root rest
  | @inside entries outer outerName above hout hname ih =>
      rw [put_inside, place_inside, List.append_assoc]
      exact (ih outerName _ (name :: rest)).trans (Entry.look_put_self name entry entries rest)

/-- Everything else stays. -/
theorem In.look_put_elsewhere (h : In root spot) (entry : Entry) {other : List String}
    (hother : ¬ spot.place ++ [name] <+: other) :
    Entry.look (.directory (spot.put name entry)) other =
      Entry.look (.directory root) other := by
  induction h generalizing name entry other with
  | top => exact Entry.look_put_of_ne hother entry root
  | @inside entries outer outerName above hout hname ih =>
      rw [put_inside]
      by_cases hinside : Spot.place ⟨outer, above⟩ ++ [outerName] <+: other
      · obtain ⟨rest, rfl⟩ := hinside
        rw [place_inside, List.prefix_append_right_inj] at hother
        rw [List.append_assoc, hout.look_append]
        calc _ = Entry.look (.directory (Entry.put name entry entries)) rest :=
              hout.look_put_below outerName _ rest
          _ = Entry.look (.directory entries) rest := Entry.look_put_of_ne hother entry entries
          _ = Entry.look (.directory outer) (outerName :: rest) :=
              (Entry.look_of_lookup hname rest).symm
      · exact ih _ hinside

/-- Where an entry without entries takes the place of such an entry, or of none, only that
place changes. -/
theorem In.look_put (h : In root spot) (hentry : entry.entries = [])
    (hold : ∀ old ∈ spot.entries.lookup name, old.entries = []) (other : List String) :
    Entry.look (.directory (spot.put name entry)) other =
      if other = spot.place ++ [name] then entry.standing
      else Entry.look (.directory root) other := by
  by_cases hbelow : spot.place ++ [name] <+: other
  · obtain ⟨rest, rfl⟩ := hbelow
    rw [List.append_assoc, List.singleton_append, h.look_put_below, h.look_append]
    cases rest with
    | nil => exact (if_pos rfl).symm
    | cons deeper rest =>
        -- Below such an entry there is nothing, and there was nothing before.
        have hdeeper : spot.place ++ name :: deeper :: rest ≠ spot.place ++ [name] := by simp
        rw [if_neg hdeeper, Entry.look_of_entries_nil hentry]
        cases hlookup : spot.entries.lookup name with
        | none => rw [Entry.look, Entry.entries, hlookup]
        | some old =>
            have hbelow : Entry.look (.directory spot.entries) (name :: deeper :: rest) =
                old.look (deeper :: rest) := Entry.look_of_lookup hlookup _
            rw [hbelow, Entry.look_of_entries_nil (hold old hlookup)]
  · have hne : other ≠ spot.place ++ [name] := by
      rintro rfl
      exact hbelow (List.prefix_refl _)
    rw [if_neg hne]
    exact h.look_put_elsewhere entry hbelow

end Spot

namespace Folder

variable {folder after : Folder} {path text : String} {route : Route}

/-- What stands at a place of a folder. -/
def look (folder : Folder) (place : List String) : Standing :=
  Entry.look (.directory folder.entries) place

theorem route_eq_ok (h : Folder.route path = .ok route) : route = Route.ofPath path := by
  unfold Folder.route at h
  split at h
  · cases h
  · split at h
    · cases h
    · split at h
      · cases h
      · exact (Except.ok.inj h).symm

theorem walk_top {names : List String} {spot : Spot} (h : folder.top.walk names = .ok spot) :
    Spot.In folder.entries spot ∧ spot.place = placeOf names :=
  Spot.In.top.walk h

/-! ## Files -/

theorem eq_of_ite_throw {fault : FileFault} {test : Bool} {folder after : Folder}
    (h : (if test then throw fault else return folder : Except FileFault Folder) = .ok after) :
    after = folder := by
  cases test with
  | true => cases h
  | false => exact (Except.ok.inj h).symm

/-- A file is written at the place of its path, and only there. -/
theorem look_writeText (h : folder.writeText path text = .ok after) (place : List String) :
    after.look place = if place = placeOf (namesOf path) then .file text else folder.look place := by
  unfold writeText at h
  obtain ⟨route, hroute, h⟩ := exists_of_bind_eq_ok h
  obtain ⟨spot, hspot, h⟩ := exists_of_bind_eq_ok h
  obtain ⟨hin, hplace⟩ := walk_top hspot
  cases hlast : route.last with
  | none =>
      rw [hlast] at h
      cases h
  | some name =>
      rw [hlast] at h
      obtain ⟨found, hfound, h⟩ := exists_of_bind_eq_ok h
      have hlookup := Spot.find?_eq_ok hfound
      have hname : name ≠ ".." := by
        rintro rfl
        rw [route_eq_ok hroute] at hlast
        exact Route.last_ofPath path hlast
      have hnames : placeOf (namesOf path) = spot.place ++ [name] := by
        rw [hplace, ← Route.names_ofPath, ← route_eq_ok hroute]
        exact Route.placeOf_names hlast hname
      have hold : ∀ old ∈ found, old.entries = [] := by
        rintro (oldText | entries) hmem
        · rfl
        · rw [hmem] at h
          cases h
      have hafter : after = ⟨spot.put name (.file text)⟩ := by
        rcases found with _ | (oldText | entries)
        · exact eq_of_ite_throw h
        · exact eq_of_ite_throw h
        · cases h
      rw [hafter, hnames]
      exact hin.look_put rfl (hlookup ▸ hold) place

/-! ## Directories -/

/-- Directories come where nothing was, and nothing else changes. -/
def Grows (folder after : Folder) : Prop :=
  ∀ place, (folder.look place).Grows (after.look place)

theorem Grows.refl (folder : Folder) : folder.Grows folder := fun _ => .refl _

theorem Grows.trans {last : Folder} (h : folder.Grows after) (hlast : after.Grows last) :
    folder.Grows last :=
  fun place => (h place).trans (hlast place)

/-- A new directory comes where nothing was. -/
theorem exists_of_makeDirectory (h : folder.makeDirectory route = .ok after) :
    ∃ name, route.last = some name ∧
      folder.look (placeOf route.through ++ [name]) = .nothing ∧
      ∀ place, after.look place =
        if place = placeOf route.through ++ [name] then .directory else folder.look place := by
  unfold makeDirectory at h
  obtain ⟨spot, hspot, h⟩ := exists_of_bind_eq_ok h
  obtain ⟨hin, hplace⟩ := walk_top hspot
  rw [← hplace]
  cases hlast : route.last with
  | none =>
      rw [hlast] at h
      cases h
  | some name =>
      rw [hlast] at h
      obtain ⟨found, hfound, h⟩ := exists_of_bind_eq_ok h
      have hlookup := Spot.find?_eq_ok hfound
      cases found with
      | some old => cases h
      | none =>
          cases h
          have hempty : (Entry.directory []).entries = [] := rfl
          have hfree : ∀ old ∈ spot.entries.lookup name, old.entries = [] := by
            rw [hlookup]
            exact nofun
          have hnothing : Entry.look (.directory spot.entries) [name] = .nothing := by
            rw [Entry.look, Entry.entries, hlookup]
          exact ⟨name, rfl, (hin.look_append [name]).trans hnothing, hin.look_put hempty hfree⟩

theorem grows_makeDirectory (h : folder.makeDirectory route = .ok after) :
    folder.Grows after := by
  obtain ⟨name, -, hnothing, hlook⟩ := exists_of_makeDirectory h
  intro place
  rw [hlook]
  by_cases hplace : place = placeOf route.through ++ [name]
  · rw [if_pos hplace, hplace]
    exact .inr ⟨hnothing, rfl⟩
  · rw [if_neg hplace]
    exact .refl _

theorem grows_makeAfter {above : Folder → Option FileFault × Folder}
    (habove : ∀ folder : Folder, folder.Grows (above folder).2) (route : Route)
    (folder : Folder) : folder.Grows (makeAfter above route folder).2 := by
  have hmissing := habove folder
  unfold makeAfter
  split
  · exact grows_makeDirectory ‹_›
  · split
    · rename_i hfault
      rwa [hfault] at hmissing
    · rename_i hmade
      rw [hmade] at hmissing
      split
      · exact hmissing.trans (grows_makeDirectory ‹_›)
      · exact hmissing
  · exact .refl folder

theorem grows_makeAll (names : List String) (folder : Folder) :
    folder.Grows (makeAll names folder).2 := by
  induction names generalizing folder with
  | nil => exact .refl folder
  | cons name above ih => exact grows_makeAfter ih _ folder

theorem grows_makeDirectories (folder : Folder) (path : String) :
    folder.Grows (folder.makeDirectories path).2 := by
  unfold makeDirectories
  split
  · exact .refl folder
  · split
    · exact .refl folder
    · exact grows_makeAfter (grows_makeAll _) _ folder

theorem look_makeDirectory (h : folder.makeDirectory route = .ok after)
    (hlast : route.last ≠ some "..") : after.look (placeOf route.names) = .directory := by
  obtain ⟨name, hname, -, hlook⟩ := exists_of_makeDirectory h
  have hup : name ≠ ".." := by
    rintro rfl
    exact hlast hname
  rw [hlook, Route.placeOf_names hname hup, if_pos rfl]

/-- Where there is no fault, the directory is there. -/
theorem look_of_faultUnlessThere {fault : FileFault}
    (h : folder.faultUnlessThere route fault = none) :
    folder.look (placeOf route.names) = .directory := by
  unfold faultUnlessThere isDirectory at h
  cases hwalk : folder.top.walk route.names with
  | error cause =>
      rw [hwalk] at h
      cases h
  | ok spot =>
      obtain ⟨hin, hplace⟩ := walk_top hwalk
      have hlook := hin.look_append []
      rwa [List.append_nil, hplace] at hlook

theorem look_makeAfter {above : Folder → Option FileFault × Folder}
    (hlast : route.last ≠ some "..") (h : makeAfter above route folder = (none, after)) :
    after.look (placeOf route.names) = .directory := by
  unfold makeAfter at h
  split at h
  · cases h
    exact look_makeDirectory ‹_› hlast
  · split at h
    · cases h
    · split at h
      · cases h
        exact look_makeDirectory ‹_› hlast
      · obtain ⟨hfault, rfl⟩ := Prod.mk.inj h
        exact look_of_faultUnlessThere hfault
  · obtain ⟨hfault, rfl⟩ := Prod.mk.inj h
    exact look_of_faultUnlessThere hfault

/-- A directory that was made is there. -/
theorem look_makeDirectories (h : folder.makeDirectories path = (none, after)) :
    after.look (placeOf (namesOf path)) = .directory := by
  unfold makeDirectories at h
  split at h
  · rename_i hempty
    cases h
    rw [String.isEmpty_iff.mp hempty, namesOf_empty]
    rfl
  · split at h
    · cases h
    · rename_i route hroute
      obtain rfl := route_eq_ok hroute
      rw [← Route.names_ofPath]
      exact look_makeAfter (Route.last_ofPath path) h

end Folder

end TaskMachine
