import TaskMachine.Proofs.CommandLine.Holdings

/-!
# What is written into a folder

The files of compiled machines are written one after the other, up to the first one that the
system refuses (`Program.Writing`).  If it refuses none, the folder holds each file at the
place of its name, unless a later file has the same place (`Program.Stored`).

Names of machines that differ are not enough for their files to have places of their own:
`a` and `./a` lead to one.  Names without a slash do not (`Program.filed_of_stored`).
-/

namespace TaskMachine

namespace Program

/-- A part of a command on a folder. -/
abbrev Part (α : Type) := ExceptT Failure (StateM Folder) α

/-- The answer of a part of a command, and the folder then. -/
def Part.run {α : Type} (part : Part α) (folder : Folder) : Except Failure α × Folder :=
  (ExceptT.run part) folder

namespace Part

variable {α β : Type} {part : Part α} {folder after : Folder}

theorem run_bind (part : Part α) (next : α → Part β) (folder : Folder) :
    run (part >>= next) folder =
      match run part folder with
      | (.ok answer, after) => run (next answer) after
      | (.error failure, after) => (.error failure, after) := by
  show (ExceptT.bindCont next (run part folder).1) (run part folder).2 = _
  cases run part folder with
  | mk result after => cases result <;> rfl

theorem run_bind_ok {answer : α} (h : run part folder = (.ok answer, after))
    (next : α → Part β) : run (part >>= next) folder = run (next answer) after := by
  rw [run_bind, h]

end Part

variable {folder after : Folder} {directory : String} {files : List (String × String)}

theorem run_within {α : Type} (context : String) (operation : StateM Folder (Except String α))
    (folder : Folder) :
    Part.run (within context operation) folder =
      ((operation folder).1.mapError fun cause => ⟨context, [cause]⟩, (operation folder).2) :=
  rfl

/-! ## Writing -/

theorem run_writeText (environment : Option (SortedMap String)) (context path text : String)
    (folder : Folder) :
    Part.run (within context ((Folder.surroundings environment).writeText path text)) folder =
      match folder.writeText path text with
      | .ok after => (.ok (), after)
      | .error fault => (.error ⟨context, [fault.message]⟩, folder) := by
  have hwrite : (Folder.surroundings environment).writeText path text folder =
      match folder.writeText path text with
      | .ok after => (.ok (), after)
      | .error fault => (.error fault.message, folder) := by
    show (match folder.writeText path text with
      | .ok after => (do set after; return .ok () : StateM Folder (Except String Unit))
      | .error fault => return .error fault.message) folder = _
    cases folder.writeText path text <;> rfl
  rw [run_within, hwrite]
  cases folder.writeText path text <;> rfl

theorem run_makeDirectories (environment : Option (SortedMap String)) (context path : String)
    (folder : Folder) :
    Part.run (within context ((Folder.surroundings environment).makeDirectories path)) folder =
      match folder.makeDirectories path with
      | (none, made) => (.ok (), made)
      | (some fault, made) => (.error ⟨context, [fault.message]⟩, made) := by
  have hmake : (Folder.surroundings environment).makeDirectories path folder =
      ((folder.makeDirectories path).1.elim (.ok ()) fun fault => .error fault.message,
        (folder.makeDirectories path).2) := rfl
  rw [run_within, hmake]
  rcases folder.makeDirectories path with ⟨_ | fault, made⟩ <;> rfl

/-- Files are written in a directory one after the other, up to the first one that the
system refuses.  Each is written under a path with the names of the directory and the file. -/
inductive Writing (directory : String) :
    List (String × String) → Folder → Except Failure PUnit × Folder → Prop
  | done (folder : Folder) : Writing directory [] folder (.ok (), folder)
  | written {path name text : String} {rest : List (String × String)} {folder next : Folder}
      {outcome : Except Failure PUnit × Folder} (hpath : namesOf path = namesIn directory name)
      (hwrite : folder.writeText path text = .ok next)
      (hrest : Writing directory rest next outcome) :
      Writing directory ((name, text) :: rest) folder outcome
  | refused {path name text : String} {rest : List (String × String)} {folder : Folder}
      {fault : FileFault} (hpath : namesOf path = namesIn directory name)
      (hwrite : folder.writeText path text = .error fault) :
      Writing directory ((name, text) :: rest) folder
        (.error ⟨"failed to write " ++ path, [fault.message]⟩, folder)

/-- Some files are written, and then others. -/
theorem Writing.bind {part : Part PUnit} {next : PUnit → Part PUnit}
    {more : List (String × String)} (h : Writing directory files folder (part.run folder))
    (hnext : ∀ folder, Writing directory more folder ((next ()).run folder)) :
    Writing directory (files ++ more) folder ((part >>= next).run folder) := by
  rw [Part.run_bind]
  generalize part.run folder = outcome at h
  induction h with
  | done folder => exact hnext folder
  | written hpath hwrite hrest ih => exact .written hpath hwrite ih
  | refused hpath hwrite => exact .refused hpath hwrite

theorem writing_writeFile (environment : Option (SortedMap String))
    (directory name text : String) (folder : Folder) :
    Writing directory [(name, text)] folder
      (Part.run (writeFile (Folder.surroundings environment) directory name text) folder) := by
  have hpath := namesOf_joinFile directory name
  unfold writeFile
  rw [run_writeText]
  cases hwrite : folder.writeText (joinFile directory name) text with
  | ok after => exact .written hpath hwrite (.done after)
  | error fault => exact .refused hpath hwrite

/-- Files of several items are written item by item. -/
theorem writing_forM {α : Type} {items : List α} {step : α → Part PUnit}
    (filesOf : α → List (String × String))
    (h : ∀ item folder, Writing directory (filesOf item) folder ((step item).run folder))
    (folder : Folder) :
    Writing directory (items.flatMap filesOf) folder (Part.run (items.forM step) folder) := by
  induction items generalizing folder with
  | nil => exact .done folder
  | cons item rest ih =>
      rw [List.flatMap_cons]
      exact (h item folder).bind ih

/-- The files of a machine, with their texts. -/
def filesOf (compiled : CompiledMachine) : List (String × String) :=
  [(compiled.name ++ ".asl.json", compiled.definition.pretty),
    (compiled.name ++ ".functions.json",
      (Json.Raw.arr (compiled.functions.map UnitHandle.toTree)).pretty 0)]

/-- The directory is made first; where the system refuses that, nothing else is done. -/
theorem run_writeOutputs (environment : Option (SortedMap String)) (directory : String)
    (machines : List CompiledMachine) (folder : Folder) :
    match folder.makeDirectories directory with
    | (none, made) => Writing directory (machines.flatMap filesOf) made
        (Part.run (writeOutputs (Folder.surroundings environment) directory machines) folder)
    | (some fault, made) =>
        Part.run (writeOutputs (Folder.surroundings environment) directory machines) folder =
          (.error ⟨"failed to create output directory: " ++ directory, [fault.message]⟩,
            made) := by
  unfold writeOutputs
  rw [Part.run_bind, run_makeDirectories]
  rcases folder.makeDirectories directory with ⟨_ | fault, made⟩
  · refine writing_forM filesOf ?_ made
    intro compiled folder
    exact (writing_writeFile environment directory _ _ folder).bind
      (writing_writeFile environment directory _ _)
  · rfl

/-! ## What the folder holds -/

/-- What a folder holds after files were written in a directory, one after the other. -/
structure Stored (directory : String) (files : List (String × String))
    (folder after : Folder) : Prop where
  /-- A file is at its place, unless a later one has the same place. -/
  kept : ∀ {earlier later : List (String × String)} {name text : String},
    files = earlier ++ (name, text) :: later →
    (∀ other ∈ later, placeIn directory other.1 ≠ placeIn directory name) →
    after.look (placeIn directory name) = .file text
  /-- Elsewhere nothing changes. -/
  others : ∀ place, (∀ file ∈ files, placeIn directory file.1 ≠ place) →
    after.look place = folder.look place

theorem Writing.stored (h : Writing directory files folder (.ok (), after)) :
    Stored directory files folder after := by
  generalize houtcome : (Except.ok (), after) = outcome at h
  induction h with
  | done folder =>
      cases houtcome
      refine ⟨?_, fun place _ => rfl⟩
      intro earlier later name text hsplit
      exact absurd hsplit.symm (by simp)
  | @written path name text rest folder next outcome hpath hwrite hrest ih =>
      have hstored := ih houtcome
      have hlook : ∀ place, next.look place =
          if place = placeIn directory name then .file text else folder.look place := by
        intro place
        rw [placeIn, ← hpath]
        exact Folder.look_writeText hwrite place
      refine ⟨?_, ?_⟩
      · intro earlier later other otherText hsplit hlater
        cases earlier with
        | cons first earlier => exact hstored.kept (List.cons.inj hsplit).2 hlater
        | nil =>
            cases hsplit
            rw [hstored.others _ hlater, hlook, if_pos rfl]
      · intro place hplace
        have hne : placeIn directory name ≠ place := hplace _ List.mem_cons_self
        rw [hstored.others place fun file hfile => hplace file (List.mem_cons_of_mem _ hfile),
          hlook, if_neg (Ne.symm hne)]
  | refused => cases houtcome

/-- Where a file is refused, those before it were written. -/
theorem Writing.exists_refused {failure : Failure}
    (h : Writing directory files folder (.error failure, after)) :
    ∃ earlier name text later path fault, files = earlier ++ (name, text) :: later ∧
      Writing directory earlier folder (.ok (), after) ∧
      namesOf path = namesIn directory name ∧ after.writeText path text = .error fault ∧
      failure = ⟨"failed to write " ++ path, [fault.message]⟩ := by
  generalize houtcome : (Except.error failure, after) = outcome at h
  induction h with
  | done => cases houtcome
  | @written writtenPath writtenName writtenText rest folder next outcome hpath hwrite hrest ih =>
      obtain ⟨earlier, name, text, later, path, fault, rfl, hearlier, hrefused⟩ := ih houtcome
      exact ⟨(writtenName, writtenText) :: earlier, name, text, later, path, fault, rfl,
        .written hpath hwrite hearlier, hrefused⟩
  | @refused path name text rest folder fault hpath hwrite =>
      cases houtcome
      exact ⟨[], name, text, rest, path, fault, rfl, .done after, hpath, hwrite, rfl⟩

/-- A directory was made with those above it, as far as they were not there. -/
structure Prepared (directory : String) (folder made : Folder) : Prop where
  answer : folder.makeDirectories directory = (none, made)
  there : made.look (placeOf (namesOf directory)) = .directory
  grows : folder.Grows made

/-- The system refuses to make the directory, or to write one of the files at its place.  The
files before that one are stored. -/
inductive Refuses (directory : String) (files : List (String × String)) (folder : Folder) :
    Failure → Folder → Prop
  | directory {fault : FileFault} {made : Folder}
      (hmade : folder.makeDirectories directory = (some fault, made)) :
      Refuses directory files folder
        ⟨"failed to create output directory: " ++ directory, [fault.message]⟩ made
  | file {made after : Folder} {earlier later : List (String × String)}
      {path name text : String} {fault : FileFault} (hmade : Prepared directory folder made)
      (hfiles : files = earlier ++ (name, text) :: later)
      (hstored : Stored directory earlier made after)
      (hpath : namesOf path = namesIn directory name)
      (hwrite : after.writeText path text = .error fault) :
      Refuses directory files folder ⟨"failed to write " ++ path, [fault.message]⟩ after

/-- The files of machines are stored in the directory, or the system refuses something. -/
theorem writeOutputs_cases (environment : Option (SortedMap String)) (directory : String)
    (machines : List CompiledMachine) (folder : Folder) :
    (∃ made after, Prepared directory folder made ∧
      Stored directory (machines.flatMap filesOf) made after ∧
      Part.run (writeOutputs (Folder.surroundings environment) directory machines) folder =
        (.ok (), after)) ∨
    ∃ failure after, Refuses directory (machines.flatMap filesOf) folder failure after ∧
      Part.run (writeOutputs (Folder.surroundings environment) directory machines) folder =
        (.error failure, after) := by
  have hrun := run_writeOutputs environment directory machines folder
  have hgrows := folder.grows_makeDirectories directory
  rcases hmade : folder.makeDirectories directory with ⟨_ | fault, made⟩
  · rw [hmade] at hrun hgrows
    dsimp only at hrun
    have hprepared : Prepared directory folder made :=
      ⟨hmade, Folder.look_makeDirectories hmade, hgrows⟩
    rcases houtcome : Part.run (writeOutputs (Folder.surroundings environment) directory machines)
      folder with ⟨failure | _, after⟩
    · rw [houtcome] at hrun
      obtain ⟨earlier, name, text, later, path, fault, hfiles, hwritten, hpath, hwrite, rfl⟩ :=
        hrun.exists_refused
      exact .inr ⟨_, after, .file hprepared hfiles hwritten.stored hpath hwrite, rfl⟩
    · rw [houtcome] at hrun
      exact .inl ⟨made, after, hprepared, hrun.stored, rfl⟩
  · rw [hmade] at hrun
    exact .inr ⟨_, made, .directory hmade, hrun⟩

/-! ## Machines with places of their own -/

/-- What a folder holds after the files of some machines were written in a directory. -/
structure Filed (directory : String) (machines : List CompiledMachine)
    (folder after : Folder) : Prop where
  stored : ∃ made, Prepared directory folder made ∧
    Stored directory (machines.flatMap filesOf) made after
  /-- If no two files have the same place, every machine has both of its files. -/
  apart : ((machines.flatMap filesOf).map fun file => placeIn directory file.1).Nodup →
    ∀ machine ∈ machines, ∀ file ∈ filesOf machine,
      after.look (placeIn directory file.1) = .file file.2
  /-- If no name has a slash, no two files have the same place: they lie in the directory
  under their names. -/
  plain : (∀ machine ∈ machines, '/' ∉ machine.name.toList) →
    ((machines.flatMap filesOf).map fun file => placeIn directory file.1).Nodup ∧
    ∀ machine ∈ machines, ∀ file ∈ filesOf machine,
      placeIn directory file.1 = placeOf (namesOf directory) ++ [file.1]

/-- The endings of the two files of a machine differ. -/
theorem endings_ne (first second : String) :
    first ++ ".asl.json" ≠ second ++ ".functions.json" := by
  intro h
  have hchars := congrArg String.toList h
  rw [String.toList_append, String.toList_append] at hchars
  have hends : ".functions.json".toList = ".funct".toList ++ "ions.json".toList := by
    decide +kernel
  rw [hends, ← List.append_assoc] at hchars
  have hsame := List.append_inj_right' hchars (by decide +kernel)
  exact absurd hsame (by decide +kernel)

/-- Files of machines with names of their own have names of their own. -/
theorem nodup_files {machines : List CompiledMachine}
    (h : (machines.map CompiledMachine.name).Nodup) :
    ((machines.flatMap filesOf).map Prod.fst).Nodup := by
  rw [List.map_flatMap, List.nodup_flatMap]
  refine ⟨fun machine _ => ?_, (List.pairwise_map.mp h).imp ?_⟩
  · have hends := endings_ne machine.name machine.name
    simp [filesOf, hends]
  · intro first second hne
    have hends := endings_ne first.name second.name
    have hends' := endings_ne second.name first.name
    simp [filesOf, Function.onFun, hends', Ne.symm hends, Ne.symm hne]

theorem placeIn_file {machine : CompiledMachine} (hslash : '/' ∉ machine.name.toList)
    {file : String × String} (hfile : file ∈ filesOf machine) (directory : String) :
    placeIn directory file.1 = placeOf (namesOf directory) ++ [file.1] := by
  rcases List.mem_pair.mp hfile with rfl | rfl
  · exact placeIn_append hslash (by decide +kernel) (by decide +kernel) directory
  · exact placeIn_append hslash (by decide +kernel) (by decide +kernel) directory

theorem filed_of_stored {machines : List CompiledMachine} {made : Folder}
    (hdistinct : (machines.map CompiledMachine.name).Nodup)
    (hmade : Prepared directory folder made)
    (h : Stored directory (machines.flatMap filesOf) made after) :
    Filed directory machines folder after where
  stored := ⟨made, hmade, h⟩
  apart hplaces machine hmachine file hfile := by
    obtain ⟨earlier, later, hsplit⟩ :=
      List.append_of_mem (List.mem_flatMap.mpr ⟨machine, hmachine, hfile⟩)
    refine h.kept hsplit ?_
    intro other hother heq
    rw [hsplit, List.map_append, List.map_cons] at hplaces
    have hfresh := (List.nodup_cons.mp hplaces.of_append_right).1
    exact hfresh (heq ▸ List.mem_map_of_mem hother)
  plain hslash := by
    have hplace : ∀ machine ∈ machines, ∀ file ∈ filesOf machine,
        placeIn directory file.1 = placeOf (namesOf directory) ++ [file.1] :=
      fun machine hmachine file hfile => placeIn_file (hslash machine hmachine) hfile directory
    refine ⟨?_, hplace⟩
    have hplaces : (machines.flatMap filesOf).map (fun file => placeIn directory file.1) =
        ((machines.flatMap filesOf).map Prod.fst).map fun name =>
          placeOf (namesOf directory) ++ [name] := by
      rw [List.map_map]
      refine List.map_congr_left ?_
      intro file hfile
      obtain ⟨machine, hmachine, hfile⟩ := List.mem_flatMap.mp hfile
      exact hplace machine hmachine file hfile
    rw [hplaces]
    refine (nodup_files hdistinct).map ?_
    intro first second heq
    exact List.singleton_inj.mp (List.append_cancel_left heq)

end Program

end TaskMachine
