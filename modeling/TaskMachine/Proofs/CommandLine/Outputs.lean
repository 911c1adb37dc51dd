import TaskMachine.Proofs.CommandLine.Writing
import TaskMachine.Proofs.Compilation.InOrder

/-!
# What commands come to

Commands are run on a folder.  A command comes to an `Outcome` there: its report, and the
folder as it leaves it.

A compilation panics where the variables are not Unicode.  Otherwise it compiles everything
first (`Program.outcome_compile`), and then prints machines or writes their files
(`Program.delivered`).
-/

namespace TaskMachine

namespace Program

/-- The settings that a command line gives. -/
def settingsOf : Option String → Settings
  | some namePrefix => { handlerPrefix := namePrefix }
  | none => {}

/-- What a command comes to: its report, and the folder then. -/
abbrev Outcome := Report × Folder

/-- The outcome of a command line on a folder, with some variables. -/
def outcome (environment : Option (SortedMap String)) (folder : Folder) (words : List String) :
    Outcome :=
  run (Folder.surroundings environment) words folder

/-- The outcome of a command that failed. -/
def failed (failure : Failure) (folder : Folder) : Outcome :=
  ({ status := 1, stderr := failure.text }, folder)

variable {environment : Option (SortedMap String)} {folder : Folder} {path text : String}
  {manifest : Manifest} {handlerPrefix outDir : Option String} {words resources : List String}
  {machines : List CompiledMachine}

theorem run_readManifest (environment : Option (SortedMap String))
    (htext : folder.readText path = .ok text) (hmanifest : Manifest.ofText text = .ok manifest) :
    Part.run (readManifest (Folder.surroundings environment) path) folder =
      (.ok manifest, folder) := by
  have hread : (Folder.surroundings environment).readText path folder = (.ok text, folder) := by
    show ((folder.readText path).mapError FileFault.message, folder) = _
    rw [htext]
    rfl
  have hpart : Part.run (within ("failed to read manifest file: " ++ path)
      ((Folder.surroundings environment).readText path)) folder = (.ok text, folder) := by
    rw [run_within, hread]
    rfl
  unfold readManifest
  rw [Part.run_bind_ok hpart, hmanifest]
  rfl

/-! ## Checks -/

/-- The outcome of checks: the lines of those that passed, and the first failure. -/
def announced (folder : Folder) : String × Option Failure → Outcome
  | (lines, none) => ({ stdout := lines }, folder)
  | (lines, some failure) => ({ status := 1, stdout := lines, stderr := failure.text }, folder)

theorem outcome_check (environment : Option (SortedMap String))
    (hwords : Arguments.parse words = .run handlerPrefix (.check path))
    (htext : folder.readText path = .ok text) (hmanifest : Manifest.ofText text = .ok manifest) :
    outcome environment folder words =
      announced folder (manifest.checkEach (settingsOf handlerPrefix) manifest.machineNames) := by
  have hread : ExceptT.run (readManifest (Folder.surroundings environment) path) folder =
      (.ok manifest, folder) := run_readManifest environment htext hmanifest
  have hreport : ∀ settings, (match manifest.checkEach settings manifest.machineNames with
      | (lines, none) => return { stdout := lines }
      | (lines, some failure) =>
        return { status := 1, stdout := lines, stderr := failure.text } :
        StateM Folder Report) folder =
      announced folder (manifest.checkEach settings manifest.machineNames) := by
    intro settings
    cases manifest.checkEach settings manifest.machineNames with
    | mk lines failure => cases failure <;> rfl
  unfold outcome run
  rw [hwords]
  simp only [bind, StateT.bind, hread]
  cases handlerPrefix with
  | none => exact hreport {}
  | some namePrefix => exact hreport { handlerPrefix := namePrefix }

/-! ## Compilations -/

/-- The outcome of a compilation: what is printed, if it does not panic, or the failure. -/
def reported : Except Failure (Option String) × Folder → Outcome
  | (.ok (some text), folder) => ({ stdout := text }, folder)
  | (.ok none, folder) => (panicked, folder)
  | (.error failure, folder) => failed failure folder

/-- A command whose report is made of the answer of a part of it. -/
theorem bind_eq_reported (part : Part (Option String))
    {next : Except Failure (Option String) → StateM Folder Report}
    (hnext : ∀ result folder, next result folder = reported (result, folder)) (folder : Folder) :
    (part.run >>= next) folder = reported (Part.run part folder) :=
  hnext (Part.run part folder).1 (Part.run part folder).2

theorem outcome_eq_reported (environment : Option (SortedMap String)) (folder : Folder)
    (hwords : Arguments.parse words = .run handlerPrefix (.compile path resources outDir)) :
    outcome environment folder words = reported (Part.run
      (compile (Folder.surroundings environment) (settingsOf handlerPrefix) path resources outDir)
        folder) := by
  unfold outcome run
  rw [hwords]
  cases handlerPrefix with
  | none =>
      refine bind_eq_reported _ ?_ folder
      rintro (failure | _ | text) folder <;> rfl
  | some namePrefix =>
      refine bind_eq_reported _ ?_ folder
      rintro (failure | _ | text) folder <;> rfl

/-- What a compilation prints and writes. -/
def delivered (environment : Option (SortedMap String)) (outDir : Option String)
    (machines : List CompiledMachine) (folder : Folder) : Outcome :=
  match outDir with
  | none => ({ stdout := (CompiledMachine.listToJson machines).pretty ++ "\n" }, folder)
  | some directory =>
    match Part.run (writeOutputs (Folder.surroundings environment) directory machines) folder with
    | (.ok (), after) => ({}, after)
    | (.error failure, after) => failed failure after

theorem run_environment (environment : Option (SortedMap String)) (folder : Folder) :
    Part.run (ExceptT.lift (Folder.surroundings environment).environment) folder =
      (.ok environment, folder) := rfl

/-- A compilation panics if the variables are not Unicode, after it has read the manifest. -/
theorem outcome_panicked
    (hwords : Arguments.parse words = .run handlerPrefix (.compile path resources outDir))
    (htext : folder.readText path = .ok text) (hmanifest : Manifest.ofText text = .ok manifest) :
    outcome none folder words = (panicked, folder) := by
  rw [outcome_eq_reported none folder hwords]
  unfold compile
  rw [Part.run_bind_ok (run_readManifest none htext hmanifest),
    Part.run_bind_ok (run_environment none folder)]
  rfl

/-- Everything is compiled before anything is written. -/
theorem outcome_compile (values : SortedMap String)
    (hwords : Arguments.parse words = .run handlerPrefix (.compile path resources outDir))
    (htext : folder.readText path = .ok text) (hmanifest : Manifest.ofText text = .ok manifest) :
    outcome (some values) folder words =
      match ((manifest.compileNamed (settingsOf handlerPrefix) UnitRegistry.create
        resources).run ⟨values, .empty⟩).1 with
      | .ok machines => delivered (some values) outDir machines folder
      | .error failure => failed failure folder := by
  have hcompile : ∀ result : Except Failure (List CompiledMachine),
      Part.run (ExceptT.mk (pure result)) folder = (result, folder) := fun _ => rfl
  rw [outcome_eq_reported (some values) folder hwords]
  unfold compile
  rw [Part.run_bind_ok (run_readManifest (some values) htext hmanifest),
    Part.run_bind_ok (run_environment (some values) folder)]
  dsimp only
  rw [Part.run_bind, hcompile]
  cases ((manifest.compileNamed (settingsOf handlerPrefix) UnitRegistry.create resources).run
      ⟨values, .empty⟩).1 with
  | error failure => rfl
  | ok machines =>
      cases outDir with
      | none => rfl
      | some directory =>
          dsimp only [delivered]
          rw [Part.run_bind]
          rcases Part.run (writeOutputs _ directory machines) folder with ⟨failure | _, after⟩ <;>
            rfl

/-! ## Deliveries -/

/-- Every machine has its entry in what was printed, or its files in the folder. -/
def Delivers (outDir : Option String) (machines : List CompiledMachine) (folder : Folder)
    (compiled : Outcome) : Prop :=
  match outDir with
  | none => ∃ entries : SortedMap Json,
      compiled = ({ stdout := (Json.obj entries).pretty ++ "\n" }, folder) ∧
      entries.keys.Perm (machines.map CompiledMachine.name) ∧
      ∀ machine ∈ machines, entries.get? machine.name = some (.ofFields
        [("definition", machine.definition),
          ("functions", .arr (machine.functions.map UnitHandle.toJson))])
  | some directory => ∃ after, compiled = ({}, after) ∧ Filed directory machines folder after

/-- The system refuses something that a compilation has to write. -/
def Prevented (outDir : Option String) (machines : List CompiledMachine) (folder : Folder)
    (compiled : Outcome) : Prop :=
  ∃ directory ∈ outDir, ∃ failure after,
    Refuses directory (machines.flatMap filesOf) folder failure after ∧
    compiled = failed failure after

/-- Machines with names of their own are delivered, unless the system refuses something. -/
theorem delivered_cases (environment : Option (SortedMap String)) (outDir : Option String)
    (machines : List CompiledMachine) (folder : Folder) :
    ((delivered environment outDir machines folder).1.status = 0 ∧
      ((machines.map CompiledMachine.name).Nodup →
        Delivers outDir machines folder (delivered environment outDir machines folder))) ∨
    Prevented outDir machines folder (delivered environment outDir machines folder) := by
  cases outDir with
  | some directory =>
      rcases writeOutputs_cases environment directory machines folder with
        ⟨made, after, hmade, hstored, hrun⟩ | ⟨failure, after, hrefuses, hrun⟩
      · have hdelivered : delivered environment (some directory) machines folder =
            ({}, after) := by
          rw [delivered, hrun]
        rw [hdelivered]
        exact .inl ⟨rfl, fun hdistinct => ⟨after, rfl, filed_of_stored hdistinct hmade hstored⟩⟩
      · refine .inr ⟨directory, rfl, failure, after, hrefuses, ?_⟩
        rw [delivered, hrun]
  | none =>
      refine .inl ⟨rfl, fun hdistinct => ?_⟩
      have hnames : (machines.map fun compiled => (compiled.name, compiled.toJson)).map
          Prod.fst = machines.map CompiledMachine.name := by
        rw [List.map_map]
        rfl
      rw [← hnames] at hdistinct
      refine ⟨_, rfl, ?_, ?_⟩
      · rw [← hnames]
        exact SortedMap.keys_ofList_perm hdistinct
      · intro machine hmachine
        exact SortedMap.get?_ofList_of_mem hdistinct (List.mem_map_of_mem hmachine)

theorem Prevented.status {compiled : Outcome} (h : Prevented outDir machines folder compiled) :
    compiled.1.status = 1 ∧ compiled.1.stdout = "" := by
  obtain ⟨directory, -, failure, after, -, rfl⟩ := h
  exact ⟨rfl, rfl⟩

/-- A compilation that does not succeed prints nothing, and writes nothing unless the system
refuses something. -/
theorem nothing_of_status (environment : Option (SortedMap String))
    (hwords : Arguments.parse words = .run handlerPrefix (.compile path resources outDir))
    (htext : folder.readText path = .ok text) (hmanifest : Manifest.ofText text = .ok manifest)
    (hstatus : (outcome environment folder words).1.status ≠ 0) :
    (outcome environment folder words).1.stdout = "" ∧
      ((outcome environment folder words).2 = folder ∨
        ∃ machines, Prevented outDir machines folder (outcome environment folder words)) := by
  cases environment with
  | none =>
      rw [outcome_panicked hwords htext hmanifest]
      exact ⟨rfl, .inl rfl⟩
  | some values =>
      rw [outcome_compile values hwords htext hmanifest] at hstatus ⊢
      split at hstatus
      · rename_i machines _
        rcases delivered_cases (some values) outDir machines folder with ⟨hzero, -⟩ | hprevented
        · exact absurd hzero hstatus
        · exact ⟨hprevented.status.2, .inr ⟨machines, hprevented⟩⟩
      · exact ⟨rfl, .inl rfl⟩

end Program

end TaskMachine
