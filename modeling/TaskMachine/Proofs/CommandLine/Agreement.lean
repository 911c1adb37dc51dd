import TaskMachine.Proofs.CommandLine.Outputs

/-!
# Checking and compiling from the command line

`check` goes through the state machines of a manifest and stops at the first one that fails.
`compile` compiles all of them before it prints or writes anything.  So it fails as well where
`check` does: for the same fault, or because a variable is missing for a machine before that.
Where `check` passes, a missing variable is all that can stop `compile`, apart from a panic
and from a file that the system refuses; if nothing stops it, there is an entry for every
machine (`Program.commands_agree`).  Two machines may get the same files, though, if a name
has a slash (`Program.commands_agree_shared`).
-/

namespace TaskMachine

namespace Manifest

variable {manifest : Manifest} {settings : Settings}

/-- The checks of certain machines leave these plans. -/
def Checked (manifest : Manifest) (settings : Settings) (names : List String)
    (plans : List Plan) : Prop :=
  List.Forall₂ (fun name plan => manifest.check settings name = .ok plan) names plans

/-- The lines for machines that were checked. -/
def checkedLines (names : List String) (plans : List Plan) : String :=
  String.join (List.zipWith (fun name plan =>
    "ok  " ++ name ++ " (" ++ toString plan.size ++ " compute units)\n") names plans)

theorem checkedLines_cons (name : String) (names : List String) (plan : Plan)
    (plans : List Plan) : checkedLines (name :: names) (plan :: plans) =
      checkedLine name plan ++ checkedLines names plans := by
  unfold checkedLines
  rw [List.zipWith_cons_cons, String.join_cons]
  rfl

/-- Compiling all machines over some variables comes to a fault. -/
def FailsWith (manifest : Manifest) (settings : Settings) (values : SortedMap String)
    (root : CompileFault) : Prop :=
  ∃ after, Provide.run (manifest.compileAll settings UnitRegistry.create) ⟨values, .empty⟩ =
    (.error root, after)

/-- What is said where the check of a machine fails. -/
def checkFailure (name : String) (fault : CompileFault) : Failure :=
  ⟨"'" ++ name ++ "' failed to compile", fault.messages⟩

theorem Checked.passes {names : List String} {plans : List Plan}
    (h : manifest.Checked settings names plans) :
    ∀ name ∈ names, manifest.Passes settings name :=
  forall_mem_of_forall₂ h fun _ plan hcheck => ⟨plan, hcheck⟩

/-- Checks end with a line for every machine, or at the first one that fails. -/
theorem checkEach_cases (manifest : Manifest) (settings : Settings) (names : List String) :
    (∃ plans, manifest.Checked settings names plans ∧
      manifest.checkEach settings names = (checkedLines names plans, none)) ∨
    ∃ before plans name rest fault, names = before ++ name :: rest ∧
      manifest.Checked settings before plans ∧ manifest.check settings name = .error fault ∧
      manifest.checkEach settings names =
        (checkedLines before plans, some (checkFailure name fault)) := by
  induction names with
  | nil => exact .inl ⟨[], .nil, rfl⟩
  | cons name rest ih =>
      unfold checkEach
      cases hcheck : manifest.check settings name with
      | error fault => exact .inr ⟨[], [], name, rest, fault, rfl, .nil, hcheck, rfl⟩
      | ok plan =>
          dsimp only
          rcases ih with ⟨plans, hchecked, heach⟩ | ⟨before, plans, failing, later, fault, rfl,
            hchecked, hfails, heach⟩
          · refine .inl ⟨plan :: plans, .cons hcheck hchecked, ?_⟩
            rw [heach, checkedLines_cons]
          · refine .inr ⟨name :: before, plan :: plans, failing, later, fault, rfl,
              .cons hcheck hchecked, hfails, ?_⟩
            rw [heach, checkedLines_cons]

end Manifest

namespace Program

/-- The outcome of a compilation with a fault. -/
def notCompiled (fault : CompileFault) (folder : Folder) : Outcome :=
  failed ⟨"failed to compile manifest", fault.messages⟩ folder

/-- A check tells of the machines before the first one that fails, and writes nothing. -/
structure TellsChecks (manifest : Manifest) (settings : Settings) (folder : Folder)
    (checked : Outcome) : Prop where
  status_iff : checked.1.status = 0 ↔
    ∀ machine ∈ manifest.stateMachines, manifest.Passes settings machine.name
  lines : ∃ before plans rest, manifest.machineNames = before ++ rest ∧
    manifest.Checked settings before plans ∧
    checked.1.stdout = Manifest.checkedLines before plans ∧
    ∀ name ∈ rest.head?, ¬ manifest.Passes settings name
  writes : checked.2 = folder

/-- How the outcomes of the two commands on a folder belong together.  There are no values if
the variables are not Unicode. -/
structure CommandsAgree (manifest : Manifest) (settings : Settings)
    (environment : Option (SortedMap String)) (outDir : Option String) (folder : Folder)
    (checked compiled : Outcome) : Prop where
  check : TellsChecks manifest settings folder checked
  /-- Without variables that are Unicode a compilation panics. -/
  panics : environment = none → compiled = ({ status := 101 }, folder)
  /-- A compilation that succeeds has one entry for every machine. -/
  all : compiled.1.status = 0 → manifest.machineNames.Nodup ∧ ∃ values ∈ environment,
    ∃ machines, List.Forall₂ (manifest.Made settings values) manifest.machineNames machines ∧
      Delivers outDir machines folder compiled
  /-- Where a check fails, a compilation fails for the same fault, or for want of a variable
  in a machine before. -/
  refused : ∀ values ∈ environment, checked.1.status ≠ 0 → ∃ before name fault root,
    manifest.FailsFirst settings before name fault ∧
    checked.1.stderr = (Manifest.checkFailure name fault).text ∧
    manifest.FailsWith settings values root ∧ compiled = notCompiled root folder ∧
    (root = fault ∨ ∃ earlier ∈ before, manifest.LacksVariable settings values earlier root)
  /-- After a check that passes, it fails only for want of a variable, or since the system
  refuses a file. -/
  accepted : ∀ values ∈ environment, checked.1.status = 0 → compiled.1.status ≠ 0 →
    (∃ name ∈ manifest.machineNames, ∃ root,
      manifest.LacksVariable settings values name root ∧
      manifest.FailsWith settings values root ∧ compiled = notCompiled root folder) ∨
    ∃ machines, List.Forall₂ (manifest.Made settings values) manifest.machineNames machines ∧
      Prevented outDir machines folder compiled

variable {environment : Option (SortedMap String)} {values : SortedMap String} {folder : Folder}
  {path text : String} {manifest : Manifest} {handlerPrefix outDir : Option String}
  {checkWords compileWords : List String}

/-- A compilation delivers all machines, or there is a first one that is not compiled. -/
theorem compile_cases (values : SortedMap String)
    (hcompile : Arguments.parse compileWords = .run handlerPrefix (.compile path [] outDir))
    (htext : folder.readText path = .ok text) (hmanifest : Manifest.ofText text = .ok manifest) :
    (∃ machines,
      List.Forall₂ (manifest.Made (settingsOf handlerPrefix) values) manifest.machineNames
        machines ∧
      outcome (some values) folder compileWords =
        delivered (some values) outDir machines folder) ∨
    ∃ root done name rest, manifest.machineNames = done ++ name :: rest ∧
      (∀ earlier ∈ done, manifest.Passes (settingsOf handlerPrefix) earlier) ∧
      (manifest.check (settingsOf handlerPrefix) name = .error root ∨
        manifest.LacksVariable (settingsOf handlerPrefix) values name root) ∧
      manifest.FailsWith (settingsOf handlerPrefix) values root ∧
      outcome (some values) folder compileWords = notCompiled root folder := by
  have hall := manifest.compileAll_inOrder (settingsOf handlerPrefix) values
  have hnamed : ((manifest.compileNamed (settingsOf handlerPrefix) UnitRegistry.create []).run
      ⟨values, .empty⟩).1 =
        (Provide.run (manifest.compileAll (settingsOf handlerPrefix) UnitRegistry.create)
          ⟨values, .empty⟩).1.mapError fun fault =>
            ⟨"failed to compile manifest", fault.messages⟩ := rfl
  rw [outcome_compile values hcompile htext hmanifest, hnamed]
  cases hrun : Provide.run (manifest.compileAll (settingsOf handlerPrefix) UnitRegistry.create)
      ⟨values, .empty⟩ with
  | mk result after =>
      cases result with
      | ok machines => exact .inl ⟨machines, hall.of_ok hrun, rfl⟩
      | error fault =>
          obtain ⟨done, name, rest, hsplit, hdone, hfault⟩ := hall.of_error hrun
          exact .inr ⟨fault, done, name, rest, hsplit, hdone, hfault, ⟨after, hrun⟩, rfl⟩

theorem tellsChecks (manifest : Manifest) (settings : Settings) (folder : Folder) :
    TellsChecks manifest settings folder
      (announced folder (manifest.checkEach settings manifest.machineNames)) where
  status_iff := by
    rcases manifest.checkEach_cases settings manifest.machineNames with
      ⟨plans, hchecked, heach⟩ | ⟨before, plans, name, rest, fault, hsplit, _, hfails, heach⟩
    · rw [heach]
      refine iff_of_true rfl ?_
      intro machine hmachine
      exact hchecked.passes machine.name (List.mem_map_of_mem hmachine)
    · rw [heach]
      refine iff_of_false Nat.one_ne_zero ?_
      intro hall
      obtain ⟨machine, hmachine, rfl⟩ := List.mem_map.mp (mem_of_split hsplit)
      exact Manifest.not_passes hfails (hall machine hmachine)
  lines := by
    rcases manifest.checkEach_cases settings manifest.machineNames with
      ⟨plans, hchecked, heach⟩ | ⟨before, plans, name, rest, fault, hsplit, hchecked, hfails, heach⟩
    · rw [heach]
      exact ⟨_, plans, [], (List.append_nil _).symm, hchecked, rfl, by simp⟩
    · rw [heach]
      refine ⟨before, plans, name :: rest, hsplit, hchecked, rfl, ?_⟩
      rintro _ ⟨⟩
      exact Manifest.not_passes hfails
  writes := by
    rcases manifest.checkEach settings manifest.machineNames with ⟨lines, failure⟩
    cases failure <;> rfl

/-- A check that does not pass tells of the first machine that fails. -/
theorem failsFirst_of_status
    (hcheck : Arguments.parse checkWords = .run handlerPrefix (.check path))
    (htext : folder.readText path = .ok text) (hmanifest : Manifest.ofText text = .ok manifest)
    (hstatus : (outcome environment folder checkWords).1.status ≠ 0) :
    ∃ before name fault, manifest.FailsFirst (settingsOf handlerPrefix) before name fault ∧
      (outcome environment folder checkWords).1.stderr =
        (Manifest.checkFailure name fault).text := by
  rw [outcome_check environment hcheck htext hmanifest] at hstatus ⊢
  rcases manifest.checkEach_cases (settingsOf handlerPrefix) manifest.machineNames with
    ⟨plans, _, heach⟩ | ⟨before, plans, name, rest, fault, hsplit, hchecked, hfails, heach⟩
  · rw [heach] at hstatus
    exact absurd rfl hstatus
  · rw [heach]
    exact ⟨before, name, fault, ⟨⟨rest, hsplit⟩, hchecked.passes, hfails⟩, rfl⟩

/-- Checking and compiling all state machines of a manifest that can be read.  A compilation
that does not succeed leaves nothing, whether it is of all machines or of some, unless the
system refuses a file. -/
theorem commands_agree (environment : Option (SortedMap String))
    (hcheck : Arguments.parse checkWords = .run handlerPrefix (.check path))
    (hcompile : Arguments.parse compileWords = .run handlerPrefix (.compile path [] outDir))
    (htext : folder.readText path = .ok text) (hmanifest : Manifest.ofText text = .ok manifest) :
    CommandsAgree manifest (settingsOf handlerPrefix) environment outDir folder
        (outcome environment folder checkWords) (outcome environment folder compileWords) ∧
      ∀ words resources directory,
        Arguments.parse words = .run handlerPrefix (.compile path resources directory) →
        (outcome environment folder words).1.status ≠ 0 →
        (outcome environment folder words).1.stdout = "" ∧
          ((outcome environment folder words).2 = folder ∨
            ∃ machines, Prevented directory machines folder
              (outcome environment folder words)) := by
  have htold := tellsChecks manifest (settingsOf handlerPrefix) folder
  rw [← outcome_check environment hcheck htext hmanifest] at htold
  refine ⟨⟨htold, ?panics, ?all, ?refused, ?accepted⟩, ?nothing⟩
  case panics =>
    rintro rfl
    exact outcome_panicked hcompile htext hmanifest
  case all =>
    intro hstatus
    cases environment with
    | none =>
        rw [outcome_panicked hcompile htext hmanifest] at hstatus
        exact absurd hstatus (show panicked.status ≠ 0 by decide)
    | some values =>
        rcases compile_cases values hcompile htext hmanifest with
          ⟨machines, hmade, houtcome⟩ | ⟨root, _, _, _, _, _, _, _, houtcome⟩
        · have hdistinct := Manifest.nodup_machineNames (Manifest.passes_of_made hmade)
          refine ⟨hdistinct, values, rfl, machines, hmade, ?_⟩
          rw [houtcome] at hstatus ⊢
          rw [← Manifest.map_name_of_made hmade] at hdistinct
          rcases delivered_cases (some values) outDir machines folder with ⟨-, hdelivers⟩ | hprevented
          · exact hdelivers hdistinct
          · rw [hprevented.status.1] at hstatus
            exact absurd hstatus Nat.one_ne_zero
        · rw [houtcome] at hstatus
          exact absurd hstatus Nat.one_ne_zero
  case refused =>
    rintro values rfl hstatus
    obtain ⟨before, name, fault, hfirst, hstderr⟩ :=
      failsFirst_of_status hcheck htext hmanifest hstatus
    rcases compile_cases values hcompile htext hmanifest with
      ⟨machines, hmade, _⟩ | ⟨root, done, other, rest, hsplit, hdone, hroot, hwith, houtcome⟩
    · exact absurd (Manifest.passes_of_made hmade name hfirst.mem)
        (Manifest.not_passes hfirst.fails)
    · exact ⟨before, name, fault, root, hfirst, hstderr, hwith, houtcome,
        hfirst.root hsplit hdone hroot⟩
  case accepted =>
    rintro values rfl hpassed hstatus
    rcases compile_cases values hcompile htext hmanifest with
      ⟨machines, hmade, houtcome⟩ | ⟨root, done, name, rest, hsplit, _, hroot, hwith, houtcome⟩
    · rw [houtcome] at hstatus ⊢
      rcases delivered_cases (some values) outDir machines folder with ⟨hzero, -⟩ | hprevented
      · exact absurd hzero hstatus
      · exact .inr ⟨machines, hmade, hprevented⟩
    · have hmem := mem_of_split hsplit
      obtain ⟨machine, hmachine, rfl⟩ := List.mem_map.mp hmem
      have hpasses := htold.status_iff.mp hpassed machine hmachine
      rcases hroot with hfails | hlacks
      · exact absurd hpasses (Manifest.not_passes hfails)
      · exact .inl ⟨machine.name, hmem, root, hlacks, hwith, houtcome⟩
  case nothing =>
    intro words resources directory hwords
    exact nothing_of_status environment hwords htext hmanifest

/-- A manifest with one machine, whose function takes over a variable. -/
def noticeText : String :=
  "[[\x7b\"name\":\"n\",\"source\":[\"c\",\"n\"],\"type\":\"state_machine\"," ++
  "\"start_at\":\"s\",\"tasks\":[[\"s\",[null,null,18,[\"T\"]]]]\x7d]]"

/-- A folder with this manifest. -/
def notice : Folder := ⟨[("m", .file noticeText)]⟩

/-- The check passes.  Without the variable the compilation fails, and with it the files of
the machine lie in the directory. -/
theorem commands_agree_notice :
    ∃ manifest, Manifest.ofText noticeText = .ok manifest ∧
      CommandsAgree manifest {} (some .empty) none notice
        (outcome (some .empty) notice ["check", "m"])
        (outcome (some .empty) notice ["compile", "m"]) ∧
      CommandsAgree manifest {} (some (.ofList [("T", "v")])) (some "out") notice
        (outcome (some (.ofList [("T", "v")])) notice ["check", "m"])
        (outcome (some (.ofList [("T", "v")])) notice ["compile", "m", "--out-dir", "out"]) ∧
      (outcome (some .empty) notice ["check", "m"]).1.status = 0 ∧
      (outcome (some .empty) notice ["compile", "m"]).1.status = 1 ∧
      (outcome (some (.ofList [("T", "v")])) notice
        ["compile", "m", "--out-dir", "out"]).1.status = 0 ∧
      (outcome (some (.ofList [("T", "v")])) notice
        ["compile", "m", "--out-dir", "out"]).2.paths.map Prod.fst =
          ["m", "out", "out/n.asl.json", "out/n.functions.json"] := by
  have hsome : (Manifest.ofText noticeText).toOption.isSome = true := by decide +kernel
  obtain ⟨manifest, hmanifest⟩ := Option.isSome_iff_exists.mp hsome
  have hread := toOption_eq_some.mp hmanifest
  have hcheck : Arguments.parse ["check", "m"] = .run none (.check "m") := by decide +kernel
  have hprint : Arguments.parse ["compile", "m"] = .run none (.compile "m" [] none) := by
    decide +kernel
  have hwrite : Arguments.parse ["compile", "m", "--out-dir", "out"] =
      .run none (.compile "m" [] (some "out")) := by
    decide +kernel
  have htext : notice.readText "m" = .ok noticeText := toOption_eq_some.mp (by decide +kernel)
  refine ⟨manifest, hread, ?_, ?_, by decide +kernel⟩
  · exact (commands_agree (some .empty) hcheck hprint htext hread).1
  · exact (commands_agree (some (.ofList [("T", "v")])) hcheck hwrite htext hread).1

/-- A manifest with two machines, whose names differ by a step that stays in place. -/
def sharedText : String :=
  "[[\x7b\"name\":\"a\",\"source\":[\"c\",\"n\"],\"type\":\"state_machine\"," ++
  "\"start_at\":\x7b\"type\":\"pass\",\"end\":true\x7d,\"tasks\":[]\x7d," ++
  "\x7b\"name\":\"./a\",\"source\":[\"c\",\"n\"],\"type\":\"state_machine\"," ++
  "\"start_at\":\x7b\"type\":\"succeed\"\x7d,\"tasks\":[]\x7d]]"

/-- A folder with this manifest. -/
def shared : Folder := ⟨[("m", .file sharedText)]⟩

/-- Two machines are compiled, and one pair of files is left.  With variables that are not
Unicode the check passes, and the compilation panics. -/
theorem commands_agree_shared :
    (Manifest.ofText sharedText).toOption.map Manifest.machineNames = some ["a", "./a"] ∧
      (outcome (some .empty) shared ["compile", "m", "--out-dir", "out"]).1.status = 0 ∧
      (outcome (some .empty) shared ["compile", "m", "--out-dir", "out"]).2.paths.map Prod.fst =
        ["m", "out", "out/a.asl.json", "out/a.functions.json"] ∧
      (outcome none shared ["check", "m"]).1.status = 0 ∧
      (outcome none shared ["compile", "m"]).1.status = 101 := by
  decide +kernel

end Program

end TaskMachine
