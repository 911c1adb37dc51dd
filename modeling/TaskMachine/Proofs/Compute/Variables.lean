import TaskMachine.Proofs.Compute.Interleaving
import TaskMachine.Proofs.Json.Obtained

/-!
# The variables of a function

A function has the variables that the entries of its declaration speak of, and each has the
value of the last entry about it (`EnvEntry.Resolved`).  An entry gives a value to a variable
in one of three ways (`EnvEntry.Gives`).  Only an entry that takes a variable over can fail
to; the first one that does is the fault (`EnvEntry.FirstUnset`).

The entries are resolved from the first on, so the proofs go by induction on their list: one
more entry in front changes the value of a variable only if no later entry is about it.
-/

namespace TaskMachine

namespace EnvEntry

/-! ## What entries say -/

/-- An entry is about a variable: it takes it over, or has a value for it. -/
def Defines : EnvEntry → String → Prop
  | .inherited taken, name => taken = name
  | .literal values, name => name ∈ values.keys

/-- The value that an entry gives to a variable: the one in an environment, a string as it
is, or the text of any other value. -/
inductive Gives (environment : SortedMap String) : EnvEntry → String → String → Prop
  | inherited {name value : String} (h : environment.get? name = some value) :
      Gives environment (.inherited name) name value
  | text {values : SortedMap Json} {name text : String}
      (h : values.get? name = some (.str text)) : Gives environment (.literal values) name text
  | other {values : SortedMap Json} {name : String} {value : Json}
      (h : values.get? name = some value) (hother : ∀ text, value ≠ .str text) :
      Gives environment (.literal values) name value.compact

/-- The value of a variable comes from the last entry about it. -/
def LastGives (environment : SortedMap String) (entries : List EnvEntry)
    (name value : String) : Prop :=
  ∃ earlier entry later, entries = earlier ++ entry :: later ∧
    entry.Gives environment name value ∧ ∀ other ∈ later, ¬ other.Defines name

/-- The variables that entries are about, each with the value of the last of them. -/
structure Resolved (environment : SortedMap String) (entries : List EnvEntry)
    (resolved : SortedMap String) : Prop where
  keys : ∀ name, name ∈ resolved.keys ↔ ∃ entry ∈ entries, entry.Defines name
  values : ∀ name value, resolved.get? name = some value ↔
    LastGives environment entries name value

/-- Every variable that is taken over is set. -/
def AllSet (environment : SortedMap String) (entries : List EnvEntry) : Prop :=
  ∀ name, .inherited name ∈ entries → (environment.get? name).isSome

/-- The first variable that is taken over and not set. -/
def FirstUnset (environment : SortedMap String) (entries : List EnvEntry) (name : String) :
    Prop :=
  ∃ earlier later, entries = earlier ++ .inherited name :: later ∧
    AllSet environment earlier ∧ environment.get? name = none

variable {environment : SortedMap String} {entry : EnvEntry} {entries : List EnvEntry}
  {name value : String}

theorem lastGives_nil : ¬ LastGives environment [] name value := by
  rintro ⟨earlier, entry, later, heq, -⟩
  exact absurd heq (by simp)

/-- An entry in front counts for a variable where no later one is about it. -/
theorem lastGives_cons :
    LastGives environment (entry :: entries) name value ↔
      LastGives environment entries name value ∨
        (entry.Gives environment name value ∧ ∀ other ∈ entries, ¬ other.Defines name) := by
  constructor
  · rintro ⟨earlier, last, later, heq, hgives, hlater⟩
    cases earlier with
    | nil =>
        obtain ⟨rfl, rfl⟩ := List.cons.inj heq
        exact .inr ⟨hgives, hlater⟩
    | cons first earlier =>
        obtain ⟨-, rfl⟩ := List.cons.inj heq
        exact .inl ⟨earlier, last, later, rfl, hgives, hlater⟩
  · rintro (⟨earlier, last, later, rfl, hgives, hlater⟩ | ⟨hgives, hlater⟩)
    · exact ⟨entry :: earlier, last, later, rfl, hgives, hlater⟩
    · exact ⟨[], entry, entries, rfl, hgives, hlater⟩

theorem allSet_cons (hentry : ∀ name, entry = .inherited name → (environment.get? name).isSome)
    (h : AllSet environment entries) : AllSet environment (entry :: entries) := by
  intro name hname
  rcases List.mem_cons.mp hname with heq | hrest
  · exact hentry name heq.symm
  · exact h name hrest

theorem FirstUnset.cons
    (hentry : ∀ name, entry = .inherited name → (environment.get? name).isSome)
    (h : FirstUnset environment entries name) :
    FirstUnset environment (entry :: entries) name := by
  obtain ⟨earlier, later, rfl, hset, hnone⟩ := h
  exact ⟨entry :: earlier, later, rfl, allSet_cons hentry hset, hnone⟩

/-- Where one variable is not set, not all of them are. -/
theorem FirstUnset.not_allSet (h : FirstUnset environment entries name) :
    ¬ AllSet environment entries := by
  obtain ⟨earlier, later, rfl, -, hnone⟩ := h
  intro hall
  have hset := hall name (List.mem_append_right _ List.mem_cons_self)
  rw [hnone] at hset
  cases hset

end EnvEntry

/-! ## Resolving entries -/

namespace UnitRegistry

open EnvEntry

variable {environment : SortedMap String} {function name value : String} {entry : EnvEntry}
  {entries : List EnvEntry}

@[simp] theorem variableText_str (text : String) : variableText (.str text) = text := rfl

theorem variableText_of_ne {value : Json} (h : ∀ text, value ≠ .str text) :
    variableText value = value.compact := by
  unfold variableText Json.asString?
  split
  next text hraw => exact absurd (Json.ext hraw) (h text)
  next => rfl

/-- A literal gives the text of its value to a variable. -/
theorem gives_literal_iff {values : SortedMap Json} :
    (EnvEntry.literal values).Gives environment name value ↔
      (values.get? name).map variableText = some value := by
  constructor
  · intro h
    cases h with
    | text h => rw [h, Option.map_some, variableText_str]
    | other h hother => rw [h, Option.map_some, variableText_of_ne hother]
  · intro h
    obtain ⟨json, hjson, rfl⟩ := Option.map_eq_some_iff.mp h
    by_cases htext : ∃ text, json = .str text
    · obtain ⟨text, rfl⟩ := htext
      exact .text hjson
    · have hother : ∀ text, json ≠ .str text := fun text heq => htext ⟨text, heq⟩
      rw [variableText_of_ne hother]
      exact .other hjson hother

/-- A variable that is taken over has to be set. -/
theorem entryVariables_inherited (environment : SortedMap String) (function name : String) :
    (∃ value, environment.get? name = some value ∧
      entryVariables environment function (.inherited name) = .ok [(name, value)]) ∨
    (environment.get? name = none ∧
      entryVariables environment function (.inherited name) =
        .error (.missingVariable function name)) := by
  cases hset : environment.get? name with
  | some value => exact .inl ⟨value, rfl, by simp [entryVariables, hset]⟩
  | none => exact .inr ⟨rfl, by simp [entryVariables, hset]⟩

/-- An entry is resolved, or it takes over what is not set. -/
theorem entryVariables_cases (environment : SortedMap String) (function : String)
    (entry : EnvEntry) :
    (∃ pairs, entryVariables environment function entry = .ok pairs ∧
      ∀ name, entry = .inherited name → (environment.get? name).isSome) ∨
    ∃ name, entry = .inherited name ∧ environment.get? name = none ∧
      entryVariables environment function entry = .error (.missingVariable function name) := by
  cases entry with
  | literal values => exact .inl ⟨_, rfl, fun _ heq => nomatch heq⟩
  | inherited taken =>
      rcases entryVariables_inherited environment function taken with
        ⟨found, hset, heq⟩ | ⟨hset, heq⟩
      · refine .inl ⟨_, heq, fun name hname => ?_⟩
        cases hname
        rw [hset]
        rfl
      · exact .inr ⟨taken, rfl, hset, heq⟩

/-- The variables of a literal are its fields. -/
theorem ofList_literal (values : SortedMap Json) :
    SortedMap.ofList (values.entries.map fun (name, value) => (name, variableText value)) =
      values.mapValues variableText :=
  SortedMap.ofList_entries (values.mapValues variableText)

/-- An entry is resolved to what it gives. -/
theorem get?_ofList_entryVariables {pairs : List (String × String)}
    (h : entryVariables environment function entry = .ok pairs) :
    (SortedMap.ofList pairs).get? name = some value ↔
      entry.Gives environment name value := by
  cases entry with
  | inherited taken =>
      rcases entryVariables_inherited environment function taken with
        ⟨found, hset, heq⟩ | ⟨-, heq⟩
      · obtain rfl := Except.ok.inj (heq.symm.trans h)
        rw [SortedMap.get?_ofList_singleton]
        constructor
        · intro hget
          obtain ⟨rfl, rfl⟩ : taken = name ∧ found = value := by simpa using hget
          exact .inherited hset
        · intro hgives
          cases hgives with
          | inherited hvalue =>
              rw [hset] at hvalue
              simpa using hvalue
      · rw [heq] at h
        cases h
  | literal values =>
      cases h
      rw [ofList_literal, SortedMap.get?_mapValues, gives_literal_iff]

/-- So it gives something to the variables that it is about. -/
theorem isSome_get?_ofList_entryVariables {pairs : List (String × String)}
    (h : entryVariables environment function entry = .ok pairs) :
    ((SortedMap.ofList pairs).get? name).isSome ↔ entry.Defines name := by
  cases entry with
  | inherited taken =>
      rcases entryVariables_inherited environment function taken with
        ⟨found, -, heq⟩ | ⟨-, heq⟩
      · obtain rfl := Except.ok.inj (heq.symm.trans h)
        rw [SortedMap.get?_ofList_singleton, Defines]
        by_cases hsame : taken = name <;> simp [hsame]
      · rw [heq] at h
        cases h
  | literal values =>
      cases h
      rw [ofList_literal, SortedMap.get?_mapValues, Option.isSome_map, Defines,
        SortedMap.mem_keys_iff]

/-- Entries that are resolved in order, where later ones take the place of earlier ones. -/
theorem resolved_of_mapM {all : List (List (String × String))}
    (h : entries.mapM (entryVariables environment function) = .ok all) :
    Resolved environment entries (.ofList all.flatten) := by
  induction entries generalizing all with
  | nil =>
      cases h
      refine ⟨fun name => ?_, fun name value => ?_⟩
      · simp [SortedMap.ofList, SortedMap.empty, SortedMap.keys]
      · simp [SortedMap.ofList, lastGives_nil]
  | cons entry rest ih =>
      rw [List.mapM_cons] at h
      obtain ⟨first, hfirst, hrest⟩ := exists_of_bind_eq_ok h
      obtain ⟨later, hlater, heq⟩ := exists_of_bind_eq_ok hrest
      cases heq
      have hresolved := ih hlater
      have hget : ∀ name, (SortedMap.ofList (first :: later).flatten).get? name =
          ((SortedMap.ofList later.flatten).get? name).or
            ((SortedMap.ofList first).get? name) := by
        intro name
        rw [List.flatten_cons, SortedMap.get?_ofList_append]
      refine ⟨fun name => ?_, fun name value => ?_⟩
      · rw [SortedMap.mem_keys_iff, hget, Option.isSome_or, Bool.or_eq_true,
          ← SortedMap.mem_keys_iff, hresolved.keys,
          isSome_get?_ofList_entryVariables hfirst, List.exists_mem_cons_iff, or_comm]
      · rw [hget, lastGives_cons, ← hresolved.values, Option.or_eq_some_iff,
          get?_ofList_entryVariables hfirst]
        have hnone : (SortedMap.ofList later.flatten).get? name = none ↔
            ∀ other ∈ rest, ¬ other.Defines name := by
          rw [← Option.not_isSome_iff_eq_none, ← SortedMap.mem_keys_iff, hresolved.keys]
          simp
        rw [hnone, and_comm]

/-- Entries are resolved to the end where all that they take over is set, and else up to the
first one that is not. -/
theorem mapM_entryVariables (environment : SortedMap String) (function : String)
    (entries : List EnvEntry) :
    (AllSet environment entries ∧
      ∃ all, entries.mapM (entryVariables environment function) = .ok all) ∨
    ∃ name, FirstUnset environment entries name ∧
      entries.mapM (entryVariables environment function) =
        .error (.missingVariable function name) := by
  induction entries with
  | nil => exact .inl ⟨fun _ hname => absurd hname List.not_mem_nil, [], rfl⟩
  | cons entry rest ih =>
      rw [List.mapM_cons]
      rcases entryVariables_cases environment function entry with
        ⟨pairs, hpairs, hset⟩ | ⟨name, rfl, hunset, hfails⟩
      · rw [hpairs]
        rcases ih with ⟨hall, all, hrest⟩ | ⟨name, hfirst, hrest⟩
        · refine .inl ⟨allSet_cons hset hall, pairs :: all, ?_⟩
          rw [hrest]
          rfl
        · refine .inr ⟨name, hfirst.cons hset, ?_⟩
          rw [hrest]
          rfl
      · refine .inr ⟨name, ⟨[], rest, rfl, fun _ hname => absurd hname List.not_mem_nil,
          hunset⟩, ?_⟩
        rw [hfails]
        rfl

/-- A function is built where all that it takes over is set, with its variables resolved; the
fault of one that is not is the first variable that is missing. -/
theorem build_cases (environment : SortedMap String) (request : UnitRequest) :
    (AllSet environment request.function.env ∧
      ∃ handle, build environment request = .ok handle ∧
        Resolved environment request.function.env handle.environment) ∨
    ∃ name, FirstUnset environment request.function.env name ∧
      build environment request = .error (.missingVariable request.functionName name) := by
  rcases mapM_entryVariables environment request.functionName request.function.env with
    ⟨hset, all, hall⟩ | ⟨name, hfirst, hfails⟩
  · have hresolved := resolved_of_mapM hall
    obtain ⟨handle, hbuild, henvironment⟩ : ∃ handle, build environment request = .ok handle ∧
        handle.environment = .ofList all.flatten := by
      simp only [build, functionVariables, hall]
      exact ⟨_, rfl, rfl⟩
    rw [← henvironment] at hresolved
    exact .inl ⟨hset, handle, hbuild, hresolved⟩
  · refine .inr ⟨name, hfirst, ?_⟩
    simp only [build, functionVariables, hfails]
    rfl

/-! ## A function that is not there yet -/

/-- A registry has one function more, in an environment that is the same. -/
structure Gains (registry : UnitRegistry) (name : String) (handle : UnitHandle)
    (after : UnitRegistry) : Prop where
  environment : after.environment = registry.environment
  find? : ∀ other, after.find? other =
    if other = name then some handle else registry.find? other

theorem gains_keep {registry : UnitRegistry} (hnew : registry.find? name = none)
    (handle : UnitHandle) :
    (registry.keep name handle).1 = handle ∧
      registry.Gains name handle (registry.keep name handle).2 := by
  have hkeep : registry.keep name handle =
      (handle, { registry with units := registry.units.insert name handle }) := by
    simp only [keep, hnew]
  rw [hkeep]
  refine ⟨rfl, rfl, fun other => ?_⟩
  unfold find?
  rw [SortedMap.get?_insert]
  by_cases hsame : other = name
  · rw [if_pos hsame, if_pos hsame.symm]
  · rw [if_neg hsame, if_neg fun heq => hsame heq.symm]

/-- A function that is asked for the first time is had exactly if every variable that it takes
over is set.  It then has the variables that its entries are about, each as the last of these
has it, and is all that comes to the registry.  If it is not had, the fault is the first
variable that is not set, and the registry stays as it is. -/
theorem create_resolves (registry : UnitRegistry) (request : UnitRequest)
    (hnew : registry.find? request.functionName = none) :
    ((∃ handle, (create request registry).1 = .ok handle) ↔
      AllSet registry.environment request.function.env) ∧
    (∀ handle after, create request registry = (.ok handle, after) →
      handle.functionName = request.functionName ∧
      Resolved registry.environment request.function.env handle.environment ∧
      registry.Gains request.functionName handle after) ∧
    (∀ fault after, create request registry = (.error fault, after) →
      after = registry ∧ ∃ name,
        FirstUnset registry.environment request.function.env name ∧
        fault = .missingVariable request.functionName name) := by
  rcases build_cases registry.environment request with
    ⟨hset, handle, hbuild, hresolved⟩ | ⟨name, hfirst, hbuild⟩
  · obtain ⟨hkept, hgains⟩ := gains_keep hnew handle
    have hcreate : create request registry =
        (.ok handle, (registry.keep request.functionName handle).2) := by
      simp only [create, hnew, hbuild, hkept]
    rw [hcreate]
    refine ⟨iff_of_true ⟨handle, rfl⟩ hset, ?_, by rintro _ _ ⟨⟩⟩
    rintro _ _ ⟨⟩
    exact ⟨functionName_of_build hbuild, hresolved, hgains⟩
  · have hcreate : create request registry =
        (.error (.missingVariable request.functionName name), registry) := by
      simp only [create, hnew, hbuild]
    rw [hcreate]
    refine ⟨iff_of_false (by rintro ⟨_, ⟨⟩⟩) hfirst.not_allSet, by rintro _ _ ⟨⟩, ?_⟩
    rintro _ _ ⟨⟩
    exact ⟨rfl, name, hfirst, rfl⟩

/-- An environment, where `DB_PORT` and `TOKEN` are not set. -/
def staging : SortedMap String := .ofList [("DB_HOST", "db"), ("STAGE", "test")]

/-- A function of entries that overlap: `DB_HOST` is taken over and then has a value of its
own, and `STAGE` has a value and is then taken over. -/
def overlapping (more : List EnvEntry) : UnitRequest where
  resource := "orders"
  source := ⟨"dist", "orders"⟩
  handler := "load"
  function := { env := [.inherited "DB_HOST",
    .literal (.ofList [("DB_HOST", .str "local"), ("RETRIES", .nat 3), ("STAGE", .str "none")]),
    .inherited "STAGE"] ++ more }
  namePrefix := "sf"
  exclusions := []

/-- The last entry about each variable counts.  With two more variables to take over, the
fault is the first of them. -/
theorem create_resolves_overlapping :
    (∃ handle, (create (overlapping []) ⟨staging, .empty⟩).1 = .ok handle ∧
      handle.environment.entries =
        [("DB_HOST", "local"), ("RETRIES", "3"), ("STAGE", "test")] ∧
      Resolved staging (overlapping []).function.env handle.environment) ∧
    ∃ fault, create (overlapping [.inherited "DB_PORT", .inherited "TOKEN"])
        ⟨staging, .empty⟩ = (.error fault, ⟨staging, .empty⟩) ∧
      fault = .missingVariable "sf-orders-load" "DB_PORT" ∧
      ¬ AllSet staging (overlapping [.inherited "DB_PORT", .inherited "TOKEN"]).function.env := by
  obtain ⟨-, hanswer, -⟩ := create_resolves ⟨staging, .empty⟩ (overlapping []) rfl
  obtain ⟨hset, -, -⟩ := create_resolves ⟨staging, .empty⟩
    (overlapping [.inherited "DB_PORT", .inherited "TOKEN"]) rfl
  refine ⟨⟨_, rfl, by decide, (hanswer _ _ rfl).2.1⟩, ⟨_, rfl, rfl, fun hall => ?_⟩⟩
  obtain ⟨handle, hok⟩ := hset.mpr hall
  exact nomatch hok

end UnitRegistry

end TaskMachine
