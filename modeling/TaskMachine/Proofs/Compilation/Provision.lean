import TaskMachine.Compile.Compilation

/-!
# Requests to a factory

`Factory.Serves` is a whole exchange with a factory: requests that it answers one
after the other, with the states it goes through.  `Factory.StopsAt` is one that it
ends with a fault.  `provision_cases` says that providing functions is one of these
two, and that in the first the table holds the functions that came.
-/

namespace TaskMachine

namespace Provide

variable {φ α β : Type}

@[simp] theorem run_pure (answer : α) (state : φ) :
    Provide.run (pure answer : Provide φ α) state = (.ok answer, state) := rfl

theorem run_bind (step : Provide φ α) (next : α → Provide φ β) (state : φ) :
    Provide.run (step >>= next) state =
      match Provide.run step state with
      | (.ok answer, after) => Provide.run (next answer) after
      | (.error fault, after) => (.error fault, after) := by
  unfold Provide.run ExceptT.run
  simp only [bind, ExceptT.bind, ExceptT.mk, StateT.bind, ExceptT.bindCont]
  cases step state with
  | mk result after =>
      cases result <;> rfl

theorem run_bind_ok {step : Provide φ α} {next : α → Provide φ β} {state after : φ}
    {answer : α} (h : Provide.run step state = (.ok answer, after)) :
    Provide.run (step >>= next) state = Provide.run (next answer) after := by
  rw [run_bind, h]

theorem run_bind_error {step : Provide φ α} {next : α → Provide φ β} {state after : φ}
    {fault : CompileFault} (h : Provide.run step state = (.error fault, after)) :
    Provide.run (step >>= next) state = (.error fault, after) := by
  rw [run_bind, h]

/-- A result that needs no factory leaves its state alone. -/
@[simp] theorem run_liftExcept (result : Except CompileFault α) (state : φ) :
    Provide.run (Manifest.compile.liftExcept result) state = (result, state) := by
  cases result <;> rfl

end Provide

namespace Factory

variable {φ : Type}

/-- A factory answers requests one after the other, each from the state that the one
before left. -/
inductive Serves (factory : Factory φ) :
    φ → List UnitRequest → List UnitHandle → φ → Prop
  | done (state : φ) : Serves factory state [] [] state
  | answered {state middle after : φ} {request : UnitRequest} {handle : UnitHandle}
      {rest : List UnitRequest} {handles : List UnitHandle}
      (hanswer : factory request state = (.ok handle, middle))
      (hrest : Serves factory middle rest handles after) :
      Serves factory state (request :: rest) (handle :: handles) after

theorem Serves.length_eq {factory : Factory φ} {state after : φ}
    {requests : List UnitRequest} {handles : List UnitHandle}
    (h : factory.Serves state requests handles after) :
    handles.length = requests.length := by
  induction h with
  | done state => rfl
  | answered hanswer hrest ih => simp [ih]

/-- A factory answers requests up to one that it cannot serve, after which it is
asked for nothing. -/
def StopsAt (factory : Factory φ) (state : φ) (requests : List UnitRequest)
    (cause : ComputeFault) (after : φ) : Prop :=
  ∃ asked request rest handles middle, requests = asked ++ request :: rest ∧
    factory.Serves state asked handles middle ∧
    factory request middle = (.error cause, after)

end Factory

namespace UnitTable

/-- A table with the functions that came for requests. -/
def insertAll (table : UnitTable) (served : List (UnitRequest × UnitHandle)) : UnitTable :=
  served.foldl
    (fun table pair => table.insert pair.1.resource pair.1.handler pair.2) table

/-- A function in the table was there before, or came for a request. -/
theorem get?_insertAll {resource task : String} {handle : UnitHandle}
    {served : List (UnitRequest × UnitHandle)} {table : UnitTable}
    (h : (table.insertAll served).get? resource task = some handle) :
    table.get? resource task = some handle ∨
      ∃ pair ∈ served, pair.1.resource = resource ∧ pair.1.handler = task ∧
        pair.2 = handle := by
  induction served generalizing table with
  | nil => exact .inl h
  | cons first rest ih =>
      rcases ih h with hfirst | ⟨pair, hpair, hsame⟩
      · rw [get?_insert] at hfirst
        split at hfirst
        next hkey =>
          cases hkey
          cases hfirst
          exact .inr ⟨first, List.mem_cons_self, rfl, rfl, rfl⟩
        · exact .inl hfirst
      · exact .inr ⟨pair, List.mem_cons_of_mem first hpair, hsame⟩

/-- What is in a table is not lost. -/
theorem get?_insertAll_of_isSome {resource task : String} {table : UnitTable}
    (h : (table.get? resource task).isSome) (served : List (UnitRequest × UnitHandle)) :
    ((table.insertAll served).get? resource task).isSome := by
  induction served generalizing table with
  | nil => exact h
  | cons first rest ih =>
      refine ih ?_
      rw [get?_insert]
      split
      · rfl
      · exact h

/-- Every request that was served has its function. -/
theorem get?_insertAll_of_mem {pair : UnitRequest × UnitHandle}
    {served : List (UnitRequest × UnitHandle)} (hpair : pair ∈ served)
    (table : UnitTable) :
    ((table.insertAll served).get? pair.1.resource pair.1.handler).isSome := by
  induction served generalizing table with
  | nil => cases hpair
  | cons first rest ih =>
      rcases List.mem_cons.mp hpair with rfl | hrest
      · refine get?_insertAll_of_isSome ?_ rest
        rw [get?_insert, if_pos rfl]
        rfl
      · exact ih hrest _

end UnitTable

namespace Manifest

variable {φ : Type}

/-- Providing functions is an exchange with the factory: either it answers all
requests, or it stops at one. -/
theorem provision_cases (factory : Factory φ) (requests : List UnitRequest)
    (table : UnitTable) (state : φ) :
    (∃ handles after, factory.Serves state requests handles after ∧
      Provide.run (provision factory requests table) state =
        (.ok (table.insertAll (requests.zip handles)), after)) ∨
    (∃ cause after, factory.StopsAt state requests cause after ∧
      Provide.run (provision factory requests table) state =
        (.error (.compute cause), after)) := by
  induction requests generalizing table state with
  | nil => exact .inl ⟨[], state, .done state, rfl⟩
  | cons request rest ih =>
      have hask : Provide.run (ask factory request) state =
          ((factory request state).1.mapError .compute, (factory request state).2) := rfl
      unfold provision
      cases hanswer : factory request state with
      | mk answer middle =>
          rw [hanswer] at hask
          cases answer with
          | error cause =>
              refine .inr ⟨cause, middle, ?_, Provide.run_bind_error hask⟩
              exact ⟨[], request, rest, [], state, rfl, .done state, hanswer⟩
          | ok handle =>
              rw [Provide.run_bind_ok hask]
              rcases ih (table.insert request.resource request.handler handle) middle with
                ⟨handles, after, hserves, hrun⟩ | ⟨cause, after, hstops, hrun⟩
              · exact .inl ⟨handle :: handles, after, .answered hanswer hserves, hrun⟩
              · obtain ⟨asked, failed, later, handles, before, rfl, hserves, hfails⟩ :=
                  hstops
                refine .inr ⟨cause, after, ?_, hrun⟩
                exact ⟨request :: asked, failed, later, handle :: handles, before, rfl,
                  .answered hanswer hserves, hfails⟩

end Manifest

end TaskMachine
