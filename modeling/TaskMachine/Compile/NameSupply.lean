/-!
# Names of control states

A `NameSupply` hands out the names of the control states of one unit.  Every
name ends in a number that counts up from one, so no two are the same, whatever
they are made of.
-/

namespace TaskMachine

/-- A source of names that knows how many it has handed out. -/
structure NameSupply where
  issued : Nat := 0
deriving DecidableEq, Repr, Inhabited

namespace NameSupply

/-- The next name, made of a kind, an origin and a number, and the supply
afterwards. -/
def allocate (supply : NameSupply) (kind origin : String) : String × NameSupply :=
  let number := supply.issued + 1
  (kind ++ "_" ++ origin ++ "_" ++ toString number, ⟨number⟩)

/-- The names for a list of kinds and origins. -/
def allocateAll (supply : NameSupply) : List (String × String) → List String
  | [] => []
  | (kind, origin) :: rest =>
    let (name, supply) := supply.allocate kind origin
    name :: supply.allocateAll rest

/-- Every request gets a name. -/
@[simp] theorem length_allocateAll (supply : NameSupply)
    (requests : List (String × String)) :
    (supply.allocateAll requests).length = requests.length := by
  induction requests generalizing supply with
  | nil => rfl
  | cons request rest ih =>
    obtain ⟨kind, origin⟩ := request
    simp [allocateAll, ih]

end NameSupply

end TaskMachine
