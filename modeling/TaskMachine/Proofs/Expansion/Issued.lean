import TaskMachine.Proofs.Machine.Units
import Mathlib.Data.List.Nodup

/-!
# What a supply of names has issued

A name of a control ends in a number, and what comes before the number may hold underscores
and digits as well.  So neither the kind nor the origin can be read off a name; but the
number can, since it is what stands behind the last underscore (`lastPart_append`).

The numbers of a supply count up, so its names tell when they were issued
(`map_position_allocateAll`), and no two of them are the same.
-/

namespace TaskMachine
namespace NameSupply

/-- What stands behind the last underscore of a name. -/
def lastPart (name : String) : List Char :=
  (name.toList.reverse.takeWhile fun char => char != '_').reverse

/-- How many names a fresh supply had issued before this one. -/
def position (name : String) : Nat := Nat.ofDigitChars 10 (lastPart name) 0 - 1

theorem lastPart_append (stem : String) {last : String} (hlast : '_' ∉ last.toList) :
    lastPart (stem ++ "_" ++ last) = last.toList := by
  have hkept : ∀ char ∈ last.toList.reverse, (char != '_') = true := by
    intro char hchar
    have hne : char ≠ '_' := fun heq => hlast (heq ▸ List.mem_reverse.mp hchar)
    simpa using hne
  have hreverse : (stem ++ "_" ++ last).toList.reverse =
      last.toList.reverse ++ '_' :: stem.toList.reverse := by
    simp
  unfold lastPart
  rw [hreverse, List.takeWhile_append_of_pos hkept]
  simp

/-- A name tells how many names its supply had issued, whatever it is made of. -/
theorem position_allocate (supply : NameSupply) (kind origin : String) :
    position (supply.allocate kind origin).1 = supply.issued := by
  have hlast : lastPart (supply.allocate kind origin).1 =
      (toString (supply.issued + 1)).toList :=
    lastPart_append (kind ++ "_" ++ origin) (not_mem_toList_toString _)
  unfold position
  rw [hlast, Nat.toString_eq_repr, Nat.toList_repr]
  simp

/-- The names that are issued one after the other tell their positions. -/
theorem map_position_allocateAll (supply : NameSupply) (requests : List (String × String)) :
    (supply.allocateAll requests).map position =
      List.range' supply.issued requests.length := by
  induction requests generalizing supply with
  | nil => rfl
  | cons request rest ih =>
      obtain ⟨kind, origin⟩ := request
      show position (supply.allocate kind origin).1 ::
        ((supply.allocate kind origin).2.allocateAll rest).map position = _
      rw [position_allocate, ih, List.length_cons, List.range'_succ]
      rfl

/-- A fresh supply answers every request with a name that it has not issued before.  The
position of the request can be recovered from the name alone. -/
theorem allocateAll_apart (requests : List (String × String)) :
    (({} : NameSupply).allocateAll requests).Nodup ∧
    (({} : NameSupply).allocateAll requests).map position = List.range requests.length := by
  have hpositions : (({} : NameSupply).allocateAll requests).map position =
      List.range requests.length := by
    rw [map_position_allocateAll, List.range_eq_range']
  refine ⟨?_, hpositions⟩
  -- Names with different positions are different.
  refine List.Nodup.of_map position ?_
  rw [hpositions]
  exact List.nodup_range

/-- Underscores and digits in what a name is made of are no numbers of names. -/
example : (({} : NameSupply).allocateAll [("", ""), ("wait_1", "2"), ("wait", "1_2")]).map
    position = [0, 1, 2] := by cbv

end NameSupply
end TaskMachine
