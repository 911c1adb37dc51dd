import TaskMachine.Json.Value
import Mathlib.Data.List.Nodup
import Mathlib.Data.List.Perm.Basic

/-!
# The fields of objects

An object that is made of a list of fields has, under every key, the last field of the
list with that key (`field?_ofFields_cons`, `field?_ofFields_append`).  Where the keys of
the list are distinct nothing is lost: the object has these keys, each once
(`keys_ofFields_perm`), and under each its own value (`field?_ofFields_of_mem`).
-/

namespace TaskMachine

namespace SortedMap

variable {α : Type}

theorem get?_foldl_insert (entries : List (String × α)) (map : SortedMap α) (key : String) :
    (entries.foldl (fun map entry => map.insert entry.1 entry.2) map).get? key =
      ((ofList entries).get? key).or (map.get? key) := by
  unfold ofList
  induction entries generalizing map with
  | nil => rfl
  | cons entry rest ih =>
      rw [List.foldl_cons, List.foldl_cons, ih, ih (empty.insert entry.1 entry.2),
        get?_insert, get?_insert, get?_empty, Option.or_assoc]
      by_cases h : entry.1 = key <;> simp [h]

/-- Entries before others are hidden by those with their keys. -/
theorem get?_ofList_append (first later : List (String × α)) (key : String) :
    (ofList (first ++ later)).get? key =
      ((ofList later).get? key).or ((ofList first).get? key) := by
  -- Later entries are put into the map that the first ones have made.
  have happend : ofList (first ++ later) =
      later.foldl (fun map entry => map.insert entry.1 entry.2) (ofList first) := by
    unfold ofList
    rw [List.foldl_append]
  rw [happend, get?_foldl_insert]

theorem get?_ofList_singleton (key : String) (value : α) (name : String) :
    (ofList [(key, value)]).get? name = if key = name then some value else none := by
  show (empty.insert key value).get? name = _
  rw [get?_insert, get?_empty]

theorem get?_ofList_cons (entry : String × α) (rest : List (String × α)) (key : String) :
    (ofList (entry :: rest)).get? key =
      ((ofList rest).get? key).or (if entry.1 = key then some entry.2 else none) := by
  rw [← List.singleton_append, get?_ofList_append, get?_ofList_singleton]

/-- What is done to all values is done to the one that is found. -/
theorem get?_mapValues {β : Type} (f : α → β) (map : SortedMap α) (key : String) :
    (map.mapValues f).get? key = (map.get? key).map f := by
  unfold get? mapValues
  rw [List.find?_map, Option.map_map, Option.map_map]
  rfl

theorem isSome_get?_ofList {entries : List (String × α)} {key : String} :
    ((ofList entries).get? key).isSome ↔ key ∈ entries.map Prod.fst := by
  induction entries with
  | nil => simp [ofList]
  | cons entry rest ih =>
      rw [get?_ofList_cons, Option.isSome_or, Bool.or_eq_true, ih, List.map_cons,
        List.mem_cons]
      by_cases h : entry.1 = key
      · simp [h]
      · simp [h, Ne.symm h]

/-- Where keys are distinct no entry is lost. -/
theorem get?_ofList_of_mem {entries : List (String × α)}
    (hdistinct : (entries.map Prod.fst).Nodup) {entry : String × α}
    (hentry : entry ∈ entries) : (ofList entries).get? entry.1 = some entry.2 := by
  induction entries with
  | nil => cases hentry
  | cons first rest ih =>
      rw [List.map_cons, List.nodup_cons] at hdistinct
      rw [get?_ofList_cons]
      rcases List.mem_cons.mp hentry with rfl | hrest
      · have hnone : (ofList rest).get? entry.1 = none := by
          rw [← Option.not_isSome_iff_eq_none, isSome_get?_ofList]
          exact hdistinct.1
        simp [hnone]
      · simp [ih hdistinct.2 hrest]

theorem mem_keys_iff {map : SortedMap α} {key : String} :
    key ∈ map.keys ↔ (map.get? key).isSome := by
  unfold keys get?
  rw [Option.isSome_map, List.find?_isSome, List.mem_map]
  simp only [beq_iff_eq]

theorem nodup_keys (map : SortedMap α) : map.keys.Nodup := by
  unfold keys
  refine List.Pairwise.map _ ?_ map.ascending
  intro first second hlt heq
  rw [heq] at hlt
  exact String.lt_irrefl _ hlt

/-- What is found is what is listed. -/
theorem get?_eq_some_iff {map : SortedMap α} {key : String} {value : α} :
    map.get? key = some value ↔ (key, value) ∈ map.entries := by
  constructor
  · intro hget
    unfold get? at hget
    obtain ⟨entry, hfind, hvalue⟩ := Option.map_eq_some_iff.mp hget
    have hkey : entry.1 = key := by simpa using List.find?_some hfind
    have hmem := List.mem_of_find?_eq_some hfind
    rwa [← hkey, ← hvalue]
  · intro hmem
    have hself := get?_ofList_of_mem (nodup_keys map) hmem
    rwa [ofList_entries] at hself

/-- A map is known by what is found in it. -/
theorem eq_of_get? {map other : SortedMap α} (h : ∀ key, map.get? key = other.get? key) :
    map = other := by
  have hmem : ∀ entry, entry ∈ map.entries ↔ entry ∈ other.entries := by
    rintro ⟨key, value⟩
    rw [← get?_eq_some_iff, ← get?_eq_some_iff, h]
  have hperm : map.entries.Perm other.entries :=
    (List.perm_ext_iff_of_nodup (.of_map _ (nodup_keys map))
      (.of_map _ (nodup_keys other))).mpr hmem
  -- Both are in the one order of their keys.
  have hentries : map.entries = other.entries := by
    refine hperm.eq_of_pairwise ?_ map.ascending other.ascending
    intro first second _ _ hlt hgt
    exact absurd hgt (String.lt_asymm hlt)
  cases map
  cases other
  cases hentries
  rfl

theorem keys_ofList_perm {entries : List (String × α)}
    (hdistinct : (entries.map Prod.fst).Nodup) :
    (ofList entries).keys.Perm (entries.map Prod.fst) := by
  rw [List.perm_ext_iff_of_nodup (nodup_keys _) hdistinct]
  intro key
  rw [mem_keys_iff, isSome_get?_ofList]

end SortedMap

namespace Json

/-- The keys of an object. -/
def keys (value : Json) : List String :=
  match value.view with
  | .obj fields => fields.keys
  | _ => []

/-- The items of an array. -/
def items (value : Json) : List Json :=
  match value.view with
  | .arr items => items
  | _ => []

/-- The items of the array in a field. -/
def itemsAt (value : Json) (key : String) : List Json :=
  ((value.field? key).map items).getD []

@[simp] theorem items_arr (all : List Json) : (arr all).items = all := by
  simp [items]

@[simp] theorem field?_obj (fields : SortedMap Json) (key : String) :
    (obj fields).field? key = fields.get? key := by
  simp [field?]

@[simp] theorem keys_obj (fields : SortedMap Json) : (obj fields).keys = fields.keys := by
  simp [keys]

theorem itemsAt_of_field?_eq_none {value : Json} {key : String}
    (h : value.field? key = none) : value.itemsAt key = [] := by
  simp [itemsAt, h]

@[simp] theorem field?_ofFields_nil (key : String) : (ofFields []).field? key = none := by
  simp [ofFields, SortedMap.ofList]

@[simp] theorem field?_ofFields_cons (name : String) (value : Json)
    (rest : List (String × Json)) (key : String) :
    (ofFields ((name, value) :: rest)).field? key =
      ((ofFields rest).field? key).or (if name = key then some value else none) := by
  simp only [ofFields, field?_obj]
  exact SortedMap.get?_ofList_cons (name, value) rest key

@[simp] theorem field?_ofFields_append (first later : List (String × Json))
    (key : String) :
    (ofFields (first ++ later)).field? key =
      ((ofFields later).field? key).or ((ofFields first).field? key) := by
  simp only [ofFields, field?_obj]
  exact SortedMap.get?_ofList_append first later key

@[simp] theorem field?_ofFields_present {α : Type} (name : String) (write : α → Json)
    (value : Option α) (key : String) :
    (ofFields (present name write value)).field? key =
      if name = key then value.map write else none := by
  cases value <;> simp [present]

@[simp] theorem field?_ofFields_nonEmpty {α : Type} (name : String) (write : α → Json)
    (all : List α) (key : String) :
    (ofFields (nonEmpty name write all)).field? key =
      if name = key ∧ all ≠ [] then some (arr (all.map write)) else none := by
  cases all <;> simp [nonEmpty]

theorem field?_ofFields_of_mem {fields : List (String × Json)}
    (hdistinct : (fields.map Prod.fst).Nodup) {field : String × Json}
    (hfield : field ∈ fields) : (ofFields fields).field? field.1 = some field.2 := by
  simp only [ofFields, field?_obj]
  exact SortedMap.get?_ofList_of_mem hdistinct hfield

theorem keys_ofFields_perm {fields : List (String × Json)}
    (hdistinct : (fields.map Prod.fst).Nodup) :
    (ofFields fields).keys.Perm (fields.map Prod.fst) := by
  simp only [ofFields, keys_obj]
  exact SortedMap.keys_ofList_perm hdistinct

@[simp] theorem field?_withField_ofFields (fields : List (String × Json)) (name : String)
    (value : Json) (key : String) :
    ((ofFields fields).withField name value).field? key =
      if name = key then some value else (ofFields fields).field? key := by
  simp only [withField, ofFields, view_obj, field?_obj]
  exact SortedMap.get?_insert _ name key value

end Json

end TaskMachine
