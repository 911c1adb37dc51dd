/-!
# Maps in key order

A `SortedMap α` lists its entries in strictly ascending order of their keys, by
code point.  The order is part of the type, so two maps with the same lookups
are equal, and whatever is written out entry by entry comes out in one order
only.

The lemmas here say what the operations do to lookups, `get?_insert` and
`get?_empty`, and that a map is rebuilt from its entries, `ofList_entries`.
-/

namespace TaskMachine

/-- A finite map from strings, with its entries in ascending key order. -/
structure SortedMap (α : Type) where
  entries : List (String × α)
  ascending : entries.Pairwise (fun a b => a.1 < b.1)
deriving DecidableEq, Repr

namespace SortedMap

variable {α β : Type}

/-- The map without entries. -/
def empty : SortedMap α := ⟨[], .nil⟩

instance : Inhabited (SortedMap α) := ⟨empty⟩

/-- Puts a value into an ascending list of entries, in place of one that is
already there under the same key. -/
def insertEntry (key : String) (value : α) :
    List (String × α) → List (String × α)
  | [] => [(key, value)]
  | entry :: rest =>
    if key < entry.1 then (key, value) :: entry :: rest
    else if entry.1 < key then entry :: insertEntry key value rest
    else (key, value) :: rest

theorem mem_insertEntry {key : String} {value : α} {entry : String × α} :
    {entries : List (String × α)} → entry ∈ insertEntry key value entries →
      entry = (key, value) ∨ entry ∈ entries
  | [], h => by simpa [insertEntry] using h
  | first :: rest, h => by
    unfold insertEntry at h
    split at h
    · simpa using h
    · split at h
      · rcases List.mem_cons.1 h with h | h
        · exact .inr (h ▸ List.mem_cons_self)
        · exact (mem_insertEntry h).imp id (List.mem_cons_of_mem _)
      · exact (List.mem_cons.1 h).imp id (List.mem_cons_of_mem _)

private theorem eq_of_not_lt {a b : String} (h : ¬ a < b) (h' : ¬ b < a) :
    a = b :=
  String.le_antisymm (String.not_lt.1 h') (String.not_lt.1 h)

theorem ascending_insertEntry (key : String) (value : α) :
    {entries : List (String × α)} →
      entries.Pairwise (fun a b => a.1 < b.1) →
        (insertEntry key value entries).Pairwise (fun a b => a.1 < b.1)
  | [], _ => by simp [insertEntry]
  | first :: rest, h => by
    have head := (List.pairwise_cons.1 h).1
    have tail := (List.pairwise_cons.1 h).2
    unfold insertEntry
    split
    · next lt =>
      refine List.pairwise_cons.2 ⟨fun entry mem => ?_, h⟩
      rcases List.mem_cons.1 mem with rfl | mem
      · exact lt
      · exact String.lt_trans lt (head entry mem)
    · split
      · next gt =>
        refine List.pairwise_cons.2
          ⟨fun entry mem => ?_, ascending_insertEntry key value tail⟩
        rcases mem_insertEntry mem with rfl | mem
        · exact gt
        · exact head entry mem
      · next ge le =>
        refine List.pairwise_cons.2 ⟨fun entry mem => ?_, tail⟩
        exact eq_of_not_lt ge le ▸ head entry mem

/-- The map with a value under a key, in place of what was there. -/
def insert (map : SortedMap α) (key : String) (value : α) : SortedMap α :=
  ⟨insertEntry key value map.entries,
    ascending_insertEntry key value map.ascending⟩

/-- The map of a list of entries.  Of two entries with one key the later
one counts. -/
def ofList (entries : List (String × α)) : SortedMap α :=
  entries.foldl (fun map entry => map.insert entry.1 entry.2) empty

/-- The value under a key. -/
def get? (map : SortedMap α) (key : String) : Option α :=
  (map.entries.find? (fun entry => entry.1 == key)).map Prod.snd

/-- The keys, ascending. -/
def keys (map : SortedMap α) : List String := map.entries.map Prod.fst

/-- The values, in the order of their keys. -/
def values (map : SortedMap α) : List α := map.entries.map Prod.snd

/-- How many entries there are. -/
def size (map : SortedMap α) : Nat := map.entries.length

/-- Whether there are no entries. -/
def isEmpty (map : SortedMap α) : Bool := map.entries.isEmpty

/-- Whether a key has a value. -/
def contains (map : SortedMap α) (key : String) : Bool :=
  map.entries.any (fun entry => entry.1 == key)

/-- The map with every value replaced, under the same keys. -/
def mapValues (f : α → β) (map : SortedMap α) : SortedMap β :=
  ⟨map.entries.map (fun entry => (entry.1, f entry.2)),
    List.pairwise_map.2 map.ascending⟩

@[simp] theorem get?_empty (key : String) : (empty : SortedMap α).get? key = none :=
  rfl

theorem find?_insertEntry (key other : String) (value : α) :
    (entries : List (String × α)) →
      entries.Pairwise (fun a b => a.1 < b.1) →
        ((insertEntry key value entries).find? (fun e => e.1 == other)).map Prod.snd =
          if key = other then some value
          else (entries.find? (fun e => e.1 == other)).map Prod.snd
  | [], _ => by
    by_cases h : key = other <;> simp [insertEntry, h]
  | first :: rest, h => by
    have ih := find?_insertEntry key other value rest (List.pairwise_cons.1 h).2
    unfold insertEntry
    split
    · by_cases h : key = other <;> simp [h]
    · split
      · next gt =>
        by_cases hf : first.1 = other
        · have hk : key ≠ other := fun e =>
            String.lt_irrefl _ (e.trans hf.symm ▸ gt)
          simp [hf, hk]
        · simp [hf, ih]
      · next ge le =>
        have same := eq_of_not_lt ge le
        by_cases h : key = other
        · simp [h]
        · have hf : ¬ first.1 = other := same ▸ h
          simp [h, hf]

/-- A lookup after an insertion finds the new value under its key, and what
was there before under every other. -/
theorem get?_insert (map : SortedMap α) (key other : String) (value : α) :
    (map.insert key value).get? other =
      if key = other then some value else map.get? other :=
  find?_insertEntry key other value map.entries map.ascending

theorem insertEntry_of_lt {key : String} {value : α} :
    {entries : List (String × α)} → (∀ entry ∈ entries, entry.1 < key) →
      insertEntry key value entries = entries ++ [(key, value)]
  | [], _ => rfl
  | first :: rest, h => by
    have lt := h first List.mem_cons_self
    have ih := @insertEntry_of_lt key value rest
      (fun entry mem => h entry (List.mem_cons_of_mem _ mem))
    simp [insertEntry, lt, String.lt_asymm lt, ih]

private theorem entries_foldl_insert :
    (later : List (String × α)) → (map : SortedMap α) →
      (map.entries ++ later).Pairwise (fun a b => a.1 < b.1) →
        (later.foldl (fun map entry => map.insert entry.1 entry.2) map).entries =
          map.entries ++ later
  | [], map, _ => by simp
  | entry :: later, map, h => by
    have before : ∀ e ∈ map.entries, e.1 < entry.1 := fun e mem =>
      (List.pairwise_append.1 h).2.2 e mem entry List.mem_cons_self
    have step : (map.insert entry.1 entry.2).entries = map.entries ++ [entry] :=
      insertEntry_of_lt before
    have ih := entries_foldl_insert later (map.insert entry.1 entry.2)
      (by rw [step]; simpa using h)
    simpa [step] using ih

/-- Building a map from its own entries gives it back. -/
@[simp] theorem ofList_entries (map : SortedMap α) : ofList map.entries = map := by
  have h : (ofList map.entries).entries = map.entries :=
    entries_foldl_insert map.entries empty map.ascending
  cases map
  cases hb : ofList _
  simp_all

end SortedMap

end TaskMachine
