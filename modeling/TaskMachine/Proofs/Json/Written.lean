import TaskMachine.Json.Alternative
import TaskMachine.Proofs.Json.Fields

/-!
# Reading what was written

`Reader.Reads` says that a reader takes a value out of a JSON value, whatever the
circumstance.  For objects there is more to say: their fields stand in another order than
they were written in, a tagged type takes the field of the tag away before it reads on, and
a type that is flattened into another one gets what the other one does not read.
`Reader.ReadsFields` and `Record.Reads` say that a value is taken out of certain fields, in
any order.

Every way to put readers together has a rule here.  The proofs about particular types use
these rules and do not look into readers.
-/

namespace TaskMachine

namespace SortedMap

/-- Where keys are distinct a map has the entries it was made of, in another order. -/
theorem entries_ofList_perm {α : Type} {entries : List (String × α)}
    (hdistinct : (entries.map Prod.fst).Nodup) :
    (ofList entries).entries.Perm entries := by
  have hself : (ofList entries).entries.Nodup := (nodup_keys (ofList entries)).of_map _
  rw [List.perm_ext_iff_of_nodup hself (hdistinct.of_map _)]
  rintro ⟨key, value⟩
  rw [← get?_eq_some_iff]
  constructor
  · intro hget
    have hkey : key ∈ entries.map Prod.fst := by
      rw [← isSome_get?_ofList, hget]
      rfl
    obtain ⟨entry, hentry, rfl⟩ := List.mem_map.mp hkey
    rw [get?_ofList_of_mem hdistinct hentry] at hget
    cases hget
    exact hentry
  · intro hentry
    exact get?_ofList_of_mem hdistinct hentry

theorem eq_empty_of_isEmpty {α : Type} {map : SortedMap α} (h : map.isEmpty) :
    map = .empty := by
  obtain ⟨entries, hascending⟩ := map
  have hentries : entries = [] := List.isEmpty_iff.mp h
  subst hentries
  rfl

end SortedMap

/-! ## Documents of values -/

namespace Document

/-- The documents of fields. -/
def documents (fields : List (String × Json)) : List (String × Document) :=
  fields.map fun field => (field.1, ofJson field.2)

theorem ofRawItems_eq_map (items : List Json.Raw) : ofRawItems items = items.map ofRaw := by
  induction items with
  | nil => rfl
  | cons item rest ih => simp [ofRawItems, ih]

theorem ofRawFields_eq_map (fields : List (String × Json.Raw)) :
    ofRawFields fields = fields.map fun field => (field.1, ofRaw field.2) := by
  induction fields with
  | nil => rfl
  | cons field rest ih => simp [ofRawFields, ih]

@[simp] theorem ofJson_null : ofJson .null = .null := rfl

@[simp] theorem ofJson_bool (value : Bool) : ofJson (.bool value) = .bool value := rfl

@[simp] theorem ofJson_number (value : Number) : ofJson (.number value) = .number value := rfl

@[simp] theorem ofJson_str (value : String) : ofJson (.str value) = .str value := rfl

@[simp] theorem ofJson_arr (items : List Json) :
    ofJson (.arr items) = .arr (items.map ofJson) .closed := by
  simp [ofJson, Json.arr, ofRaw, ofRawItems_eq_map, Function.comp_def]

@[simp] theorem ofJson_obj (fields : SortedMap Json) :
    ofJson (.obj fields) = .obj (documents fields.entries) .closed := by
  simp [ofJson, Json.obj, ofRaw, ofRawFields_eq_map, SortedMap.mapValues, documents,
    Function.comp_def]

theorem ofJson_ofFields (fields : List (String × Json)) :
    ofJson (.ofFields fields) = .obj (documents (SortedMap.ofList fields).entries) .closed := by
  rw [Json.ofFields, ofJson_obj]

@[simp] theorem isReadable_ofJson (value : Json) : (ofJson value).isReadable = true := by
  simp [isReadable]

/-- Only `null` has the document `null`. -/
theorem ofJson_ne_null {value : Json} (h : value ≠ .null) : ofJson value ≠ .null := by
  intro hnull
  have hvalue := value?_ofJson value
  rw [hnull] at hvalue
  exact h (Option.some.inj hvalue).symm

mutual

theorem isSkippable_ofRaw : (tree : Json.Raw) → (ofRaw tree).isSkippable = true
  | .null | .bool _ | .number _ | .str _ => rfl
  | .arr items => by simp [ofRaw, isSkippable, skippableItems_ofRaw items, Closing.isSkippable]
  | .obj fields => by
      simp [ofRaw, isSkippable, skippableFields_ofRaw fields, Closing.isSkippable]

theorem skippableItems_ofRaw : (items : List Json.Raw) →
    skippableItems (ofRawItems items) = true
  | [] => rfl
  | item :: rest => by
      simp [ofRawItems, skippableItems, isSkippable_ofRaw item, skippableItems_ofRaw rest]

theorem skippableFields_ofRaw : (fields : List (String × Json.Raw)) →
    skippableFields (ofRawFields fields) = true
  | [] => rfl
  | (_, value) :: rest => by
      simp [ofRawFields, skippableFields, isSkippable_ofRaw value, skippableFields_ofRaw rest]

end

@[simp] theorem isSkippable_ofJson (value : Json) : (ofJson value).isSkippable = true :=
  isSkippable_ofRaw value.raw

/-! ### Depths -/

theorem depthItems_le_iff {items : List Document} {bound : Nat} :
    depthItems items ≤ bound ↔ ∀ item ∈ items, item.depth ≤ bound := by
  induction items with
  | nil => simp [depthItems]
  | cons item rest ih =>
      simp only [depthItems, Nat.max_le, ih, List.mem_cons, forall_eq_or_imp]

theorem depthFields_le_iff {fields : List (String × Document)} {bound : Nat} :
    depthFields fields ≤ bound ↔ ∀ field ∈ fields, field.2.depth ≤ bound := by
  induction fields with
  | nil => simp [depthFields]
  | cons field rest ih =>
      simp only [depthFields, Nat.max_le, ih, List.mem_cons, forall_eq_or_imp]

theorem depthFields_eq_of_perm {fields fields' : List (String × Document)}
    (h : fields.Perm fields') : depthFields fields = depthFields fields' := by
  apply Nat.le_antisymm
  · rw [depthFields_le_iff]
    intro field hfield
    exact depthFields_le_iff.mp (Nat.le_refl _) field (h.mem_iff.mp hfield)
  · rw [depthFields_le_iff]
    intro field hfield
    exact depthFields_le_iff.mp (Nat.le_refl _) field (h.mem_iff.mpr hfield)

theorem documents_perm {fields fields' : List (String × Json)} (h : fields.Perm fields') :
    (documents fields).Perm (documents fields') :=
  h.map _

end Document

namespace Json

theorem str_ne_null (value : String) : str value ≠ .null := by
  intro h
  cases congrArg raw h

theorem nat_ne_null (value : Nat) : nat value ≠ .null := by
  intro h
  cases congrArg raw h

theorem number_ne_null (value : Number) : number value ≠ .null := by
  intro h
  cases congrArg raw h

theorem arr_ne_null (items : List Json) : arr items ≠ .null := by
  intro h
  cases congrArg raw h

theorem ofFields_ne_null (fields : List (String × Json)) : ofFields fields ≠ .null := by
  intro h
  cases congrArg raw h

theorem keys_present {α : Type} (key : String) (write : α → Json) (value : Option α) :
    ((present key write value).map Prod.fst).Sublist [key] := by
  cases value <;> simp [present]

theorem keys_nonEmpty {α : Type} (key : String) (write : α → Json) (items : List α) :
    ((nonEmpty key write items).map Prod.fst).Sublist [key] := by
  cases items <;> simp [nonEmpty]

/-- How many arrays and objects stand inside one another at most. -/
def depth (value : Json) : Nat := (Document.ofJson value).depth

theorem depth_lt_arr {items : List Json} {item : Json} (h : item ∈ items) :
    item.depth < (arr items).depth := by
  have hle : Document.depthItems (items.map Document.ofJson) ≤
      Document.depthItems (items.map Document.ofJson) := Nat.le_refl _
  rw [Document.depthItems_le_iff] at hle
  have hitem := hle _ (List.mem_map_of_mem h)
  simp only [depth, Document.ofJson_arr, Document.depth]
  omega

variable {fields : List (String × Json)}

/-- The depth of an object does not depend on the order of its fields. -/
theorem depth_ofFields (hdistinct : (fields.map Prod.fst).Nodup) :
    (ofFields fields).depth = Document.depthFields (Document.documents fields) + 1 := by
  have hperm := Document.documents_perm (SortedMap.entries_ofList_perm hdistinct)
  rw [depth, Document.ofJson_ofFields, Document.depth, Document.depthFields_eq_of_perm hperm]

theorem depth_lt_ofFields (hdistinct : (fields.map Prod.fst).Nodup) {key : String}
    {value : Json} (h : (key, value) ∈ fields) : value.depth < (ofFields fields).depth := by
  have hle : Document.depthFields (Document.documents fields) ≤
      Document.depthFields (Document.documents fields) := Nat.le_refl _
  rw [Document.depthFields_le_iff] at hle
  have hfield := hle _ (List.mem_map_of_mem h)
  rw [depth_ofFields hdistinct]
  exact Nat.lt_succ_of_le hfield

theorem depth_lt_single (key : String) (value : Json) :
    value.depth < (ofFields [(key, value)]).depth :=
  depth_lt_ofFields (by simp) List.mem_cons_self

end Json

theorem mapM_map_eq_ok {α β γ ε : Type} {items : List α} {before : α → β}
    {step : β → Except ε γ} {answer : α → γ}
    (h : ∀ item ∈ items, step (before item) = .ok (answer item)) :
    (items.map before).mapM step = .ok (items.map answer) := by
  induction items with
  | nil => rfl
  | cons item rest ih =>
      have hitem := h item List.mem_cons_self
      have hrest := ih fun other hother => h other (List.mem_cons_of_mem item hother)
      rw [List.map_cons, List.mapM_cons, hitem, hrest]
      rfl

/-! ## What readers take out -/

/-- A reader takes a value out of a JSON value. -/
def Reader.Reads {α : Type} (reader : Reader α) (json : Json) (value : α) : Prop :=
  ∀ circumstance, reader circumstance (.ofJson json) = .ok value

/-- A reader takes a value out of an object with certain fields, in any order. -/
def Reader.ReadsFields {α : Type} (reader : Reader α) (fields : List (String × Json))
    (value : α) : Prop :=
  ∀ entries, entries.Perm fields → ∀ circumstance,
    reader circumstance (.obj (Document.documents entries) .closed) = .ok value

/-- A structure takes a value out of certain fields, in any order. -/
def Record.Reads {α : Type} (record : Record α) (fields : List (String × Json))
    (value : α) : Prop :=
  ∀ entries, entries.Perm fields → ∀ circumstance start,
    record.run circumstance (.named (Document.documents entries)) start = .ok value

namespace Reader

variable {α β : Type} {fields : List (String × Json)} {value : α}

/-- Objects with distinct keys are read by their fields. -/
theorem ReadsFields.reads {reader : Reader α} (h : reader.ReadsFields fields value)
    (hdistinct : (fields.map Prod.fst).Nodup) : reader.Reads (.ofFields fields) value := by
  intro circumstance
  rw [Document.ofJson_ofFields]
  exact h _ (SortedMap.entries_ofList_perm hdistinct) circumstance

/-- A reader that goes down as far as the document does reads what it reads when it goes down
as far as the object, in whatever order the fields are. -/
theorem readsFields_of_depth {readerTo : Nat → Reader α}
    (hdistinct : (fields.map Prod.fst).Nodup)
    (h : ∀ depth, (Json.ofFields fields).depth ≤ depth →
      (readerTo depth).ReadsFields fields value) :
    ReadsFields (fun circumstance document => readerTo document.depth circumstance document)
      fields value := by
  intro entries hentries circumstance
  have hdepth := Json.depth_ofFields hdistinct
  have hperm := Document.depthFields_eq_of_perm (Document.documents_perm hentries)
  refine h _ (Nat.le_of_eq ?_) entries hentries circumstance
  rw [hdepth, Document.depth, hperm]

/-! ### Scalars -/

theorem reads_bool (value : Bool) : Reader.bool.Reads (.bool value) value :=
  fun _ => rfl

theorem reads_str (value : String) : Reader.str.Reads (.str value) value :=
  fun _ => rfl

theorem reads_natural (value : Nat) : Reader.natural.Reads (.nat value) value := by
  intro circumstance
  show Reader.natural circumstance (.number (.integer value)) = .ok value
  simp [natural]

theorem reads_naturalBelow {bound value : Nat} (h : value < bound) :
    (naturalBelow bound).Reads (.nat value) value := by
  intro circumstance
  show naturalBelow bound circumstance (.number (.integer value)) = .ok value
  simp [naturalBelow, natural, h, bind, Except.bind, pure, Except.pure]

theorem reads_uint8 (value : UInt8) : Reader.uint8.Reads (.nat value.toNat) value := by
  intro circumstance
  have hread := reads_naturalBelow value.toNat_lt circumstance
  simp [uint8, hread, Except.map]

theorem reads_uint32 (value : UInt32) : Reader.uint32.Reads (.nat value.toNat) value := by
  intro circumstance
  have hread := reads_naturalBelow value.toNat_lt circumstance
  simp [uint32, hread, Except.map]

theorem reads_uint64 (value : UInt64) : Reader.uint64.Reads (.nat value.toNat) value := by
  intro circumstance
  have hread := reads_naturalBelow value.toNat_lt circumstance
  simp [uint64, hread, Except.map]

theorem reads_double (value : Double) :
    Reader.double.Reads (.number (.double value)) value :=
  fun _ => rfl

theorem reads_json (value : Json) : Reader.json.Reads value value := by
  intro circumstance
  simp [json]

/-! ### Containers -/

theorem Reads.nullable {reader : Reader α} {json : Json} (h : reader.Reads json value)
    (hnull : json ≠ .null) : reader.nullable.Reads json (some value) := by
  intro circumstance
  have hread := h circumstance
  have hdocument := Document.ofJson_ne_null hnull
  unfold Reader.nullable
  split
  next heq => exact absurd heq hdocument
  next => rw [hread]; rfl

theorem reads_list {reader : Reader α} {write : α → Json} {values : List α}
    (h : ∀ value ∈ values, reader.Reads (write value) value) :
    reader.list.Reads (.arr (values.map write)) values := by
  intro circumstance
  have hitems : ((values.map write).map Document.ofJson).mapM (reader circumstance) =
      .ok (values.map id) := by
    rw [List.map_map]
    exact mapM_map_eq_ok fun value hvalue => h value hvalue circumstance
  rw [Document.ofJson_arr, Reader.list, hitems, List.map_id]
  rfl

theorem reads_strings (values : List String) :
    Reader.str.list.Reads (.strings values) values :=
  reads_list fun value _ => reads_str value

/-- An object of values under any keys is read entry by entry. -/
theorem reads_map {reader : Reader α} {write : α → Json} {values : SortedMap α}
    (h : ∀ entry ∈ values.entries, reader.Reads (write entry.2) entry.2) :
    (Reader.map reader).Reads (.obj (values.mapValues write)) values := by
  intro circumstance
  have hentries : (values.mapValues write).entries =
      values.entries.map fun entry => (entry.1, write entry.2) := rfl
  have hfields : (Document.documents (values.mapValues write).entries).mapM (fun field => do
      return (field.1, ← reader circumstance field.2)) =
        (.ok (values.entries.map id) : Except Fault (List (String × α))) := by
    rw [hentries, Document.documents, List.map_map]
    apply mapM_map_eq_ok
    intro entry hentry
    have hread := h entry hentry circumstance
    simp [hread, bind, Except.bind, pure, Except.pure]
  rw [Document.ofJson_obj, Reader.map, hfields, List.map_id]
  show Except.ok (SortedMap.ofList values.entries) = _
  rw [SortedMap.ofList_entries]

/-- An object of any values is read as it is. -/
theorem reads_map_json (values : SortedMap Json) :
    (Reader.map Reader.json).Reads (.obj values) values := by
  have hsame : values.mapValues id = values := by simp [SortedMap.mapValues]
  have hread : (Reader.map Reader.json).Reads (.obj (values.mapValues id)) values :=
    reads_map fun entry _ => reads_json entry.2
  rwa [hsame] at hread

theorem Reads.andThen {reader : Reader α} {next : α → Except Fault β} {json : Json}
    {answer : β} (h : reader.Reads json value) (hnext : next value = .ok answer) :
    (reader.andThen next).Reads json answer := by
  intro circumstance
  show (reader circumstance _ >>= next) = _
  rw [h circumstance]
  exact hnext

theorem ReadsFields.andThen {reader : Reader α} {next : α → Except Fault β} {answer : β}
    (h : reader.ReadsFields fields value) (hnext : next value = .ok answer) :
    (reader.andThen next).ReadsFields fields answer := by
  intro entries hentries circumstance
  show (reader circumstance _ >>= next) = _
  rw [h entries hentries circumstance]
  exact hnext

theorem reads_untagged {reader : Document → Option α} {json : Json}
    (h : reader (.ofJson json) = some value) : (untagged reader).Reads json value := by
  intro circumstance
  simp [untagged, h]

theorem lookup_map_bare (values : List (String × α)) (name : String) :
    (values.map fun (name, value) => (name, Form.bare value)).lookup name =
      (values.lookup name).map Form.bare := by
  induction values with
  | nil => rfl
  | cons entry rest ih =>
      rw [List.map_cons, List.lookup_cons, List.lookup_cons, ih]
      cases name == entry.1 <;> rfl

/-- A name with nothing under it stands alone. -/
theorem reads_named_bare {forms : List (String × Form α)} {name : String}
    (h : forms.lookup name = some (.bare value)) : (named forms).Reads (.str name) value := by
  intro circumstance
  simp [named, h, Form.alone]

/-- What stands under a name is read in the form of the name. -/
theorem reads_named {forms : List (String × Form α)} {name : String} {form : Form α}
    {json : Json} (hname : forms.lookup name = some form) (h : form.under.Reads json value) :
    (named forms).Reads (.ofFields [(name, json)]) value := by
  intro circumstance
  have hdocument : Document.ofJson (.ofFields [(name, json)]) =
      .obj [(name, .ofJson json)] .closed := Document.ofJson_ofFields _
  have hread := h circumstance
  rw [hdocument]
  cases circumstance <;> simp [named, hname, hread, bind, Except.bind, pure, Except.pure]

theorem reads_wrapped {reader : Reader α} {json : Json} (h : reader.Reads json value) :
    (Form.wrapped reader).under.Reads json value :=
  h

theorem reads_oneOf {values : List (String × α)} {name : String}
    (h : values.lookup name = some value) : (oneOf values).Reads (.str name) value := by
  apply reads_named_bare
  rw [lookup_map_bare, h]
  rfl

end Reader

/-! ## Structures -/

/-- The values of the fields under some names. -/
def under (names : List String) (fields : List (String × Json)) : List Json :=
  (fields.filter fun field => field.1 ∈ names).map Prod.snd

section Under

variable {α : Type} (names : List String)

@[simp] theorem under_nil : under names [] = [] := rfl

@[simp] theorem under_cons (key : String) (value : Json) (rest : List (String × Json)) :
    under names ((key, value) :: rest) =
      if key ∈ names then value :: under names rest else under names rest := by
  unfold under
  rw [List.filter_cons]
  by_cases h : key ∈ names <;> simp [h]

@[simp] theorem under_append (first rest : List (String × Json)) :
    under names (first ++ rest) = under names first ++ under names rest := by
  simp [under]

@[simp] theorem under_present (key : String) (write : α → Json) (value : Option α) :
    under names (Json.present key write value) =
      if key ∈ names then (value.map write).toList else [] := by
  cases value <;> simp [Json.present]

@[simp] theorem under_nonEmpty (key : String) (write : α → Json) (items : List α) :
    under names (Json.nonEmpty key write items) =
      if key ∈ names ∧ items ≠ [] then [.arr (items.map write)] else [] := by
  cases items <;> simp [Json.nonEmpty]

@[simp] theorem under_ite (condition : Prop) [Decidable condition]
    (first second : List (String × Json)) :
    under names (if condition then first else second) =
      if condition then under names first else under names second :=
  apply_ite (under names) condition first second

theorem under_eq_nil {name : String} {fields : List (String × Json)}
    (h : name ∉ fields.map Prod.fst) : under [name] fields = [] := by
  unfold under
  rw [List.map_eq_nil_iff, List.filter_eq_nil_iff]
  intro field hfield hname
  have hsame : field.1 = name := by simpa using hname
  exact h (hsame ▸ List.mem_map_of_mem hfield)

theorem under_perm {fields entries : List (String × Json)} (h : entries.Perm fields) :
    (under names entries).Perm (under names fields) :=
  (h.filter _).map _

end Under

namespace Record

variable {α β : Type} {fields : List (String × Json)} {value : α}

/-- What a structure finds under some names. -/
theorem map_fst_occurrences (names : List String) (entries : List (String × Json)) :
    (occurrences names (Document.documents entries)).map Prod.fst =
      (under names entries).map Document.ofJson := by
  unfold occurrences
  generalize 0 = place
  induction entries generalizing place with
  | nil => rfl
  | cons entry rest ih =>
      obtain ⟨key, value⟩ := entry
      have hrest := ih (place + 1)
      unfold Document.documents at hrest ⊢
      rw [List.map_cons, List.zipIdx_cons, List.filterMap_cons, under_cons]
      by_cases h : key ∈ names
      · simp only [List.contains_iff_mem, h, if_true, List.map_cons] at hrest ⊢
        rw [hrest]
      · simp only [List.contains_iff_mem, h, if_false] at hrest ⊢
        exact hrest

/-- A field that is there once. -/
theorem reads_field {names : List String} {unnamed unlisted : Option α} {reader : Reader α}
    {json : Json} (h : under names fields = [json]) (hread : reader.Reads json value) :
    (field names unnamed unlisted reader).Reads fields value := by
  intro entries hentries circumstance start
  have hunder : under names entries = [json] := by
    have hperm := under_perm names hentries
    rw [h] at hperm
    exact List.perm_singleton.mp hperm
  have hfound := map_fst_occurrences names entries
  rw [hunder, List.map_singleton, List.map_eq_singleton_iff] at hfound
  obtain ⟨⟨document, place⟩, hoccurrences, rfl⟩ := hfound
  simp only [field, hoccurrences, hread circumstance]
  rfl

/-- A field that is missing and need not be there. -/
theorem reads_field_missing {names : List String} {unlisted : Option α} {reader : Reader α}
    (h : under names fields = []) :
    (field names (some value) unlisted reader).Reads fields value := by
  intro entries hentries circumstance start
  have hunder : under names entries = [] := by
    have hperm := under_perm names hentries
    rw [h] at hperm
    exact List.perm_nil.mp hperm
  have hfound := map_fst_occurrences names entries
  rw [hunder, List.map_nil, List.map_eq_nil_iff] at hfound
  simp only [field, hfound]
  rfl

theorem reads_required {name : String} {reader : Reader α} {json : Json}
    (h : under [name] fields = [json]) (hread : reader.Reads json value) :
    (required name reader).Reads fields value :=
  reads_field h hread

/-- A field with a default that is always written. -/
theorem reads_defaulted {name : String} {default : α} {reader : Reader α} {json : Json}
    (h : under [name] fields = [json]) (hread : reader.Reads json value) :
    (defaulted name default reader).Reads fields value :=
  reads_field h hread

/-- A list that is left out where it is empty. -/
theorem reads_defaulted_list {name : String} {reader : Reader α} {values : List α}
    (write : α → Json)
    (h : under [name] fields = if values = [] then [] else [.arr (values.map write)])
    (hread : ∀ value ∈ values, reader.Reads (write value) value) :
    (defaulted name [] reader.list).Reads fields values := by
  by_cases hempty : values = []
  · rw [if_pos hempty] at h
    rw [hempty]
    exact reads_field_missing h
  · rw [if_neg hempty] at h
    exact reads_field h (Reader.reads_list hread)

/-- A value that is left out where there is none, and is not `null` where there is one. -/
theorem reads_optional {names : List String} {reader : Reader α} {value : Option α}
    (write : α → Json) (h : under names fields = (value.map write).toList)
    (hread : ∀ inner ∈ value, reader.Reads (write inner) inner ∧ write inner ≠ .null) :
    (optional names reader).Reads fields value := by
  cases value with
  | none => exact reads_field_missing h
  | some inner =>
      obtain ⟨hinner, hnull⟩ := hread inner rfl
      exact reads_field h (hinner.nullable hnull)

theorem reads_optional_str {names : List String} {value : Option String}
    (h : under names fields = (value.map Json.str).toList) :
    (optional names Reader.str).Reads fields value := by
  refine reads_optional Json.str h ?_
  intro inner _
  exact ⟨Reader.reads_str inner, Json.str_ne_null inner⟩

theorem reads_optional_uint32 {names : List String} {value : Option UInt32}
    (h : under names fields = (value.map fun inner => Json.nat inner.toNat).toList) :
    (optional names Reader.uint32).Reads fields value := by
  refine reads_optional (fun inner => Json.nat inner.toNat) h ?_
  intro inner _
  exact ⟨Reader.reads_uint32 inner, Json.nat_ne_null inner.toNat⟩

/-- A value that is always written, as `null` where there is none. -/
theorem reads_nullable {name : String} {reader : Reader α} {value : Option α}
    (write : α → Json) (h : under [name] fields = [.nullable write value])
    (hread : ∀ inner ∈ value, reader.Reads (write inner) inner ∧ write inner ≠ .null) :
    (nullable name reader).Reads fields value := by
  cases value with
  | none => exact reads_field h fun _ => rfl
  | some inner =>
      obtain ⟨hinner, hnull⟩ := hread inner rfl
      exact reads_field h (hinner.nullable hnull)

theorem reads_nullable_str {name : String} {value : Option String}
    (h : under [name] fields = [.nullable .str value]) :
    (nullable name Reader.str).Reads fields value := by
  refine reads_nullable Json.str h ?_
  intro inner _
  exact ⟨Reader.reads_str inner, Json.str_ne_null inner⟩

theorem reads_nullable_natural {name : String} {value : Option Nat}
    (h : under [name] fields = [.nullable .nat value]) :
    (nullable name Reader.natural).Reads fields value := by
  refine reads_nullable Json.nat h ?_
  intro inner _
  exact ⟨Reader.reads_natural inner, Json.nat_ne_null inner⟩

theorem reads_pure : (Pure.pure value : Record α).Reads fields value :=
  fun _ _ _ _ => rfl

theorem Reads.map {record : Record α} (h : record.Reads fields value) (f : α → β) :
    (f <$> record).Reads fields (f value) := by
  intro entries hentries circumstance start
  show (record.run circumstance _ start).map f = _
  rw [h entries hentries circumstance start]
  rfl

theorem Reads.seq {first : Record (α → β)} {second : Record α} {f : α → β}
    (hfirst : first.Reads fields f) (hsecond : second.Reads fields value) :
    (first <*> second).Reads fields (f value) := by
  intro entries hentries circumstance start
  show (Outcome.both (first.run circumstance _ start)
    (second.run circumstance _ (start + first.width))).map _ = _
  rw [hfirst entries hentries circumstance start,
    hsecond entries hentries circumstance (start + first.width)]
  rfl

end Record

theorem firstFault_eq_ok {α : Type} {check : α → Option Fault} {items : List α}
    (h : ∀ item ∈ items, check item = none) (place : Nat) :
    firstFault check place items = .ok () := by
  induction items generalizing place with
  | nil => rfl
  | cons item rest ih =>
      rw [firstFault, h item List.mem_cons_self]
      exact ih (fun other hother => h other (List.mem_cons_of_mem item hother)) (place + 1)

/-- Everything in the document of a value can be skipped, and can be set aside. -/
theorem exists_of_mem_documents {fields : List (String × Json)} {field : String × Document}
    (h : field ∈ Document.documents fields) : ∃ json, field.2 = .ofJson json := by
  obtain ⟨entry, _, rfl⟩ := List.mem_map.mp h
  exact ⟨entry.2, rfl⟩

namespace Reader

variable {α β : Type} {fields : List (String × Json)} {value : α}

/-- An object is read by the structure that takes the value out of its fields. -/
theorem readsFields_record {record : Record α} (h : record.Reads fields value) :
    record.reader.ReadsFields fields value := by
  intro entries hentries circumstance
  have hstrays : Record.strays record.names (Document.documents entries) = .ok () := by
    refine firstFault_eq_ok ?_ 0
    intro field hfield
    obtain ⟨json, hjson⟩ := exists_of_mem_documents hfield
    simp [hjson]
  have hrun := h entries hentries circumstance 0
  simp only [Record.reader, Record.fromFields, hstrays, hrun]
  rfl

/-- A structure under a name. -/
theorem reads_structured {record : Record α} (h : record.Reads fields value)
    (hdistinct : (fields.map Prod.fst).Nodup) :
    (Form.structured record).under.Reads (.ofFields fields) value := by
  intro circumstance
  have hread := (readsFields_record h).reads hdistinct circumstance
  rw [Document.ofJson_ofFields] at hread ⊢
  cases circumstance <;> exact hread

theorem firstFault_setAside (entries : List (String × Json)) (isOwn : String → Bool)
    (place : Nat) :
    firstFault (fun field => if isOwn field.1 then none else setAside field.2) place
      (Document.documents entries) = .ok () := by
  refine firstFault_eq_ok ?_ place
  intro field hfield
  obtain ⟨json, hjson⟩ := exists_of_mem_documents hfield
  simp [hjson, setAside]

theorem filter_documents (entries : List (String × Json)) (keep : String → Bool) :
    (Document.documents entries).filter (fun field => keep field.1) =
      Document.documents (entries.filter fun field => keep field.1) := by
  simp [Document.documents, List.filter_map, Function.comp_def]

theorem reads_tag {alternatives : List (String × α)} {name : String}
    (h : alternatives.lookup name = some value) : (tag alternatives).Reads (.str name) value := by
  intro circumstance
  simp [tag, h]

/-- An object is read by the alternative that its tag names. -/
theorem readsFields_tagged {key name : String} {alternatives : List (String × Record α)}
    {record : Record α} (hname : alternatives.lookup name = some record)
    (hkey : key ∉ fields.map Prod.fst) (h : record.Reads fields value) :
    (tagged key alternatives).ReadsFields ((key, .str name) :: fields) value := by
  intro entries hentries circumstance
  have hunder : under [key] ((key, .str name) :: fields) = [.str name] := by
    simp [under_eq_nil hkey]
  have htag := Record.reads_required hunder (reads_tag hname) entries hentries circumstance 0
  have haside := firstFault_setAside entries (· == key) 0
  -- Without the tag the fields of the alternative are left.
  have hothers : (entries.filter fun field => field.1 != key).Perm fields := by
    have hkept : fields.filter (fun field => field.1 != key) = fields := by
      rw [List.filter_eq_self]
      intro field hfield
      have hne : field.1 ≠ key := fun hsame => hkey (hsame ▸ List.mem_map_of_mem hfield)
      simpa using hne
    have hperm := hentries.filter fun field => field.1 != key
    rwa [List.filter_cons_of_neg (by simp), hkept] at hperm
  have hread := readsFields_record h _ hothers .aside
  simp only [tagged, haside, htag]
  show record.reader .aside (.obj ((Document.documents entries).filter _) .closed) = _
  rw [filter_documents entries (· != key)]
  exact hread

theorem filter_others {names : List String}
    (h : ∀ name ∈ names, name ∉ fields.map Prod.fst) :
    fields.filter (fun field => !names.contains field.1) = fields := by
  rw [List.filter_eq_self]
  intro field hfield
  have hne : field.1 ∉ names := fun hmem => h field.1 hmem (List.mem_map_of_mem hfield)
  simpa using hne

/-- Two types in one object: one of them reads its own fields, the other one the rest. -/
theorem readsFields_flattened {own : Record α} {rest : Reader β} {other : β}
    (hown : own.Reads fields value)
    (hrest : rest.ReadsFields (fields.filter fun field => !own.names.contains field.1) other) :
    (flattened own rest).ReadsFields fields (value, other) := by
  intro entries hentries circumstance
  have haside := firstFault_setAside entries own.names.contains 0
  have hrun := hown entries hentries circumstance 0
  have hread := hrest _ (hentries.filter _) .aside
  rw [← filter_documents entries (fun key => !own.names.contains key)] at hread
  simp only [flattened, haside, hrun]
  show (rest .aside (.obj ((Document.documents entries).filter _) .closed) >>= _) = _
  rw [hread]
  rfl

end Reader

end TaskMachine
