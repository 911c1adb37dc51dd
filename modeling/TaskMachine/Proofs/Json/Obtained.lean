import TaskMachine.Proofs.Json.Finite
import TaskMachine.Proofs.Json.Written

/-!
# What readers take out

`Reader.Yields good` says that every value which a reader takes out of a document is good,
whatever the document holds; only its numbers have to be finite.  `Record.Yields` says the
same of a structure and the parts that it is taken out of.

There is one rule for every way to put readers together.  The proofs about particular types
use these rules and do not look into readers.
-/

namespace TaskMachine

/-! ## Results -/

/-- A sequence succeeds where both of its parts do. -/
theorem exists_of_bind_eq_ok {ε α β : Type} {result : Except ε α} {next : α → Except ε β}
    {value : β} (h : result >>= next = .ok value) :
    ∃ inner, result = .ok inner ∧ next inner = .ok value := by
  cases result with
  | error e => cases h
  | ok inner => exact ⟨inner, rfl, h⟩

/-- A choice between a value and a fault succeeds where there is a value. -/
theorem exists_of_elim_eq_ok {ε α β : Type} {option : Option α} {fault : ε} {f : α → β}
    {value : β} (h : option.elim (.error fault) (fun inner => .ok (f inner)) = Except.ok value) :
    ∃ inner, option = some inner ∧ f inner = value := by
  cases option with
  | none => cases h
  | some inner =>
      cases h
      exact ⟨inner, rfl, rfl⟩

/-- Every answer of a walk over a list is the answer of one of its steps. -/
theorem exists_of_mem_mapM {ε α β : Type} {items : List α} {step : α → Except ε β}
    {values : List β} (h : items.mapM step = .ok values) {value : β} (hvalue : value ∈ values) :
    ∃ item ∈ items, step item = .ok value := by
  induction items generalizing values with
  | nil =>
      cases h
      cases hvalue
  | cons item rest ih =>
      rw [List.mapM_cons] at h
      obtain ⟨first, hfirst, hlater⟩ := exists_of_bind_eq_ok h
      obtain ⟨others, hothers, heq⟩ := exists_of_bind_eq_ok hlater
      cases heq
      rcases List.mem_cons.mp hvalue with rfl | hmem
      · exact ⟨item, List.mem_cons_self, hfirst⟩
      · obtain ⟨other, hother, hstep⟩ := ih hothers hmem
        exact ⟨other, List.mem_cons_of_mem item hother, hstep⟩

namespace Outcome

variable {α β : Type}

theorem of_both_eq_ok {first : Outcome α} {second : Outcome β} {values : α × β}
    (h : first.both second = .ok values) : first = .ok values.1 ∧ second = .ok values.2 := by
  cases first <;> cases second <;> cases h
  exact ⟨rfl, rfl⟩

theorem exists_of_map_eq_ok {outcome : Outcome α} {f : α → β} {value : β}
    (h : outcome.map f = .ok value) : ∃ inner, outcome = .ok inner ∧ f inner = value := by
  cases outcome with
  | error e => cases h
  | ok inner =>
      cases h
      exact ⟨inner, rfl, rfl⟩

theorem of_forget_eq_ok {outcome : Outcome α} {value : α} (h : outcome.forget = .ok value) :
    outcome = .ok value := by
  cases outcome <;> cases h
  rfl

theorem of_at'_eq_ok {place : Nat} {result : Except Fault α} {value : α}
    (h : at' place result = .ok value) : result = .ok value := by
  cases result <;> cases h
  rfl

end Outcome

/-! ## Parts of documents -/

/-- Only the document `null` has the value `null`. -/
theorem Document.eq_null_of_value? {document : Document}
    (h : document.value? = some .null) : document = .null := by
  cases document with
  | null => rfl
  | bool value =>
      have hraw := congrArg Json.raw (Option.some.inj h)
      cases hraw
  | number value => exact absurd (Option.some.inj h) (Json.number_ne_null value)
  | str value => exact absurd (Option.some.inj h) (Json.str_ne_null value)
  | arr items closing =>
      cases closing with
      | closed =>
          obtain ⟨values, _, heq⟩ := Option.map_eq_some_iff.mp h
          exact absurd heq (Json.arr_ne_null values)
      | stuck _ => cases h
  | obj fields closing =>
      cases closing with
      | closed =>
          obtain ⟨values, _, heq⟩ := Option.map_eq_some_iff.mp h
          exact absurd heq (Json.ofFields_ne_null values)
      | stuck _ => cases h
  | unreadable => cases h
  | tooDeep inner => cases h
  | broken => cases h

theorem finiteFields_filter {fields : List (String × Document)} (h : finiteFields fields)
    (keep : String × Document → Bool) : finiteFields (fields.filter keep) := by
  rw [finiteFields_iff] at h ⊢
  intro field hfield
  exact h field (List.mem_of_mem_filter hfield)

theorem finiteItems_drop {items : List Document} (h : finiteItems items) (count : Nat) :
    finiteItems (items.drop count) := by
  rw [finiteItems_iff] at h ⊢
  intro item hitem
  exact h item (List.mem_of_mem_drop hitem)

/-! ## Readers -/

/-- Every value that a reader takes out of a document with finite numbers is good. -/
def Reader.Yields {α : Type} (reader : Reader α) (good : α → Prop) : Prop :=
  ∀ circumstance document value, document.Finite →
    reader circumstance document = .ok value → good value

namespace Reader

variable {α β : Type} {good : α → Prop} {reader : Reader α}

/-- Nothing is asked of a value. -/
theorem yields_any (reader : Reader α) : reader.Yields fun _ => True :=
  fun _ _ _ _ _ => trivial

/-- A reader without an answer yields whatever is asked for. -/
theorem yields_error (refusal : Circumstance → Document → Fault) :
    Yields (fun circumstance document => .error (refusal circumstance document)) good := by
  intro circumstance document value _ hread
  cases hread

theorem yields_double : Reader.double.Yields fun value => value.isFinite = true := by
  intro circumstance document value hfinite hread
  cases document with
  | number number =>
      cases hread
      exact Number.Finite.toDouble hfinite
  | _ => cases hread

theorem Yields.nullable (h : reader.Yields good) :
    reader.nullable.Yields fun value => ∀ inner ∈ value, good inner := by
  intro circumstance document value hfinite hread
  unfold Reader.nullable at hread
  split at hread
  next =>
    cases hread
    intro inner hinner
    cases hinner
  next =>
    cases hfound : reader circumstance document with
    | error fault =>
        rw [hfound] at hread
        cases hread
    | ok found =>
        rw [hfound] at hread
        cases hread
        intro inner hinner
        cases hinner
        exact h circumstance document found hfinite hfound

/-- A field of any value is not there where it is `null`. -/
theorem yields_nullable_json :
    Reader.json.nullable.Yields fun value => ∀ inner ∈ value, inner ≠ .null := by
  intro circumstance document value _ hread
  unfold Reader.nullable at hread
  split at hread
  next =>
    cases hread
    intro inner hinner
    cases hinner
  next hdocument =>
    -- Another document than `null` has another value.
    cases hvalue : document.value? with
    | none =>
        rw [Reader.json, hvalue] at hread
        cases hread
    | some found =>
        rw [Reader.json, hvalue] at hread
        cases hread
        intro inner hinner hnull
        cases hinner
        rw [hnull] at hvalue
        exact hdocument (Document.eq_null_of_value? hvalue)

theorem Yields.list (h : reader.Yields good) :
    reader.list.Yields fun values => ∀ value ∈ values, good value := by
  intro circumstance document values hfinite hread
  cases document with
  | arr items closing =>
      obtain ⟨found, hfound, hrest⟩ := exists_of_bind_eq_ok hread
      obtain ⟨_, _, heq⟩ := exists_of_bind_eq_ok hrest
      cases heq
      intro value hvalue
      obtain ⟨item, hitem, hitemread⟩ := exists_of_mem_mapM hfound hvalue
      exact h circumstance item value (finiteItems_iff.mp hfinite item hitem) hitemread
  | _ => cases hread

theorem Yields.andThen {next : α → Except Fault β} {good' : β → Prop} (h : reader.Yields good)
    (hnext : ∀ value, good value → ∀ answer, next value = .ok answer → good' answer) :
    (reader.andThen next).Yields good' := by
  intro circumstance document answer hfinite hread
  obtain ⟨value, hvalue, hanswer⟩ := exists_of_bind_eq_ok hread
  exact hnext value (h circumstance document value hfinite hvalue) answer hanswer

theorem yields_untagged {reader : Document → Option α}
    (h : ∀ document value, document.Finite → reader document = some value → good value) :
    (untagged reader).Yields good := by
  intro circumstance document value hfinite hread
  unfold untagged at hread
  split at hread
  · obtain ⟨inner, hinner, rfl⟩ := exists_of_elim_eq_ok hread
    exact h document inner hfinite hinner
  · cases hread

end Reader

/-! ## Structures -/

/-- All numbers in the parts of a structure are finite. -/
def Parts.Finite : Parts → Prop
  | .named fields => finiteFields fields
  | .listed items => finiteItems items

/-- Every value that a structure takes out of parts with finite numbers is good. -/
def Record.Yields {α : Type} (record : Record α) (good : α → Prop) : Prop :=
  ∀ circumstance parts start value, parts.Finite →
    record.run circumstance parts start = .ok value → good value

namespace Record

variable {α β : Type} {good : α → Prop}

/-- What is found under some names are documents of the fields. -/
theorem exists_of_mem_occurrences {names : List String} {fields : List (String × Document)}
    {found : Document × Nat} (h : found ∈ occurrences names fields) :
    ∃ field ∈ fields, field.2 = found.1 := by
  unfold occurrences at h
  obtain ⟨⟨field, place⟩, hmem, hkept⟩ := List.mem_filterMap.mp h
  dsimp only at hkept
  split at hkept
  · cases hkept
    exact ⟨field, List.fst_mem_of_mem_zipIdx hmem, rfl⟩
  · cases hkept

/-- A field yields what its reader yields, and a value that stands for it. -/
theorem yields_field {names : List String} {unnamed unlisted : Option α} {reader : Reader α}
    (hreader : reader.Yields good) (hunnamed : ∀ value ∈ unnamed, good value)
    (hunlisted : ∀ value ∈ unlisted, good value) :
    (field names unnamed unlisted reader).Yields good := by
  intro circumstance parts start value hfinite hrun
  cases parts with
  | named fields =>
      have hdocument : ∀ found ∈ occurrences names fields, found.1.Finite := by
        intro found hfound
        obtain ⟨field, hfield, heq⟩ := exists_of_mem_occurrences hfound
        rw [← heq]
        exact finiteFields_iff.mp hfinite field hfield
      simp only [field] at hrun
      split at hrun
      next =>
        obtain ⟨inner, hinner, rfl⟩ := exists_of_elim_eq_ok hrun
        exact hunnamed inner hinner
      next document place hfound =>
        have hread := Outcome.of_at'_eq_ok hrun
        rw [hfound] at hdocument
        exact hreader circumstance document value (hdocument _ List.mem_cons_self) hread
      next =>
        -- A second field of the name is a fault.
        obtain ⟨pair, hpair, _⟩ := Outcome.exists_of_map_eq_ok hrun
        obtain ⟨_, hagain⟩ := Outcome.of_both_eq_ok hpair
        cases hagain
  | listed items =>
      simp only [field] at hrun
      split at hrun
      next =>
        obtain ⟨inner, hinner, rfl⟩ := exists_of_elim_eq_ok hrun
        exact hunlisted inner hinner
      next document hitem =>
        have hread := Outcome.of_at'_eq_ok hrun
        have hdocument := finiteItems_iff.mp hfinite document (List.mem_of_getElem? hitem)
        exact hreader circumstance document value hdocument hread

theorem yields_required {name : String} {reader : Reader α} (h : reader.Yields good) :
    (required name reader).Yields good := by
  refine yields_field h ?_ ?_ <;> simp

theorem yields_defaulted {name : String} {default : α} {reader : Reader α}
    (h : reader.Yields good) (hdefault : good default) :
    (defaulted name default reader).Yields good := by
  refine yields_field h ?_ ?_ <;> simpa using hdefault

theorem yields_defaulted_list {name : String} {reader : Reader α} (h : reader.Yields good) :
    (defaulted name [] reader.list).Yields fun values => ∀ value ∈ values, good value := by
  refine yields_defaulted h.list ?_
  simp

/-- A field that may be missing yields what its reader yields of what is not `null`. -/
theorem yields_nullable {names : List String} {reader : Reader α}
    (h : reader.nullable.Yields fun value => ∀ inner ∈ value, good inner) :
    (optional names reader).Yields fun value => ∀ inner ∈ value, good inner := by
  refine yields_field h ?_ ?_ <;> simp

theorem yields_optional {names : List String} {reader : Reader α} (h : reader.Yields good) :
    (optional names reader).Yields fun value => ∀ inner ∈ value, good inner :=
  yields_nullable h.nullable

/-- Nothing is asked of a value. -/
theorem yields_any (record : Record α) : record.Yields fun _ => True :=
  fun _ _ _ _ _ _ => trivial

theorem yields_pure {value : α} (h : good value) :
    (Pure.pure value : Record α).Yields good := by
  intro circumstance parts start answer _ hrun
  cases hrun
  exact h

theorem Yields.map {record : Record α} {good' : β → Prop} {f : α → β} (h : record.Yields good)
    (hf : ∀ value, good value → good' (f value)) : (f <$> record).Yields good' := by
  intro circumstance parts start answer hfinite hrun
  obtain ⟨value, hvalue, rfl⟩ := Outcome.exists_of_map_eq_ok hrun
  exact hf value (h circumstance parts start value hfinite hvalue)

/-- A constructor is followed by the fields that it still takes. -/
theorem Yields.seq {first : Record (α → β)} {second : Record α} {good' : β → Prop}
    (hfirst : first.Yields fun f => ∀ value, good value → good' (f value))
    (hsecond : second.Yields good) : (first <*> second).Yields good' := by
  intro circumstance parts start answer hfinite hrun
  obtain ⟨⟨f, value⟩, hboth, rfl⟩ := Outcome.exists_of_map_eq_ok hrun
  obtain ⟨hf, hvalue⟩ := Outcome.of_both_eq_ok hboth
  exact hfirst circumstance parts start f hfinite hf value
    (hsecond circumstance parts _ value hfinite hvalue)

/-- An object or an array yields what the structure yields. -/
theorem Yields.reader {record : Record α} (h : record.Yields good) :
    record.reader.Yields good := by
  intro circumstance document value hfinite hread
  cases document with
  | obj fields closing =>
      obtain ⟨pair, hpair, rfl⟩ :=
        Outcome.exists_of_map_eq_ok (Outcome.of_forget_eq_ok hread)
      obtain ⟨_, hrun⟩ := Outcome.of_both_eq_ok hpair
      exact h circumstance (.named fields) 0 pair.2 hfinite hrun
  | arr items closing =>
      obtain ⟨pair, hpair, rfl⟩ :=
        Outcome.exists_of_map_eq_ok (Outcome.of_forget_eq_ok hread)
      obtain ⟨_, hrun⟩ := Outcome.of_both_eq_ok hpair
      exact h circumstance (.listed items) 0 pair.2 hfinite hrun
  | _ => cases hread

end Record

namespace Reader

variable {α β : Type} {good : α → Prop}

/-- A tag names one of the alternatives. -/
theorem yields_tag (alternatives : List (String × α)) :
    (tag alternatives).Yields fun chosen => ∃ name, (name, chosen) ∈ alternatives := by
  intro circumstance document value hfinite hread
  -- Splitting would take the assumption about the document along.
  clear hfinite
  unfold tag at hread
  split at hread
  next name =>
    obtain ⟨chosen, hchosen, rfl⟩ := exists_of_elim_eq_ok hread
    obtain ⟨before, after, hsplit, _⟩ := List.lookup_eq_some_iff.mp hchosen
    refine ⟨name, ?_⟩
    simp [hsplit]
  next number =>
    split at hread
    · obtain ⟨chosen, hchosen, rfl⟩ := exists_of_elim_eq_ok hread
      exact ⟨chosen.1, List.mem_of_getElem? hchosen⟩
    · cases hread
  next => cases hread

/-- A tagged type yields what each of its alternatives yields. -/
theorem yields_tagged {key : String} {alternatives : List (String × Record α)}
    (h : ∀ alternative ∈ alternatives, alternative.2.Yields good) :
    (tagged key alternatives).Yields good := by
  have htag : (Record.required key (tag alternatives)).Yields _ :=
    Record.yields_required (yields_tag alternatives)
  intro circumstance document value hfinite hread
  cases document with
  | obj fields closing =>
      obtain ⟨⟨_, _, record⟩, hchosen, hvalue⟩ := exists_of_bind_eq_ok hread
      obtain ⟨_, hlater⟩ := Outcome.of_both_eq_ok (Outcome.of_forget_eq_ok hchosen)
      obtain ⟨_, hrun⟩ := Outcome.of_both_eq_ok hlater
      -- What the tag chose is one of the alternatives; it reads the other fields.
      obtain ⟨name, hmem⟩ := htag circumstance (.named fields) 0 record hfinite hrun
      have hothers : (Document.obj (fields.filter fun field => field.1 != key) .closed).Finite :=
        finiteFields_filter hfinite _
      exact (h _ hmem).reader .aside _ value hothers hvalue
  | arr items closing =>
      obtain ⟨⟨_, _, record⟩, hchosen, hvalue⟩ := exists_of_bind_eq_ok hread
      obtain ⟨_, hlater⟩ := Outcome.of_both_eq_ok (Outcome.of_forget_eq_ok hchosen)
      obtain ⟨_, hrun⟩ := Outcome.of_both_eq_ok hlater
      obtain ⟨name, hmem⟩ := htag circumstance (.listed items) 0 record hfinite hrun
      have hothers : (Document.arr (items.drop 1) .closed).Finite := finiteItems_drop hfinite 1
      exact (h _ hmem).reader .aside _ value hothers hvalue
  | _ => cases hread

/-- Two types in one object yield what each of them yields. -/
theorem yields_flattened {own : Record α} {rest : Reader β} {good' : β → Prop}
    (hown : own.Yields good) (hrest : rest.Yields good') :
    (flattened own rest).Yields fun values => good values.1 ∧ good' values.2 := by
  intro circumstance document values hfinite hread
  cases document with
  | obj fields closing =>
      obtain ⟨⟨_, _, value⟩, hchosen, hlater⟩ := exists_of_bind_eq_ok hread
      obtain ⟨_, hboth⟩ := Outcome.of_both_eq_ok (Outcome.of_forget_eq_ok hchosen)
      obtain ⟨_, hrun⟩ := Outcome.of_both_eq_ok hboth
      obtain ⟨other, hother, heq⟩ := exists_of_bind_eq_ok hlater
      cases heq
      have hothers : (Document.obj
          (fields.filter fun field => !own.names.contains field.1) .closed).Finite :=
        finiteFields_filter hfinite _
      constructor
      · exact hown circumstance (.named fields) 0 value hfinite hrun
      · exact hrest .aside _ other hothers hother
  | _ => cases hread

end Reader

end TaskMachine
