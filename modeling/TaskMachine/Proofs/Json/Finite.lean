import TaskMachine.Json.Scanner

/-!
# Finite numbers

Rounding never makes an infinite double (`Double.isFinite_of_nearest?`), and so no numeral
is read as one.  `Document.Finite` says that there are only finite numbers in a document,
and `finite_ofText` that this holds of every document that is scanned from text.
-/

namespace TaskMachine

namespace Double

/-- A magnitude below that of infinity makes a finite double, whatever the sign. -/
theorem isFinite_ofMagnitude {magnitude : Nat} (h : magnitude < 2047 * Nat.pow 2 52)
    (negative : Bool) : (ofMagnitude negative magnitude).isFinite = true := by
  have hfraction : Nat.pow 2 52 = 4503599627370496 := rfl
  have hexponent : Nat.pow 2 11 = 2048 := rfl
  have hsign : Nat.pow 2 63 = 9223372036854775808 := rfl
  rw [hfraction] at h
  have hbits : (ofMagnitude negative magnitude).exponentBits = magnitude / 4503599627370496 := by
    unfold exponentBits ofMagnitude
    rw [hfraction, hexponent, hsign]
    cases negative with
    | false =>
        simp only [Bool.false_eq_true, if_false, UInt64.toNat_ofNat']
        omega
    | true =>
        simp only [if_true, UInt64.toNat_ofNat']
        omega
  unfold isFinite
  rw [hbits, decide_eq_true_eq]
  omega

theorem isFinite_of_nearest? {negative : Bool} {num den : Nat} {d : Double}
    (h : nearest? negative num den = some d) : d.isFinite = true := by
  unfold nearest? at h
  dsimp only at h
  split at h
  next hlt =>
    cases h
    exact isFinite_ofMagnitude hlt negative
  next => cases h

theorem isFinite_zero (negative : Bool) : (zero negative).isFinite = true :=
  isFinite_ofMagnitude (by decide) negative

theorem isFinite_ofInt (value : Int) : (ofInt value).isFinite = true := by
  unfold ofInt
  cases h : nearest? (decide (value < 0)) value.natAbs 1 with
  | none => exact isFinite_zero false
  | some d => exact isFinite_of_nearest? h

theorem isFinite_of_times? {a b d : Double} (h : a.times? b = some d) : d.isFinite = true := by
  unfold times? at h
  exact isFinite_of_nearest? h

theorem isFinite_of_over? {a b d : Double} (h : a.over? b = some d) : d.isFinite = true := by
  unfold over? at h
  exact isFinite_of_nearest? h

/-- Steps by quotients end in a finite double where they begin with one. -/
theorem isFinite_of_foldlM {powers : List Nat} {d result : Double} (hd : d.isFinite = true)
    (h : powers.foldlM (fun d n => powerOfTen? n >>= d.over?) d = some result) :
    result.isFinite = true := by
  induction powers generalizing d with
  | nil =>
      cases h
      exact hd
  | cons power rest ih =>
      rw [List.foldlM_cons] at h
      obtain ⟨next, hnext, hrest⟩ := Option.bind_eq_some_iff.mp h
      obtain ⟨divisor, _, hover⟩ := Option.bind_eq_some_iff.mp hnext
      exact ih (isFinite_of_over? hover) hrest

theorem isFinite_of_shift? {d result : Double} {exponent : Int} (hd : d.isFinite = true)
    (h : d.shift? exponent = some result) : result.isFinite = true := by
  cases exponent with
  | ofNat n =>
      change d.raise? n = some result at h
      unfold raise? at h
      split at h
      · cases h
        exact hd
      · obtain ⟨factor, _, htimes⟩ := Option.bind_eq_some_iff.mp h
        exact isFinite_of_times? htimes
  | negSucc n => exact isFinite_of_foldlM hd h

end Double

/-- A number is an integer or a finite double. -/
def Number.Finite : Number → Prop
  | .integer _ => True
  | .double value => value.isFinite = true

theorem Number.Finite.toDouble {number : Number} (h : number.Finite) :
    number.toDouble.isFinite = true := by
  cases number with
  | integer value => exact Double.isFinite_ofInt value
  | double value => exact h

theorem Numeral.finite_of_number? {numeral : Numeral} {number : Number}
    (h : numeral.number? = some number) : number.Finite := by
  unfold number? at h
  split at h
  next value _ =>
    cases h
    exact trivial
  next =>
    obtain ⟨d, hd, rfl⟩ := Option.map_eq_some_iff.mp h
    obtain ⟨rounded, hrounded, hshift⟩ := Option.bind_eq_some_iff.mp hd
    exact Double.isFinite_of_shift? (Double.isFinite_of_nearest? hrounded) hshift

/-! ## Documents -/

mutual

/-- All numbers in a document are finite. -/
def Document.Finite : Document → Prop
  | .number value => value.Finite
  | .arr items _ => finiteItems items
  | .obj fields _ => finiteFields fields
  | .tooDeep inner => inner.Finite
  | .null | .bool _ | .str _ | .unreadable | .broken => True

/-- All numbers in some documents are finite. -/
def finiteItems : List Document → Prop
  | [] => True
  | item :: rest => item.Finite ∧ finiteItems rest

/-- All numbers in the documents of fields are finite. -/
def finiteFields : List (String × Document) → Prop
  | [] => True
  | (_, value) :: rest => value.Finite ∧ finiteFields rest

end

theorem finiteItems_iff {items : List Document} :
    finiteItems items ↔ ∀ item ∈ items, item.Finite := by
  induction items with
  | nil => simp [finiteItems]
  | cons item rest ih => simp [finiteItems, ih]

theorem finiteFields_iff {fields : List (String × Document)} :
    finiteFields fields ↔ ∀ field ∈ fields, field.2.Finite := by
  induction fields with
  | nil => simp [finiteFields]
  | cons field rest ih => simp [finiteFields, ih]

/-- All numbers in a JSON value are finite, as they are in every text. -/
def Json.Finite (value : Json) : Prop := (Document.ofJson value).Finite

/-! ## Texts -/

namespace Scanner

theorem finite_numeral (numeral : Numeral) :
    (numeral.number?.elim Document.unreadable Document.number).Finite := by
  cases h : numeral.number? with
  | none => exact trivial
  | some number => exact Numeral.finite_of_number? h

theorem finite_of_number? {negative : Bool} {text rest : List Char} {document : Document}
    (h : number? negative text = some (document, rest)) : document.Finite := by
  unfold number? at h
  dsimp only at h
  split at h
  · cases h
  · obtain ⟨_, _, hfraction⟩ := Option.bind_eq_some_iff.mp h
    obtain ⟨_, _, hexponent⟩ := Option.bind_eq_some_iff.mp hfraction
    cases hexponent
    exact finite_numeral _

/-- A step ends with a document of finite numbers. -/
theorem finite_ofOption {scanned : Option (Document × List Char)}
    (h : ∀ document rest, scanned = some (document, rest) → document.Finite) :
    (Step.ofOption scanned).1.Finite := by
  cases scanned with
  | none => exact trivial
  | some found => exact h found.1 found.2 rfl

theorem finite_stringDocument {text rest : List Char} {document : Document}
    (h : stringDocument text = some (document, rest)) : document.Finite := by
  obtain ⟨⟨chars, last⟩, _, heq⟩ := Option.map_eq_some_iff.mp h
  cases heq
  cases chars <;> exact trivial

theorem finite_word {name : String} {document : Document} {text : List Char}
    (h : document.Finite) : (word name document text).1.Finite := by
  unfold word
  split
  · exact h
  · exact trivial

theorem finite_bounded {levels : Nat} {document : Document} (h : document.Finite) :
    (bounded levels document).Finite := by
  unfold bounded
  split
  · exact h
  · exact h

theorem finite_consField {key : Option (List Char)} {value : Document}
    {fields : List (String × Document)} {closing : Closing} (hvalue : value.Finite)
    (hfields : finiteFields fields) : finiteFields (consField key value fields closing).1 := by
  cases key with
  | none => exact trivial
  | some chars => exact ⟨hvalue, hfields⟩

/-- What is scanned with so many steps left has only finite numbers. -/
structure Scans (fuel : Nat) : Prop where
  value : ∀ levels text, (value fuel levels text).1.Finite
  array : ∀ levels text, finiteItems (array fuel levels text).1
  items : ∀ levels text, finiteItems (items fuel levels text).1
  object : ∀ levels text, finiteFields (object fuel levels text).1
  fields : ∀ levels text, finiteFields (fields fuel levels text).1

theorem finite_value {fuel : Nat} (h : Scans fuel) (levels : Nat) (text : List Char) :
    (value (fuel + 1) levels text).1.Finite := by
  unfold value
  split
  next rest _ => exact finite_bounded (h.object (levels - 1) rest)
  next rest _ => exact finite_bounded (h.array (levels - 1) rest)
  next => exact finite_ofOption fun _ _ => finite_stringDocument
  next => exact finite_ofOption fun _ _ => finite_of_number?
  next => exact finite_word trivial
  next => exact finite_word trivial
  next => exact finite_word trivial
  next => exact finite_ofOption fun _ _ => finite_of_number?

theorem finite_array {fuel : Nat} (h : Scans fuel) (levels : Nat) (text : List Char) :
    finiteItems (array (fuel + 1) levels text).1 := by
  unfold array
  split
  next => exact trivial
  next rest _ => exact h.items levels _

theorem finite_items {fuel : Nat} (h : Scans fuel) (levels : Nat) (text : List Char) :
    finiteItems (items (fuel + 1) levels text).1 := by
  have hitem := h.value levels text
  unfold items
  split
  next item heq =>
    rw [heq] at hitem
    exact ⟨hitem, trivial⟩
  next item rest heq =>
    rw [heq] at hitem
    split
    · exact ⟨hitem, trivial⟩
    · exact ⟨hitem, h.items levels _⟩
    · exact ⟨hitem, trivial⟩

theorem finite_object {fuel : Nat} (h : Scans fuel) (levels : Nat) (text : List Char) :
    finiteFields (object (fuel + 1) levels text).1 := by
  unfold object
  split
  next => exact trivial
  next => exact h.fields levels _

theorem finite_fields {fuel : Nat} (h : Scans fuel) (levels : Nat) (text : List Char) :
    finiteFields (fields (fuel + 1) levels text).1 := by
  unfold fields
  split
  next rest _ =>
    split
    · exact trivial
    next key behind _ =>
      split
      next after _ =>
        have hvalue := h.value levels after
        split
        next field heq =>
          rw [heq] at hvalue
          exact finite_consField hvalue trivial
        next field last heq =>
          rw [heq] at hvalue
          split
          · exact finite_consField hvalue trivial
          · exact finite_consField hvalue (h.fields levels _)
          · exact finite_consField hvalue trivial
      next => exact finite_consField trivial trivial
  next => exact trivial

/-- Whatever is scanned has only finite numbers. -/
theorem scans (fuel : Nat) : Scans fuel := by
  induction fuel with
  | zero =>
      constructor <;> intro levels text <;>
        simp [value, array, items, object, fields, Document.Finite, finiteItems, finiteFields]
  | succ fuel ih => exact ⟨finite_value ih, finite_array ih, finite_items ih,
      finite_object ih, finite_fields ih⟩

end Scanner

/-- No text has a number that is not finite. -/
theorem Document.finite_ofText (text : String) : (ofText text).1.Finite :=
  (Scanner.scans _).value maxDepth text.toList

end TaskMachine
