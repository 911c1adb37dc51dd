import TaskMachine.Json.Number

/-!
# Numerals

A `Numeral` is a number as it is spelled: digits before and behind the point,
and an exponent.  `Numeral.number?` is the number it is read as.

An integer of sixty-four bits is read exactly.  Of any other numeral as many
digits as fit sixty-four bits are gathered into a significand, and that is
shifted to its place by powers of ten, each step rounded on its own.  So a
numeral with many digits or a large exponent need not be read as the double
nearest to it, not even one that `Number.text` wrote.
-/

namespace TaskMachine

/-- A number as it is spelled.  Digits are given by their values. -/
structure Numeral where
  negative : Bool := false
  whole : List Nat
  /-- The digits behind the point, if there is a point. -/
  places : Option (List Nat) := none
  exponent : Option Int := none
deriving DecidableEq, Repr

namespace Numeral

/-- What a significand stays below. -/
def significandBound : Nat := Nat.pow 2 64

/-- Digits appended to a significand as long as it fits, and the digits from the
first one on that does not. -/
def gather : Nat → List Nat → Nat × List Nat
  | significand, [] => (significand, [])
  | significand, digit :: rest =>
    let next := 10 * significand + digit
    if next < significandBound then gather next rest
    else (significand, digit :: rest)

/-- A significand and the power of ten it is to be multiplied by. -/
structure Scaled where
  significand : Nat
  exponent : Int
deriving DecidableEq, Repr

/-- The significand of a numeral.  Whole digits that do not fit count as powers of
ten; behind the point digits are gathered again up to the first one that does
not fit. -/
def scaled (numeral : Numeral) : Scaled :=
  let (whole, dropped) := gather 0 numeral.whole
  let places := numeral.places.getD []
  let (significand, ignored) := gather whole places
  let behindPoint := places.length - ignored.length
  ⟨significand, numeral.exponent.getD 0 + dropped.length - behindPoint⟩

/-- The double a numeral is read as; `none` beyond the largest double. -/
def double? (numeral : Numeral) : Option Double :=
  let scaled := numeral.scaled
  (Double.nearest? numeral.negative scaled.significand 1).bind fun d =>
    d.shift? scaled.exponent

/-- The integer of a numeral that is one and is kept exactly.  Minus zero is
none, since no integer has its sign. -/
def integer? (numeral : Numeral) : Option Int :=
  let (size, dropped) := gather 0 numeral.whole
  let value : Int := if numeral.negative then -size else size
  if numeral.places.isNone && numeral.exponent.isNone && dropped.isEmpty &&
      Number.isExact value && !(numeral.negative && size == 0) then some value
  else none

/-- The number a numeral is read as; `none` beyond the largest double. -/
def number? (numeral : Numeral) : Option Number :=
  match numeral.integer? with
  | some value => some (.integer value)
  | none => numeral.double?.map .double

/-! The least number kept exactly and the one below it; minus zero; digits left
over before the point and behind it. -/

example : number? ⟨true, [9, 2, 2, 3, 3, 7, 2, 0, 3, 6, 8, 5, 4, 7, 7, 5, 8, 0, 8], none, none⟩ =
    some (.integer (-9223372036854775808)) := by decide +kernel
example : number? ⟨true, [9, 2, 2, 3, 3, 7, 2, 0, 3, 6, 8, 5, 4, 7, 7, 5, 8, 0, 9], none, none⟩ =
    some (.double (.ofInt (-9223372036854775808))) := by decide +kernel
example : number? ⟨true, [0], none, none⟩ = some (.double (.zero true)) := by
  decide +kernel
example : scaled ⟨false, [1, 8, 4, 4, 6, 7, 4, 4, 0, 7, 3, 7, 0, 9, 5, 5, 1, 6, 1, 6], none, none⟩ =
    ⟨1844674407370955161, 1⟩ := by decide +kernel
example : scaled ⟨false, [1, 8, 4, 4, 6, 7, 4, 4, 0, 7, 3, 7, 0, 9, 5, 5, 1, 6, 1, 6], some [5, 6], none⟩ =
    ⟨18446744073709551615, 0⟩ := by decide +kernel

end Numeral

end TaskMachine
