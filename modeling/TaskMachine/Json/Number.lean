import TaskMachine.Json.Double

/-!
# Numbers of a document

A number is kept as an integer where it was written as one and fits sixty-four
bits, and as a double otherwise.  The two never mix: `2` and `2.0` are different
numbers and are written back differently.

`Number.text` writes a number down.  Which number a numeral is read as is said
in `TaskMachine.Json.Numeral`.
-/

namespace TaskMachine

/-- A number as a document keeps it. -/
inductive Number where
  | integer (value : Int)
  | double (value : Double)
deriving DecidableEq, Repr, Inhabited

namespace Double

/-- Which doubles are written without an exponent.  What counts is how many
digits stand before the point; for a number below one it is zero or, by every
zero that follows the point, one less. -/
structure Layout where
  /-- The least such count. -/
  lowest : Int
  /-- The greatest such count. -/
  highest : Int
deriving DecidableEq

/-- Doubles are positional from `10 ^ (-5)` up to below `10 ^ 16`. -/
def layout : Layout := ⟨-4, 16⟩

private def zeros (n : Nat) : String := String.ofList (List.replicate n '0')

/-- The text of a positive decimal: positional with at least one digit after
the point, or with an exponent that always has a sign. -/
def Decimal.text (decimal : Decimal) : String :=
  let digits := toString decimal.digits
  let point : Int := digits.length + decimal.exponent
  if layout.lowest ≤ point ∧ point ≤ layout.highest then
    if point ≤ 0 then "0." ++ zeros (-point).toNat ++ digits
    else if point < digits.length then
      String.ofList (digits.toList.take point.toNat) ++ "." ++
        String.ofList (digits.toList.drop point.toNat)
    else digits ++ zeros (point.toNat - digits.length) ++ ".0"
  else
    let tail := digits.toList.drop 1
    let mantissa :=
      String.ofList (digits.toList.take 1) ++
        (if tail.isEmpty then "" else "." ++ String.ofList tail)
    let exponent := point - 1
    mantissa ++ "e" ++ (if exponent < 0 then "-" else "+") ++
      toString exponent.natAbs

/-- The text of a double.  What is not finite has no numeral and is written
`null`. -/
def text (d : Double) : String :=
  if d.isFinite then
    (if d.isNegative then "-" else "") ++
      (if d.significand = 0 then "0.0" else d.shortest.text)
  else "null"

/-! Both ends of the positional form, and the signs. -/

example : (ofDecimal? false 1 (-5)).map text = some "0.00001" := by decide +kernel
example : (ofDecimal? false 1 (-6)).map text = some "1e-6" := by decide +kernel
example : (ofDecimal? false 1 15).map text = some "1000000000000000.0" := by
  decide +kernel
example : (ofDecimal? false 1 16).map text = some "1e+16" := by decide +kernel
example : (ofDecimal? true 15 299).map text = some "-1.5e+300" := by decide +kernel
example : (ofDecimal? true 0 0).map text = some "-0.0" := by decide +kernel

end Double

namespace Number

/-- Whether an integer is kept exactly: from `-2 ^ 63` up to below `2 ^ 64`. -/
def isExact (i : Int) : Bool := -Int.pow 2 63 ≤ i && i < Int.pow 2 64

/-- The number as a double. -/
def toDouble : Number → Double
  | .integer value => .ofInt value
  | .double value => value

/-- The numeral of a number. -/
def text : Number → String
  | .integer value => toString value
  | .double value => value.text

end Number

end TaskMachine
