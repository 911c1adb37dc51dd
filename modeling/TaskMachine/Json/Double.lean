/-!
# Double precision numbers

A `Double` is the 64 bit pattern of a binary floating point number: a sign, an
exponent of eleven bits and a fraction of fifty-two.  Everything here is exact
arithmetic on natural numbers over that pattern, so that reading and printing
can be reasoned about and run the same everywhere.

* `Double.nearest?` rounds a quotient of naturals to the nearest double, a tie
  to the even neighbour, and fails where the result would be infinite.
* `Double.times?` and `Double.over?` are the product and the quotient of two
  doubles, exact and then rounded once; `Double.shift?` moves a double by powers
  of ten in such steps.
* `Double.ofDecimal?` rounds a decimal significand and exponent once.
* `Double.shortest` finds the fewest decimal digits from which `ofDecimal?`
  makes the same double, and of those the nearest to it.

`shift?` rounds at every step, so what it makes of a decimal can lie beside what
`ofDecimal?` makes of it.  Nothing here adds doubles or compares them by value.
-/

namespace TaskMachine

/-- A binary floating point number of 64 bits, by its bit pattern. -/
structure Double where
  bits : UInt64
deriving DecidableEq, Repr, Inhabited

namespace Double

/-- Whether the sign bit is set. -/
def isNegative (d : Double) : Bool := Nat.pow 2 63 ≤ d.bits.toNat

/-- The biased exponent: the eleven bits below the sign. -/
def exponentBits (d : Double) : Nat := d.bits.toNat / Nat.pow 2 52 % Nat.pow 2 11

/-- The low fifty-two bits. -/
def fractionBits (d : Double) : Nat := d.bits.toNat % Nat.pow 2 52

/-- Infinities and the patterns that stand for no number have the largest
exponent. -/
def isFinite (d : Double) : Bool := d.exponentBits ≠ 2047

/-- The magnitude of a finite double is `significand * 2 ^ (scale - 1074)`. -/
def significand (d : Double) : Nat :=
  if d.exponentBits = 0 then d.fractionBits else d.fractionBits + Nat.pow 2 52

/-- The power of two of a finite double's unit, counted from the smallest
one, `2 ^ (-1074)`. -/
def scale (d : Double) : Nat := d.exponentBits - 1

/-- The double with a sign and a magnitude pattern. -/
def ofMagnitude (negative : Bool) (magnitude : Nat) : Double :=
  ⟨UInt64.ofNat (if negative then magnitude + Nat.pow 2 63 else magnitude)⟩

/-- Zero with a sign. -/
def zero (negative : Bool) : Double := ofMagnitude negative 0

/-- The natural number nearest to a quotient, the even one of two. -/
def roundQuotient (num den : Nat) : Nat :=
  let down := num / den
  let rest := num % den
  if 2 * rest < den then down
  else if den < 2 * rest then down + 1
  else down + down % 2

/-- The largest `e` with `2 ^ e ≤ num / den`, counted from `-1074` and cut off
there: the scale at which the quotient has its leading bit. -/
def leadingScale (num den : Nat) : Nat :=
  let scaled := num * Nat.pow 2 1074 / den
  Nat.log2 scaled - 52

/-- The double nearest to `num / den` with a sign, the one with the even
significand of two; `none` where that is beyond the largest double. -/
def nearest? (negative : Bool) (num den : Nat) : Option Double :=
  let scale := leadingScale num den
  let magnitude :=
    scale * Nat.pow 2 52 + roundQuotient (num * Nat.pow 2 1074) (den * Nat.pow 2 scale)
  if magnitude < 2047 * Nat.pow 2 52 then some (ofMagnitude negative magnitude)
  else none

/-- The number of decimal digits of a positive number; one for zero. -/
def digitCount (n : Nat) : Nat := (Nat.toDigits 10 n).length

/-- The double nearest to `digits * 10 ^ exponent`.  Exponents far beyond the
range of doubles are answered without computing the power. -/
def ofDecimal? (negative : Bool) (digits : Nat) (exponent : Int) :
    Option Double :=
  if digits = 0 then some (zero negative)
  else
    let top := exponent + digitCount digits
    if 310 < top then none
    else if top < -330 then some (zero negative)
    else if 0 ≤ exponent then
      nearest? negative (digits * Nat.pow 10 exponent.toNat) 1
    else nearest? negative digits (Nat.pow 10 (-exponent).toNat)

/-- The double nearest to an integer.  Every integer that stands in a document
is in range; one that is not becomes zero. -/
def ofInt (i : Int) : Double :=
  (nearest? (decide (i < 0)) i.natAbs 1).getD (zero false)

/-- The magnitude of a finite double as a quotient of naturals. -/
def quotient (d : Double) : Nat × Nat :=
  (d.significand * Nat.pow 2 d.scale, Nat.pow 2 1074)

/-- The double nearest to the product of two finite ones; `none` beyond the
largest double. -/
def times? (a b : Double) : Option Double :=
  let (m, k) := a.quotient
  let (n, l) := b.quotient
  nearest? (a.isNegative != b.isNegative) (m * n) (k * l)

/-- The double nearest to a finite one over another that is not zero; `none`
beyond the largest double. -/
def over? (a b : Double) : Option Double :=
  let (m, k) := a.quotient
  let (n, l) := b.quotient
  nearest? (a.isNegative != b.isNegative) (m * l) (k * n)

/-- The greatest `n` for which `10 ^ n` is not beyond the largest double. -/
def topPower : Nat := 308

/-- The double nearest to `10 ^ n`, up to the greatest such power. -/
def powerOfTen? (n : Nat) : Option Double :=
  if n ≤ topPower then nearest? false (Nat.pow 10 n) 1 else none

/-- A finite double times `10 ^ n`, in one product.  Only zero can be multiplied
by a power that is no double. -/
def raise? (d : Double) (n : Nat) : Option Double :=
  if d.significand = 0 then some d else powerOfTen? n >>= d.times?

/-- A finite double over `10 ^ n`, by as many quotients as the power takes.  Four
quotients by the greatest power leave zero of any double, so no more are
made. -/
def lower? (d : Double) (n : Nat) : Option Double :=
  (List.replicate (min (n / topPower) 4) topPower ++ [n % topPower]).foldlM
    (fun d n => powerOfTen? n >>= d.over?) d

/-- A finite double times a power of ten with an exponent of either sign;
`none` beyond the largest double. -/
def shift? (d : Double) : Int → Option Double
  | .ofNat n => d.raise? n
  | .negSucc n => d.lower? (n + 1)

/-- A positive decimal `digits * 10 ^ exponent`. -/
structure Decimal where
  digits : Nat
  exponent : Int
deriving DecidableEq, Repr

/-- Moves up to so many zeros from the end of the digits into the exponent. -/
def Decimal.trim : Nat → Decimal → Decimal
  | 0, decimal => decimal
  | most + 1, ⟨digits, exponent⟩ =>
    if digits ≠ 0 ∧ digits % 10 = 0 then
      Decimal.trim most ⟨digits / 10, exponent + 1⟩
    else ⟨digits, exponent⟩

/-- The power of ten of the leading digit of a positive quotient that is at
least `10 ^ (-400)`. -/
def leadingExponent (num den : Nat) : Int :=
  (digitCount (num * Nat.pow 10 400 / den) : Int) - 401

/-- The two neighbours of `num / den` on the grid of multiples of
`10 ^ exponent`, the nearer one first, an even one first of two that are as
near. -/
def gridNeighbours (num den : Nat) (exponent : Int) : List Nat :=
  let (n, d) :=
    if 0 ≤ exponent then (num, den * Nat.pow 10 exponent.toNat)
    else (num * Nat.pow 10 (-exponent).toNat, den)
  let down := n / d
  if roundQuotient n d = down then [down, down + 1] else [down + 1, down]

/-- The first decimal with a number of digits that reads back as a double. -/
def atPrecision? (d : Double) (digits : Nat) : Option Decimal :=
  let (num, den) := d.quotient
  let exponent := leadingExponent num den - (digits - 1 : Nat)
  ((gridNeighbours num den exponent).find? fun candidate =>
      ofDecimal? d.isNegative candidate exponent == some d).map
    fun candidate => ⟨candidate, exponent⟩

/-- The decimal of fewest digits that reads back as a finite double other than
zero, and of those the nearest to it.  Seventeen digits always suffice.  A
candidate above the leading digit, such as ten units of `10 ^ 22`, ends in
zeros that are no digits of it. -/
def shortest (d : Double) : Decimal :=
  (((List.range 17).findSome? fun n => d.atPrecision? (n + 1)).getD ⟨0, 0⟩).trim 17

/-! The least and the greatest positive double, and what lies beyond. -/

example : (⟨1⟩ : Double).shortest = ⟨5, -324⟩ := by decide +kernel
example : (⟨0x7fefffffffffffff⟩ : Double).shortest = ⟨17976931348623157, 292⟩ := by
  decide +kernel
example : ofDecimal? false 1 309 = none := by decide +kernel
example : ofDecimal? false 1 (-400) = some (zero false) := by decide +kernel

/-! Where a step of `shift?` is inexact its result can be the neighbour of the
nearest double; zero stays zero, whatever the power. -/

example : (ofInt 6194512011566194096).shift? (-19) =
    ofDecimal? false 6194512011566193 (-16) := by decide +kernel
example : ofDecimal? false 6194512011566194096 (-19) =
    ofDecimal? false 6194512011566194 (-16) := by decide +kernel
example : (ofInt 2).shift? 308 = none := by decide +kernel
example : (zero true).shift? 4000000000 = some (zero true) := by decide +kernel
example : (ofInt 1).shift? (-4000000000) = some (zero false) := by decide +kernel

end Double

end TaskMachine
