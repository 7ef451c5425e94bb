import Vendoring.Text.Integer

/-!
# Exact decimals

A decimal is a sign, a coefficient and a power of ten; trailing zeros of the coefficient move into
the exponent, so each value has one form (zero has one for each sign). `text` writes a decimal as
report files hold it: positional between 10⁻⁴ and 10¹⁶ and always with a fraction there, otherwise
with an exponent of at least two digits.
-/

namespace Vendoring.Data

open Vendoring.Text

/-- A decimal number `± coefficient * 10 ^ exponent`. -/
structure Decimal where
  negative : Bool
  coefficient : Nat
  exponent : Int
  canonical : coefficient % 10 ≠ 0 ∨ coefficient = 0 ∧ exponent = 0
  deriving DecidableEq, Repr

namespace Decimal

/-- Divide by ten as often as this leaves no remainder, at most the given number of times, and
count the divisions. -/
def stripZeros : Nat → Nat → Nat × Nat
  | 0, c => (c, 0)
  | fuel + 1, c =>
    if c % 10 = 0 then
      let r := stripZeros fuel (c / 10)
      (r.1, r.2 + 1)
    else (c, 0)

/-- A positive number below `2 ^ fuel` is left without trailing zeros. -/
theorem stripZeros_mod (fuel : Nat) {c : Nat} (hc : 0 < c) (h : c < Nat.pow 2 fuel) :
    (stripZeros fuel c).1 % 10 ≠ 0 := by
  induction fuel generalizing c with
  | zero =>
    have h : c < 1 := h
    omega
  | succ fuel ih =>
    have h : c < Nat.pow 2 fuel * 2 := h
    unfold stripZeros
    split
    · exact ih (by omega) (by omega)
    · assumption

/-- The decimal with a sign, a coefficient and an exponent. -/
def make (negative : Bool) (coefficient : Nat) (exponent : Int) : Decimal :=
  if h : coefficient = 0 then ⟨negative, 0, 0, .inr ⟨rfl, rfl⟩⟩
  else
    let fuel := coefficient.log2 + 1
    ⟨negative, (stripZeros fuel coefficient).1, exponent + (stripZeros fuel coefficient).2,
      .inl (stripZeros_mod fuel (Nat.pos_of_ne_zero h) Nat.lt_log2_self)⟩

/-- The decimal `n * 10 ^ exponent`. -/
def ofScaled (n : Int) (exponent : Int) : Decimal :=
  make (decide (n < 0)) n.natAbs exponent

/-- An integer as a decimal. -/
def ofInt (n : Int) : Decimal := ofScaled n 0

/-- The decimal zero. -/
def zero : Decimal := ofInt 0

instance : Inhabited Decimal := ⟨zero⟩

/-- The coefficient with its sign. -/
def significand (d : Decimal) : Int := signed d.negative d.coefficient

/-- The value in units of `10 ^ exponent`, exact if the exponent is not greater than the
decimal's own. -/
def scaledTo (d : Decimal) (exponent : Int) : Int :=
  d.significand * (Nat.pow 10 (d.exponent - exponent).toNat : Nat)

/-- The difference of two decimals. -/
def sub (x y : Decimal) : Decimal :=
  let e := min x.exponent y.exponent
  ofScaled (x.scaledTo e - y.scaledTo e) e

/-- A thousand times a decimal. -/
def thousandfold (d : Decimal) : Decimal := make d.negative d.coefficient (d.exponent + 3)

/-- The integer that a decimal equals, if it has no fraction. -/
def toInt? (d : Decimal) : Option Int :=
  if 0 ≤ d.exponent then some (d.scaledTo 0) else none

/-- The digits of the coefficient. -/
def digits (d : Decimal) : List Char := Nat.toDigits 10 d.coefficient

/-- How many digits stand before the point; zero and less when the fraction starts with zeros. -/
def pointPosition (d : Decimal) : Int :=
  if d.coefficient = 0 then 1 else d.digits.length + d.exponent

/-- Digits with a point after the given number of them, padded with zeros on both sides as
needed. -/
def positional (digits : List Char) (point : Int) : List Char :=
  if point ≤ 0 then '0' :: '.' :: List.replicate (-point).toNat '0' ++ digits
  else
    let n := point.toNat
    let whole := digits.take n ++ List.replicate (n - digits.length) '0'
    let fraction := digits.drop n
    whole ++ '.' :: (if fraction.isEmpty then ['0'] else fraction)

/-- Digits with a point after the first and an exponent of at least two digits. -/
def scientific (digits : List Char) (exponent : Int) : List Char :=
  let mantissa := match digits with
    | d :: e :: rest => d :: '.' :: e :: rest
    | ds => ds
  let magnitude := Nat.toDigits 10 exponent.natAbs
  mantissa ++ 'e' :: (if exponent < 0 then '-' else '+') ::
    (List.replicate (2 - magnitude.length) '0' ++ magnitude)

/-- A decimal as text. -/
def text (d : Decimal) : String :=
  let point := d.pointPosition
  let body := if -4 < point ∧ point ≤ 16 then positional d.digits point
    else scientific d.digits (point - 1)
  String.ofList (if d.negative then '-' :: body else body)

/-- Making a decimal of a decimal's own parts gives it back. -/
theorem make_self (d : Decimal) : make d.negative d.coefficient d.exponent = d := by
  obtain ⟨negative, coefficient, exponent, hc⟩ := d
  unfold make
  split
  · next h =>
    subst h
    have he : exponent = 0 := by simpa using hc
    simp [he]
  · next h =>
    have hc : ¬ coefficient % 10 = 0 := by rcases hc with hc | hc <;> simp_all
    simp [stripZeros, hc]

end Decimal
end Vendoring.Data
