/-!
# Hexadecimal text

Numbers in hexadecimal at a least width, and bytes as two lower-case digits each. Reading the
digits of a byte sequence back gives the bytes.
-/

namespace Vendoring.Text

/-- The lower-case digit of a number below sixteen. -/
def hexChar (n : Nat) : Char :=
  if n < 10 then Char.ofNat (0x30 + n) else Char.ofNat (0x57 + n)

/-- The hexadecimal digits of a number, padded with zeros to a least width. -/
def hexDigits (width n : Nat) : List Char :=
  let digits := Nat.toDigits 16 n
  List.replicate (width - digits.length) '0' ++ digits

/-- The hexadecimal digits of a number in upper case, padded with zeros to a least width. -/
def upperHexDigits (width n : Nat) : List Char :=
  (hexDigits width n).map Char.toUpper

/-- The two digits of a byte. -/
def hexByte (b : UInt8) : List Char :=
  [hexChar (b.toNat / 16), hexChar (b.toNat % 16)]

/-- The digits of a byte sequence, two for each byte. -/
def hexBytes (bytes : List UInt8) : String :=
  String.ofList (bytes.flatMap hexByte)

/-- The value of a lower-case hexadecimal digit. -/
def lowerHexDigit? (c : Char) : Option Nat :=
  let n := c.toNat
  if 0x30 ≤ n ∧ n ≤ 0x39 then some (n - 0x30)
  else if 0x61 ≤ n ∧ n ≤ 0x66 then some (n - 0x61 + 10)
  else none

/-- The bytes that a sequence of digit pairs stands for. -/
def ofHexChars? : List Char → Option (List UInt8)
  | [] => some []
  | [_] => none
  | a :: b :: rest => do
    let high ← lowerHexDigit? a
    let low ← lowerHexDigit? b
    return UInt8.ofNat (high * 16 + low) :: (← ofHexChars? rest)

/-- A digit stands for the number it was written for. -/
theorem lowerHexDigit?_hexChar : ∀ {n : Nat}, n < 16 → lowerHexDigit? (hexChar n) = some n := by
  decide

/-- Reading the digits of a byte sequence gives the bytes. -/
theorem ofHexChars?_hexBytes (bytes : List UInt8) :
    ofHexChars? (hexBytes bytes).toList = some bytes := by
  rw [hexBytes, String.toList_ofList]
  induction bytes with
  | nil => rfl
  | cons b bs ih =>
    have hb := b.toNat_lt
    rw [List.flatMap_cons, hexByte]
    simp only [List.cons_append, List.nil_append, ofHexChars?, ih,
      lowerHexDigit?_hexChar (show b.toNat / 16 < 16 by omega),
      lowerHexDigit?_hexChar (show b.toNat % 16 < 16 by omega)]
    have h : b.toNat / 16 * 16 + b.toNat % 16 = b.toNat := by omega
    simp only [h, UInt8.ofNat_toNat, Option.bind_eq_bind, Option.bind_some, Option.pure_def]

end Vendoring.Text
