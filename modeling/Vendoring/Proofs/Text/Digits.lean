import Vendoring.Text.Integer

/-!
# Digits of numbers

The decimal digits of a number stand for it, and the text of an integer is made of the digits of its
magnitude.
-/

namespace Vendoring.Text

/-- The decimal digits of a number stand for it. -/
theorem ofDigits_toDigits (n : Nat) :
    ofDigits 10 ((Nat.toDigits 10 n).map fun c ↦ c.toNat - '0'.toNat) = n := by
  have hfold : ofDigits 10 ((Nat.toDigits 10 n).map fun c ↦ c.toNat - '0'.toNat) =
      Nat.ofDigitChars 10 (Nat.toDigits 10 n) 0 := by
    unfold ofDigits
    rw [List.foldl_map, Nat.ofDigitChars_eq_foldl]
    simp only [Nat.mul_comm]
  rw [hfold, Nat.ofDigitChars_toDigits (by decide) (by decide)]

/-- A character that is no digit is not in a number in decimal. -/
theorem notMem_toString {c : Char} (hc : c.isDigit = false) (n : Nat) :
    c ∉ (toString n).toList := by
  intro hmem
  have hdigits : (toString n).toList = Nat.toDigits 10 n := String.toList_ofList
  rw [hdigits] at hmem
  have hdigit := Nat.isDigit_of_mem_toDigits (by decide) (by decide) hmem
  rw [hc] at hdigit
  cases hdigit

/-- The integer with the sign and the magnitude of an integer is that integer. -/
theorem signed_natAbs (n : Int) : signed (decide (n < 0)) n.natAbs = n := by
  unfold signed
  by_cases hn : n < 0
  · rw [decide_eq_true hn, if_pos rfl]
    omega
  · rw [decide_eq_false hn, if_neg Bool.false_ne_true]
    omega

/-- The text of an integer is a minus sign if it is negative, and the digits of its magnitude. -/
theorem toList_intText (v : Int) :
    (intText v).toList = (if v < 0 then ['-'] else []) ++ Nat.toDigits 10 v.natAbs := by
  cases v with
  | ofNat n =>
      have hsign : ¬ Int.ofNat n < 0 := Int.not_lt.mpr (Int.natCast_nonneg n)
      rw [if_neg hsign]
      exact String.toList_ofList
  | negSucc n =>
      rw [if_pos (Int.negSucc_lt_zero n)]
      exact String.toList_ofList

end Vendoring.Text
