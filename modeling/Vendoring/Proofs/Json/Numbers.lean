import Mathlib.Data.List.Basic
import Vendoring.Proofs.Text.Digits
import Vendoring.Proofs.Json.Strings

/-!
# Numbers in JSON

What is written for an integer or a decimal is read back as the number, unless what follows could
belong to it. The forms of a decimal differ in where the point is and in whether there is an
exponent; a number is read from its digits, wherever the point is.
-/

namespace Vendoring.Json

open Vendoring.Text Vendoring.Data

/-- What follows a number does not belong to it. -/
def EndsNumber (rest : List Char) : Prop := ∀ c ∈ rest.head?, isNumberChar c = false

/-- The values of digits. -/
def digitValues (cs : List Char) : List Nat := cs.map fun c ↦ c.toNat - '0'.toNat

/-- Only digits, and at least one. -/
structure IsDigits (cs : List Char) : Prop where
  ne_nil : cs ≠ []
  isDigit : ∀ c ∈ cs, c.isDigit = true

variable {cs rest whole after : List Char}

/-- A run of digits is read to its end. -/
theorem readDigits?_append (hcs : IsDigits cs) (hrest : ∀ c ∈ rest.head?, c.isDigit = false) :
    readDigits? (cs ++ rest) = some (digitValues cs, rest) := by
  have hvalues : cs.filterMap asciiDigit? = digitValues cs := by
    rw [digitValues, ← List.filterMap_eq_map]
    exact List.filterMap_congr fun c hc ↦ if_pos (hcs.isDigit c hc)
  have hnone : rest.takeWhile Char.isDigit = [] ∧ rest.dropWhile Char.isDigit = rest := by
    cases rest with
    | nil => exact ⟨rfl, rfl⟩
    | cons c rest =>
        have hc := hrest c rfl
        simp [hc]
  have htake : (cs ++ rest).takeWhile Char.isDigit = cs := by
    rw [List.takeWhile_append_of_pos hcs.isDigit, hnone.1, List.append_nil]
  have hdrop : (cs ++ rest).dropWhile Char.isDigit = rest := by
    rw [List.dropWhile_append_of_pos hcs.isDigit, hnone.2]
  have hne : (digitValues cs).isEmpty = false := by
    simpa [digitValues] using hcs.ne_nil
  unfold readDigits?
  dsimp only
  rw [htake, hdrop, hvalues, hne]
  rfl

/-- The first value of digits that do not start with a zero is not zero. -/
theorem IsDigits.head?_digitValues_ne (hcs : IsDigits cs) (hhead : cs.head? ≠ some '0') :
    ((digitValues cs).head? == some 0) = false := by
  cases cs with
  | nil => rfl
  | cons c tail =>
      have hc := hcs.isDigit c List.mem_cons_self
      have hrange : 48 ≤ c.toNat ∧ c.toNat ≤ 57 := by
        simpa [Char.isDigit, UInt32.le_iff_toNat_le] using hc
      have hne : c.toNat - 48 ≠ 0 := fun hzero ↦
        hhead (congrArg some (Char.toNat_inj.mp
          (Nat.le_antisymm (Nat.sub_eq_zero_iff_le.mp hzero) hrange.1)))
      simp [digitValues, hne]

/-- A number is read from its parts: the digits before the point, which do not start with a zero
unless this is the only one, those after it, and the exponent. -/
theorem readNumber?_of_parts (negative : Bool) (hwhole : IsDigits whole)
    (hzero : whole.length = 1 ∨ whole.head? ≠ some '0')
    (hafter : ∀ c ∈ after.head?, c.isDigit = false) {fraction : List Nat} {exponent : Option Int}
    (hfraction : readFraction? after = some (fraction, cs))
    (hexponent : readExponent? cs = some (exponent, rest)) :
    readNumber? ((if negative then ['-'] else []) ++ (whole ++ after)) =
      some (if fraction.isEmpty && exponent.isNone then
          .int (signed negative (ofDigits 10 (digitValues whole)))
        else .decimal (.make negative (ofDigits 10 (digitValues whole ++ fraction))
          (exponent.getD 0 - fraction.length)), rest) := by
  have hdigits := readDigits?_append hwhole hafter
  have hlong : ((digitValues whole).length > 1 && (digitValues whole).head? == some 0) = false := by
    rcases hzero with hone | hhead
    · simp [digitValues, hone]
    · simp [hwhole.head?_digitValues_ne hhead]
  unfold readNumber?
  split
  next sign unsigned hsign =>
  obtain ⟨rfl, rfl⟩ : sign = negative ∧ unsigned = whole ++ after := by
    cases negative with
    | true =>
        cases hsign
        exact ⟨rfl, rfl⟩
    | false =>
        rw [if_neg Bool.false_ne_true, List.nil_append] at hsign
        split at hsign
        · next hminus =>
            -- The number starts with a digit, which is no sign.
            obtain ⟨c, tail, rfl⟩ := List.exists_cons_of_ne_nil hwhole.ne_nil
            rw [List.cons_append] at hminus
            have hc := hwhole.isDigit c List.mem_cons_self
            rw [(List.cons.inj hminus).1] at hc
            cases hc
        · cases hsign
          exact ⟨rfl, rfl⟩
  simp only [hdigits, Option.bind_eq_bind, Option.bind_some, hlong, hfraction, hexponent]
  rw [if_neg Bool.false_ne_true]
  split
  · rfl
  · rfl

/-! ### Integers -/

/-- Nothing that follows a number is a digit, a point or the sign of an exponent. -/
theorem EndsNumber.readFraction? (hrest : EndsNumber rest) :
    readFraction? rest = some ([], rest) := by
  cases rest with
  | nil => rfl
  | cons c rest =>
      have hc := hrest c rfl
      unfold Json.readFraction?
      split
      · next hpoint =>
          rw [(List.cons.inj hpoint).1] at hc
          cases hc
      · rfl

/-- So there is no exponent. -/
theorem EndsNumber.readExponent? (hrest : EndsNumber rest) :
    readExponent? rest = some (none, rest) := by
  cases rest with
  | nil => rfl
  | cons c rest =>
      have hc := hrest c rfl
      unfold Json.readExponent?
      dsimp only
      rw [if_neg]
      rintro (rfl | rfl)
      · cases hc
      · cases hc

/-- Nor does the run of digits go on. -/
theorem EndsNumber.isDigit (hrest : EndsNumber rest) : ∀ c ∈ rest.head?, c.isDigit = false := by
  intro c hc
  have hnumber := hrest c hc
  unfold isNumberChar at hnumber
  simp only [Bool.or_eq_false_iff] at hnumber
  exact hnumber.1.1.1.1.1

/-- The digits of a number. -/
theorem isDigits_toDigits (n : Nat) : IsDigits (Nat.toDigits 10 n) :=
  ⟨Nat.toDigits_ne_nil, fun _ hc ↦ Nat.isDigit_of_mem_toDigits (by decide) (by decide) hc⟩

/-- The digits of a number stand for it. -/
theorem ofDigits_digitValues (n : Nat) : ofDigits 10 (digitValues (Nat.toDigits 10 n)) = n :=
  ofDigits_toDigits n

private theorem digitChar_ne_zero : ∀ d < 10, d ≠ 0 → Nat.digitChar d ≠ '0' := by
  decide

/-- The digits of a positive number do not start with a zero. -/
theorem head?_toDigits_ne {n : Nat} (hn : n ≠ 0) : (Nat.toDigits 10 n).head? ≠ some '0' := by
  induction n using Nat.strongRecOn with
  | ind n ih =>
      by_cases hlow : n < 10
      · rw [Nat.toDigits_of_lt_base hlow]
        exact fun hzero ↦ digitChar_ne_zero n hlow hn (Option.some.inj hzero)
      · rw [Nat.toDigits_of_base_le (by decide) (Nat.le_of_not_lt hlow),
          List.head?_append_of_ne_nil _ Nat.toDigits_ne_nil]
        exact ih (n / 10) (by omega) (by omega)

/-- The digits of a number start with a zero only if this is the only one. -/
theorem length_toDigits_or (n : Nat) :
    (Nat.toDigits 10 n).length = 1 ∨ (Nat.toDigits 10 n).head? ≠ some '0' := by
  by_cases hn : n = 0
  · exact .inl (hn ▸ rfl)
  · exact .inr (head?_toDigits_ne hn)

/-- An integer is read back. -/
theorem readNumber?_intText (n : Int) (hrest : EndsNumber rest) :
    readNumber? ((intText n).toList ++ rest) = some (.int n, rest) := by
  have hread := readNumber?_of_parts (decide (n < 0)) (isDigits_toDigits n.natAbs)
    (length_toDigits_or _) hrest.isDigit hrest.readFraction? hrest.readExponent?
  rw [ofDigits_digitValues, signed_natAbs] at hread
  rw [toList_intText, List.append_assoc]
  simpa using hread

/-! ### Zeros -/

/-- The values of digits are those of their parts. -/
theorem digitValues_append (cs ds : List Char) :
    digitValues (cs ++ ds) = digitValues cs ++ digitValues ds :=
  List.map_append

/-- More digits after digits are digits. -/
theorem IsDigits.append {ds : List Char} (hcs : IsDigits cs) (hds : ∀ c ∈ ds, c.isDigit = true) :
    IsDigits (cs ++ ds) where
  ne_nil := List.append_ne_nil_of_left_ne_nil hcs.ne_nil ds
  isDigit c hc := (List.mem_append.mp hc).elim (hcs.isDigit c) (hds c)

/-- A single zero is a run of digits. -/
theorem isDigits_zero : IsDigits ['0'] where
  ne_nil := List.cons_ne_nil _ _
  isDigit c hc := by
    rw [List.mem_singleton.mp hc]
    rfl

private theorem isDigit_of_mem_zeros {k : Nat} {c : Char} (hc : c ∈ List.replicate k '0') :
    c.isDigit = true := by
  rw [(List.mem_replicate.mp hc).2]
  rfl

/-- Zeros before digits do not change what these stand for. -/
theorem ofDigits_zeros_append (k : Nat) (digits : List Nat) :
    ofDigits 10 (digitValues (List.replicate k '0') ++ digits) = ofDigits 10 digits := by
  induction k with
  | zero => rfl
  | succ k ih => exact ih

/-- Zeros after digits are a power of ten. -/
theorem ofDigits_append_zeros (digits : List Nat) (k : Nat) :
    ofDigits 10 (digits ++ digitValues (List.replicate k '0')) =
      ofDigits 10 digits * Nat.pow 10 k := by
  induction k with
  | zero => simp [digitValues]
  | succ k ih =>
      have hlast : ofDigits 10 (digits ++ digitValues (List.replicate k '0') ++ [0]) =
          ofDigits 10 (digits ++ digitValues (List.replicate k '0')) * 10 := by
        simp [ofDigits]
      rw [List.replicate_succ', digitValues_append, ← List.append_assoc]
      refine hlast.trans ?_
      rw [ih]
      exact Nat.mul_assoc _ (Nat.pow 10 k) 10

/-! ### Making decimals -/

/-- How often ten can be divided out does not depend on the fuel, if there is enough of it. -/
theorem stripZeros_congr {fuel fuel' c : Nat} (hc : 0 < c) (h : c < Nat.pow 2 fuel)
    (h' : c < Nat.pow 2 fuel') : Decimal.stripZeros fuel c = Decimal.stripZeros fuel' c := by
  induction fuel generalizing fuel' c with
  | zero =>
      have h : c < 1 := h
      omega
  | succ fuel ih =>
      cases fuel' with
      | zero =>
          have h' : c < 1 := h'
          omega
      | succ fuel' =>
          have h : c < Nat.pow 2 fuel * 2 := h
          have h' : c < Nat.pow 2 fuel' * 2 := h'
          unfold Decimal.stripZeros
          split
          · have hstep : Decimal.stripZeros fuel (c / 10) = Decimal.stripZeros fuel' (c / 10) :=
              ih (by omega) (by omega) (by omega)
            rw [hstep]
          · rfl

/-- A factor of ten can move into the exponent. -/
theorem make_mul_ten (negative : Bool) (c : Nat) (e : Int) :
    Decimal.make negative (c * 10) e = Decimal.make negative c (e + 1) := by
  by_cases hc : c = 0
  · simp [Decimal.make, hc]
  · have hlog : c < Nat.pow 2 (c * 10).log2 := by
      have hbound : c * 10 < Nat.pow 2 (c * 10).log2 * 2 := Nat.lt_log2_self
      omega
    have hstrip : Decimal.stripZeros ((c * 10).log2 + 1) (c * 10) =
        ((Decimal.stripZeros (c.log2 + 1) c).1, (Decimal.stripZeros (c.log2 + 1) c).2 + 1) := by
      rw [Decimal.stripZeros, if_pos (Nat.mul_mod_left c 10), Nat.mul_div_cancel c (by decide),
        stripZeros_congr (Nat.pos_of_ne_zero hc) hlog Nat.lt_log2_self]
    have hc' : ¬c * 10 = 0 := by omega
    unfold Decimal.make
    rw [dif_neg hc, dif_neg hc']
    simp only [hstrip, Decimal.mk.injEq, true_and]
    omega

/-- A power of ten can move into the exponent. -/
theorem make_mul_pow (negative : Bool) (c k : Nat) (e : Int) :
    Decimal.make negative (c * Nat.pow 10 k) e = Decimal.make negative c (e + k) := by
  induction k generalizing e with
  | zero => simp
  | succ k ih =>
      have hpow : c * Nat.pow 10 (k + 1) = c * Nat.pow 10 k * 10 :=
        (Nat.mul_assoc c (Nat.pow 10 k) 10).symm
      rw [hpow, make_mul_ten, ih]
      congr 1
      omega

/-! ### Decimals -/

/-- The digits after a point are read to their end. -/
theorem readFraction?_point (hcs : IsDigits cs) (hrest : ∀ c ∈ rest.head?, c.isDigit = false) :
    readFraction? ('.' :: (cs ++ rest)) = some (digitValues cs, rest) :=
  readDigits?_append hcs hrest

/-- An exponent is read back, with zeros before its digits or without. -/
theorem readExponent?_digits (n : Int) (k : Nat) (hrest : EndsNumber rest) :
    readExponent? ('e' :: (if n < 0 then '-' else '+') ::
      (List.replicate k '0' ++ Nat.toDigits 10 n.natAbs ++ rest)) = some (some n, rest) := by
  have hdigits : IsDigits (List.replicate k '0' ++ Nat.toDigits 10 n.natAbs) :=
    ⟨List.append_ne_nil_of_right_ne_nil _ Nat.toDigits_ne_nil, fun c hc ↦
      (List.mem_append.mp hc).elim isDigit_of_mem_zeros ((isDigits_toDigits _).isDigit c)⟩
  have hread := readDigits?_append hdigits hrest.isDigit
  have hmagnitude : ofDigits 10
      (digitValues (List.replicate k '0' ++ Nat.toDigits 10 n.natAbs)) = n.natAbs := by
    rw [digitValues_append, ofDigits_zeros_append, ofDigits_digitValues]
  have hsign (cs : List Char) :
      splitSign ((if n < 0 then '-' else '+') :: cs) = (decide (n < 0), cs) := by
    by_cases hn : n < 0
    · rw [if_pos hn, decide_eq_true hn]
      rfl
    · rw [if_neg hn, decide_eq_false hn]
      rfl
  unfold readExponent?
  dsimp only
  rw [if_pos (.inl rfl), hsign]
  simp only [hread, Option.bind_eq_bind, Option.bind_some, hmagnitude, signed_natAbs]
  rfl

/-- A number with digits after a point and no exponent is read as a decimal. -/
theorem readNumber?_of_fraction (negative : Bool) {fraction : List Char} (hwhole : IsDigits whole)
    (hzero : whole.length = 1 ∨ whole.head? ≠ some '0') (hfraction : IsDigits fraction)
    (hrest : EndsNumber rest) :
    readNumber? ((if negative then ['-'] else []) ++ (whole ++ '.' :: (fraction ++ rest))) =
      some (.decimal (.make negative (ofDigits 10 (digitValues (whole ++ fraction)))
        (-fraction.length)), rest) := by
  have hne : fraction ≠ [] := hfraction.ne_nil
  have hpoint : ∀ c ∈ ('.' :: (fraction ++ rest)).head?, c.isDigit = false := by
    intro c hc
    cases hc
    rfl
  rw [readNumber?_of_parts negative hwhole hzero hpoint
    (readFraction?_point hfraction hrest.isDigit) hrest.readExponent?]
  simp [hne, digitValues]

/-- What stands before and after the point of a positional text: the digits, with zeros around them
as the point needs. The digits before the point start with a zero only if all of them do so or this
is the only one. -/
structure PointSplits (digits : List Char) (point : Int) (whole fraction : List Char) : Prop where
  zeros : ∃ before after, whole ++ fraction =
      List.replicate before '0' ++ (digits ++ List.replicate after '0') ∧
    (fraction.length : Int) = digits.length + after - point
  isDigits_whole : IsDigits whole
  isDigits_fraction : IsDigits fraction
  head : digits.length = 1 ∧ point = 1 ∨ digits.head? ≠ some '0' →
    whole.length = 1 ∨ whole.head? ≠ some '0'

section
variable {digits : List Char} {point : Int}

private theorem pointSplits_before (hdigits : IsDigits digits) (hpoint : point ≤ 0) :
    PointSplits digits point ['0'] (List.replicate (-point).toNat '0' ++ digits) where
  zeros := by
    refine ⟨(-point).toNat + 1, 0, by simp [List.replicate_succ], ?_⟩
    simp only [List.length_append, List.length_replicate]
    omega
  isDigits_whole := isDigits_zero
  isDigits_fraction := ⟨List.append_ne_nil_of_right_ne_nil _ hdigits.ne_nil, fun c hc ↦
    (List.mem_append.mp hc).elim isDigit_of_mem_zeros (hdigits.isDigit c)⟩
  head _ := .inl rfl

private theorem pointSplits_after (hdigits : IsDigits digits) (hpoint : 0 < point)
    (hlow : digits.length ≤ point.toNat) :
    PointSplits digits point (digits ++ List.replicate (point.toNat - digits.length) '0')
      ['0'] where
  zeros := by
    refine ⟨0, point.toNat - digits.length + 1, by simp [List.replicate_succ'], ?_⟩
    simp only [List.length_singleton]
    omega
  isDigits_whole := hdigits.append fun c hc ↦ isDigit_of_mem_zeros hc
  isDigits_fraction := isDigits_zero
  head hlead := by
    rcases hlead with ⟨hone, rfl⟩ | hhead
    · exact .inl (by simp [hone])
    · rw [List.head?_append_of_ne_nil _ hdigits.ne_nil]
      exact .inr hhead

private theorem pointSplits_inside (hdigits : IsDigits digits) (hpoint : 0 < point)
    (hlow : point.toNat < digits.length) :
    PointSplits digits point (digits.take point.toNat) (digits.drop point.toNat) where
  zeros := by
    refine ⟨0, 0, by simp, ?_⟩
    simp only [List.length_drop]
    omega
  isDigits_whole := by
    refine ⟨?_, fun c hc ↦ hdigits.isDigit c (List.mem_of_mem_take hc)⟩
    rw [ne_eq, List.take_eq_nil_iff, not_or]
    exact ⟨by omega, hdigits.ne_nil⟩
  isDigits_fraction := by
    refine ⟨?_, fun c hc ↦ hdigits.isDigit c (List.mem_of_mem_drop hc)⟩
    rw [ne_eq, List.drop_eq_nil_iff]
    omega
  head hlead := by
    refine .inr ?_
    rcases hlead with ⟨hone, rfl⟩ | hhead
    · omega
    · rwa [List.head?_take, if_neg (by omega)]

/-- A positional text is its digits with a point before, after or inside them. -/
theorem positional_parts (point : Int) (hdigits : IsDigits digits) :
    ∃ whole fraction, Decimal.positional digits point = whole ++ '.' :: fraction ∧
      PointSplits digits point whole fraction := by
  unfold Decimal.positional
  by_cases hpoint : point ≤ 0
  · rw [if_pos hpoint]
    exact ⟨_, _, rfl, pointSplits_before hdigits hpoint⟩
  rw [if_neg hpoint]
  dsimp only
  by_cases hlow : digits.length ≤ point.toNat
  · rw [List.take_of_length_le hlow, List.drop_eq_nil_of_le hlow]
    exact ⟨_, _, rfl, pointSplits_after hdigits (by omega) hlow⟩
  · have hsplits := pointSplits_inside hdigits (by omega) (Nat.lt_of_not_le hlow)
    rw [Nat.sub_eq_zero_of_le (Nat.le_of_not_le hlow),
      if_neg (by simpa using hsplits.isDigits_fraction.ne_nil)]
    exact ⟨_, _, by simp, hsplits⟩

end

/-- Digits with a point are read as the decimal that has them all. -/
theorem readNumber?_positional (negative : Bool) {c : Nat} {point : Int}
    (hpoint : c = 0 → point = 1) (hrest : EndsNumber rest) :
    readNumber? ((if negative then ['-'] else []) ++
        (Decimal.positional (Nat.toDigits 10 c) point ++ rest)) =
      some (.decimal (.make negative c (point - (Nat.toDigits 10 c).length)), rest) := by
  have hlead : (Nat.toDigits 10 c).length = 1 ∧ point = 1 ∨
      (Nat.toDigits 10 c).head? ≠ some '0' := by
    by_cases hc : c = 0
    · exact .inl ⟨hc ▸ rfl, hpoint hc⟩
    · exact .inr (head?_toDigits_ne hc)
  obtain ⟨whole, fraction, htext, hsplits⟩ := positional_parts point (isDigits_toDigits c)
  obtain ⟨before, after, hdigits, hlength⟩ := hsplits.zeros
  have hvalue : ofDigits 10 (digitValues (whole ++ fraction)) = c * Nat.pow 10 after := by
    rw [hdigits, digitValues_append, ofDigits_zeros_append, digitValues_append,
      ofDigits_append_zeros, ofDigits_digitValues]
  rw [htext, List.append_assoc, List.cons_append,
    readNumber?_of_fraction negative hsplits.isDigits_whole (hsplits.head hlead)
      hsplits.isDigits_fraction hrest, hvalue, make_mul_pow]
  congr 4
  omega

/-- Digits with an exponent are read as the decimal that has them all. -/
theorem readNumber?_scientific (negative : Bool) {c : Nat} (exponent : Int)
    (hrest : EndsNumber rest) :
    readNumber? ((if negative then ['-'] else []) ++
        (Decimal.scientific (Nat.toDigits 10 c) exponent ++ rest)) =
      some (.decimal (.make negative c (exponent + 1 - (Nat.toDigits 10 c).length)), rest) := by
  obtain ⟨d, fraction, hcons⟩ := List.exists_cons_of_ne_nil (isDigits_toDigits c).ne_nil
  have hdigits := isDigits_toDigits c
  have hvalue := ofDigits_digitValues c
  rw [hcons] at hdigits hvalue ⊢
  have hfirst : IsDigits [d] :=
    ⟨List.cons_ne_nil _ _, fun e he ↦ hdigits.isDigit e
      (List.mem_singleton.mp he ▸ List.mem_cons_self)⟩
  have hexponent := readExponent?_digits exponent
    (2 - (Nat.toDigits 10 exponent.natAbs).length) hrest
  have hread : readNumber? ((if negative then ['-'] else []) ++
        (Decimal.scientific (d :: fraction) exponent ++ rest)) =
      some (.decimal (.make negative (ofDigits 10 (digitValues (d :: fraction)))
        (exponent - (digitValues fraction).length)), rest) := by
    cases fraction with
    | nil =>
        exact readNumber?_of_parts negative hfirst (.inl rfl) (by rintro _ ⟨⟩; rfl)
          (rfl : readFraction? _ = some ([], _)) hexponent
    | cons e fraction =>
        have hmore : IsDigits (e :: fraction) :=
          ⟨List.cons_ne_nil _ _, fun c hc ↦ hdigits.isDigit c (List.mem_cons_of_mem _ hc)⟩
        refine (congrArg (fun text ↦ readNumber? (_ ++ text))
          (List.append_assoc (d :: '.' :: e :: fraction) _ rest)).trans ?_
        exact readNumber?_of_parts negative hfirst (.inl rfl) (by rintro _ ⟨⟩; rfl)
          (readFraction?_point hmore (by rintro _ ⟨⟩; rfl)) hexponent
  rw [hread, hvalue]
  congr 4
  simp only [digitValues, List.length_map, List.length_cons]
  omega

/-- The text of a decimal is positional or scientific, after a minus sign if it is negative. -/
theorem toList_text (d : Decimal) :
    d.text.toList = (if d.negative then ['-'] else []) ++
      (if -4 < d.pointPosition ∧ d.pointPosition ≤ 16 then
        Decimal.positional d.digits d.pointPosition
      else Decimal.scientific d.digits (d.pointPosition - 1)) := by
  unfold Decimal.text
  cases d.negative
  · exact String.toList_ofList
  · exact String.toList_ofList

/-- A decimal is read back. -/
theorem readNumber?_decimal (d : Decimal) (hrest : EndsNumber rest) :
    readNumber? (d.text.toList ++ rest) = some (.decimal d, rest) := by
  have hexponent : d.pointPosition - d.digits.length = d.exponent := by
    unfold Decimal.pointPosition
    split
    · next hc =>
        have hone : d.digits.length = 1 := by
          unfold Decimal.digits
          rw [hc]
          rfl
        have hzero : d.exponent = 0 := by simpa [hc] using d.canonical
        omega
    · omega
  rw [toList_text, List.append_assoc]
  by_cases hrange : -4 < d.pointPosition ∧ d.pointPosition ≤ 16
  · rw [if_pos hrange]
    have hpoint (hc : d.coefficient = 0) : d.pointPosition = 1 := if_pos hc
    have hread := readNumber?_positional d.negative hpoint hrest
    rw [← Decimal.digits, hexponent, Decimal.make_self] at hread
    exact hread
  · rw [if_neg hrange]
    have hread :=
      readNumber?_scientific d.negative (c := d.coefficient) (d.pointPosition - 1) hrest
    rw [← Decimal.digits, Int.sub_add_cancel, hexponent, Decimal.make_self] at hread
    exact hread

/-! ### Characters -/

private theorem isNumberChar_of_isDigit {c : Char} (hc : c.isDigit = true) :
    isNumberChar c = true := by
  simp [isNumberChar, hc]

private theorem isNumberChar_of_mem_sign {negative : Bool} {c : Char}
    (hc : c ∈ if negative then ['-'] else []) : isNumberChar c = true := by
  cases negative with
  | true =>
      rw [List.mem_singleton.mp hc]
      rfl
  | false => cases hc

/-- The text of an integer holds nothing that cannot occur in a number. -/
theorem isNumberChar_of_mem_intText {n : Int} {c : Char} (hc : c ∈ (intText n).toList) :
    isNumberChar c = true := by
  rw [toList_intText] at hc
  rcases List.mem_append.mp hc with hc | hc
  · have hsign : c ∈ if decide (n < 0) then ['-'] else [] := by simpa using hc
    exact isNumberChar_of_mem_sign hsign
  · exact isNumberChar_of_isDigit ((isDigits_toDigits _).isDigit c hc)

private theorem isNumberChar_of_mem_positional {digits : List Char} {point : Int} {c : Char}
    (hdigits : IsDigits digits) (hc : c ∈ Decimal.positional digits point) :
    isNumberChar c = true := by
  obtain ⟨whole, fraction, htext, hsplits⟩ := positional_parts point hdigits
  rw [htext, List.mem_append, List.mem_cons] at hc
  rcases hc with hc | rfl | hc
  · exact isNumberChar_of_isDigit (hsplits.isDigits_whole.isDigit c hc)
  · rfl
  · exact isNumberChar_of_isDigit (hsplits.isDigits_fraction.isDigit c hc)

private theorem isNumberChar_of_mem_scientific {digits : List Char} {exponent : Int} {c : Char}
    (hdigits : IsDigits digits) (hc : c ∈ Decimal.scientific digits exponent) :
    isNumberChar c = true := by
  have hmantissa : ∀ c ∈ digits, isNumberChar c = true :=
    fun c hc ↦ isNumberChar_of_isDigit (hdigits.isDigit c hc)
  unfold Decimal.scientific at hc
  rw [List.mem_append, List.mem_cons, List.mem_cons, List.mem_append] at hc
  rcases hc with hc | rfl | rfl | hc | hc
  · split at hc
    · simp only [List.mem_cons] at hc hmantissa
      rcases hc with rfl | rfl | hc
      · exact hmantissa c (.inl rfl)
      · rfl
      · exact hmantissa c (.inr hc)
    · exact hmantissa c hc
  · rfl
  · split
    · rfl
    · rfl
  · exact isNumberChar_of_isDigit (isDigit_of_mem_zeros hc)
  · exact isNumberChar_of_isDigit ((isDigits_toDigits _).isDigit c hc)

/-- Nor does the text of a decimal. -/
theorem isNumberChar_of_mem_text {d : Decimal} {c : Char} (hc : c ∈ d.text.toList) :
    isNumberChar c = true := by
  rw [toList_text] at hc
  rcases List.mem_append.mp hc with hc | hc
  · exact isNumberChar_of_mem_sign hc
  · split at hc
    · exact isNumberChar_of_mem_positional (isDigits_toDigits _) hc
    · exact isNumberChar_of_mem_scientific (isDigits_toDigits _) hc

end Vendoring.Json
