import Mathlib.Algebra.Ring.GeomSum
import Mathlib.NumberTheory.Multiplicity
import Vendoring.Proofs.Entropy.Stream

/-!
# Orbits of the generator

Many steps of the generator are one affine map, so what they do can be said without going through
them one by one. Reduced modulo a power of two, a word comes back after a number of steps exactly
when that power divides the number, and every residue is met on the way.
-/

namespace Vendoring.Entropy

/-- The factor of a step. -/
def factor : ℕ := 6364136223846793005

/-- The summand of a number of steps: the sum of the first powers of the factor. -/
def summand (n : ℕ) : ℕ := ∑ i ∈ Finset.range n, factor ^ i

variable {k n : ℕ} {x y : ℕ}

/-- A number of steps is one affine map, reduced once at the end. -/
theorem iterate_nextWord (n x : ℕ) :
    nextWord^[n] x ≡ factor ^ n * x + summand n [MOD 2 ^ 64] := by
  induction n with
  | zero => simp [summand, Nat.ModEq.refl]
  | succ n ih =>
      rw [Function.iterate_succ_apply']
      calc nextWord (nextWord^[n] x)
        _ ≡ factor * nextWord^[n] x + 1 [MOD 2 ^ 64] := Nat.mod_modEq _ _
        _ ≡ factor * (factor ^ n * x + summand n) + 1 [MOD 2 ^ 64] :=
          (ih.mul_left factor).add_right 1
        _ = factor ^ (n + 1) * x + summand (n + 1) := by
          unfold summand
          rw [geom_sum_succ, pow_succ']
          ring

/-- The affine map of a number of steps, modulo any power of two that a word is wide enough for. -/
theorem iterate_nextWord_mod (hk : k ≤ 64) (n x : ℕ) :
    nextWord^[n] x ≡ factor ^ n * x + summand n [MOD 2 ^ k] :=
  (iterate_nextWord n x).of_dvd (pow_dvd_pow 2 hk)

/-- Words that agree modulo a power of two keep agreeing. -/
theorem iterate_nextWord_congr (hk : k ≤ 64) (h : x ≡ y [MOD 2 ^ k]) (n : ℕ) :
    nextWord^[n] x ≡ nextWord^[n] y [MOD 2 ^ k] :=
  calc nextWord^[n] x
    _ ≡ factor ^ n * x + summand n [MOD 2 ^ k] := iterate_nextWord_mod hk n x
    _ ≡ factor ^ n * y + summand n [MOD 2 ^ k] := (h.mul_left _).add_right _
    _ ≡ nextWord^[n] y [MOD 2 ^ k] := (iterate_nextWord_mod hk n y).symm

/-- The factor is one more than a multiple of four, so the summand of a number of steps has as many
factors of two as the number. -/
theorem two_pow_dvd_summand_iff (k n : ℕ) : 2 ^ k ∣ summand n ↔ 2 ^ k ∣ n := by
  have hlift := Int.two_pow_sub_pow' (x := factor) (y := 1) n (by decide) (by decide)
  have hsum : (factor : ℤ) ^ n - 1 ^ n = ((factor : ℤ) - 1) * summand n := by
    unfold summand
    push_cast
    rw [one_pow, mul_comm, geom_sum_mul]
  rw [hsum, emultiplicity_mul Int.prime_two] at hlift
  have hfinite : emultiplicity (2 : ℤ) (factor - 1) ≠ ⊤ :=
    finiteMultiplicity_iff_emultiplicity_ne_top.mp
      (Int.finiteMultiplicity_iff.mpr ⟨by decide, by decide⟩)
  have hequal := WithTop.add_left_cancel hfinite hlift
  have hdvd : ((2 : ℕ) : ℤ) ^ k ∣ summand n ↔ ((2 : ℕ) : ℤ) ^ k ∣ n := by
    rw [Nat.cast_ofNat, pow_dvd_iff_le_emultiplicity, pow_dvd_iff_le_emultiplicity, hequal]
  exact_mod_cast hdvd

/-- A number of steps adds an odd multiple of its summand to a word. -/
theorem affine_eq (n x : ℕ) :
    factor ^ n * x + summand n = x + summand n * ((factor - 1) * x + 1) := by
  have hpower : factor ^ n = summand n * (factor - 1) + 1 := (geom_sum_mul_add (factor - 1) n).symm
  rw [hpower]
  ring

/-- Modulo a power of two, a word comes back after exactly the multiples of that power. -/
theorem iterate_nextWord_modEq_self_iff (hk : k ≤ 64) (n x : ℕ) :
    nextWord^[n] x ≡ x [MOD 2 ^ k] ↔ 2 ^ k ∣ n := by
  have hodd : Odd ((factor - 1) * x + 1) := by
    have heven : Even (factor - 1) := by decide
    exact (heven.mul_right x).add_one
  have hcoprime : Nat.Coprime (2 ^ k) ((factor - 1) * x + 1) :=
    (Nat.coprime_two_left.mpr hodd).pow_left k
  have hback : nextWord^[n] x ≡ x [MOD 2 ^ k] ↔
      x + summand n * ((factor - 1) * x + 1) ≡ x [MOD 2 ^ k] := by
    rw [← affine_eq]
    exact ⟨(iterate_nextWord_mod hk n x).symm.trans, (iterate_nextWord_mod hk n x).trans⟩
  rw [hback, Nat.add_modEq_left_iff, hcoprime.dvd_mul_right, two_pow_dvd_summand_iff]

/-- Modulo a power of two, different numbers of steps below that power lead to different words. -/
theorem eq_of_iterate_nextWord_modEq (hk : k ≤ 64) {i j : ℕ} (hi : i < 2 ^ k) (hj : j < 2 ^ k)
    (h : nextWord^[i] x ≡ nextWord^[j] x [MOD 2 ^ k]) : i = j := by
  wlog hle : i ≤ j generalizing i j
  · exact (this hj hi h.symm (by omega)).symm
  have hsteps : nextWord^[j] x = nextWord^[j - i] (nextWord^[i] x) := by
    rw [← Function.iterate_add_apply, Nat.sub_add_cancel hle]
  rw [hsteps] at h
  have hdvd := (iterate_nextWord_modEq_self_iff hk _ _).mp h.symm
  have hzero := Nat.eq_zero_of_dvd_of_lt hdvd (by omega)
  omega

/-- Modulo a power of two, every word is reached from every word. -/
theorem exists_iterate_nextWord_modEq (hk : k ≤ 64) (x y : ℕ) :
    ∃ n, nextWord^[n] x ≡ y [MOD 2 ^ k] := by
  have hpos : 0 < 2 ^ k := Nat.two_pow_pos k
  let reached (i : Fin (2 ^ k)) : Fin (2 ^ k) := ⟨nextWord^[i] x % 2 ^ k, Nat.mod_lt _ hpos⟩
  have hinjective : Function.Injective reached := by
    intro i j h
    exact Fin.ext (eq_of_iterate_nextWord_modEq hk i.isLt j.isLt (Fin.val_eq_of_eq h))
  obtain ⟨i, hi⟩ := Finite.surjective_of_injective hinjective ⟨y % 2 ^ k, Nat.mod_lt _ hpos⟩
  exact ⟨i, Fin.val_eq_of_eq hi⟩

end Vendoring.Entropy
