import Mathlib.Data.Int.ModEq
import Vendoring.Proofs.Entropy.Draws
import Vendoring.Proofs.Entropy.FullPeriod

/-!
# Jumping ahead

The generator reduces its word at every step. Nothing is lost by that: integers that agree modulo
2^64 keep agreeing, so the same word is found by going all the way in exact arithmetic and reducing
once at the end. And there a number of steps is one affine map, which needs no steps at all.
-/

namespace Vendoring.Entropy

variable {x y : ℤ}

/-- One step of the generator in exact arithmetic. -/
def exactStep (x : ℤ) : ℤ := factor * x + 1

/-- What a number of steps makes of an integer: the power of the factor times the integer, and the
sum of the powers below it. -/
def jump (n : ℕ) (x : ℤ) : ℤ := factor ^ n * x + summand n

/-- In exact arithmetic a number of steps is one jump. -/
theorem iterate_exactStep (n : ℕ) (x : ℤ) : exactStep^[n] x = jump n x := by
  induction n with
  | zero => simp [jump, summand]
  | succ n ih =>
      rw [Function.iterate_succ_apply', ih]
      unfold exactStep jump summand
      rw [geom_sum_succ, pow_succ']
      push_cast
      ring

/-- Integers that agree modulo 2^64 agree after an exact step. -/
theorem exactStep_congr (h : x ≡ y [ZMOD 2 ^ 64]) : exactStep x ≡ exactStep y [ZMOD 2 ^ 64] :=
  (h.mul_left factor).add_right 1

/-- Reducing an integer and what every exact step makes of it is the same as reducing once at the
end. -/
theorem iterate_reduced (n : ℕ) (x : ℤ) :
    (fun y ↦ exactStep y % 2 ^ 64)^[n] (x % 2 ^ 64) = exactStep^[n] x % 2 ^ 64 := by
  induction n with
  | zero => rfl
  | succ n ih =>
      rw [Function.iterate_succ_apply', Function.iterate_succ_apply', ih]
      exact exactStep_congr (Int.mod_modEq _ _)

namespace Generator

/-- The word of a seed is the seed's remainder. -/
theorem toNat_state_ofSeed (s : ℤ) : ((ofSeed s).state.toNat : ℤ) = s % 2 ^ 64 := by
  have hpos := Int.emod_nonneg s (show (2 ^ 64 : ℤ) ≠ 0 by decide)
  show ((wordOf s).toNat : ℤ) = s % 2 ^ 64
  rw [toNat_wordOf, Int.toNat_of_nonneg hpos]

/-- The word some steps after a seed is the remainder of a jump from the seed. -/
theorem toNat_state_jump (s : ℤ) (n : ℕ) :
    ((next^[n] (ofSeed s)).state.toNat : ℤ) = jump n s % 2 ^ 64 := by
  have hsteps : ((next^[n] (ofSeed s)).state.toNat : ℤ) ≡ jump n s [ZMOD 2 ^ 64] :=
    calc ((next^[n] (ofSeed s)).state.toNat : ℤ)
      _ = (nextWord^[n] (ofSeed s).state.toNat : ℕ) := by rw [toNat_state_iterate_next]
      _ ≡ factor ^ n * (ofSeed s).state.toNat + summand n [ZMOD 2 ^ 64] := by
        exact_mod_cast Int.natCast_modEq_iff.mpr (iterate_nextWord n (ofSeed s).state.toNat)
      _ = factor ^ n * (s % 2 ^ 64) + summand n := by rw [toNat_state_ofSeed]
      _ ≡ jump n s [ZMOD 2 ^ 64] := ((Int.mod_modEq s _).mul_left _).add_right _
  have hsmall := (next^[n] (ofSeed s)).state.toNat_lt
  calc ((next^[n] (ofSeed s)).state.toNat : ℤ)
    _ = (next^[n] (ofSeed s)).state.toNat % 2 ^ 64 :=
      (Int.emod_eq_of_lt (by omega) (by exact_mod_cast hsmall)).symm
    _ = jump n s % 2 ^ 64 := hsteps

/-- The byte at a position of the stream of a seed is bits 33 to 40 of a jump from the seed. -/
theorem toNat_byteAt_jump (s : ℤ) (i : ℕ) :
    (((ofSeed s).byteAt i).toNat : ℤ) = jump (i + 1) s % 2 ^ 64 / 2 ^ 33 % 2 ^ 8 := by
  have hbyte : ((ofSeed s).byteAt i).toNat =
      (next^[i + 1] (ofSeed s)).state.toNat / 2 ^ 33 % 2 ^ 8 := by
    unfold byteAt
    rw [toNat_byte, shownByte, Nat.shiftRight_eq_div_pow]
    rfl
  rw [hbyte, ← toNat_state_jump]
  push_cast
  rfl

/-- A seeded generator can jump ahead. Drawing any number of bytes after any seed, negative or wider
than a word, leaves the state that one jump from the seed gives, and each byte is bits 33 to 40 of
the jump to its own step; and the jump is what the steps give in exact arithmetic, so it makes no
difference whether they are reduced one by one or only at the end. -/
theorem generate_jumps (s : ℤ) (n : ℕ) :
    (∃ bytes g, (ofSeed s).generate n = .ok (bytes, g) ∧
      (g.state.toNat : ℤ) = jump n s % 2 ^ 64 ∧
      bytes.map (fun b ↦ (b.toNat : ℤ)) =
        (List.range n).map fun i ↦ jump (i + 1) s % 2 ^ 64 / 2 ^ 33 % 2 ^ 8) ∧
    exactStep^[n] s = jump n s ∧
    (fun x ↦ exactStep x % 2 ^ 64)^[n] (s % 2 ^ 64) = exactStep^[n] s % 2 ^ 64 := by
  refine ⟨⟨(draw n (ofSeed s)).1, (draw n (ofSeed s)).2, generate_natCast (ofSeed s) n, ?_, ?_⟩,
    iterate_exactStep n s, iterate_reduced n s⟩
  · rw [draw_snd]
    exact toNat_state_jump s n
  · rw [draw_eq_map_byteAt, List.map_map]
    exact List.map_congr_left fun i _ ↦ toNat_byteAt_jump s i

end Generator
end Vendoring.Entropy
