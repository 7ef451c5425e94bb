import Mathlib.Algebra.Ring.Periodic
import Mathlib.Data.Int.ModEq
import Mathlib.Order.Bounds.Defs
import Vendoring.Proofs.Entropy.Orbit

/-!
# The period of a stream

A shown byte is the top of the low 41 bits of a word, and nothing of what lies above them is ever
shown. Bit 40 is the slowest of these bits: it changes after 2^40 steps, and only after 2^41 steps
do all of them come back. So a seed matters modulo 2^41, no two seeds that differ there have the
same stream, and every stream has this period and no shorter one.
-/

namespace Vendoring.Entropy

variable {x y c : ℕ}

/-- A shown byte is the top of the low 41 bits. -/
theorem shownByte_eq (x : ℕ) : shownByte x = x % 2 ^ 41 / 2 ^ 33 := by
  unfold shownByte
  rw [Nat.shiftRight_eq_div_pow, show 2 ^ 41 = 2 ^ 33 * 256 from rfl, Nat.mod_mul_right_div_self]

/-- Words that agree in their low 41 bits show the same byte. -/
theorem shownByte_congr (h : x ≡ y [MOD 2 ^ 41]) : shownByte x = shownByte y := by
  rw [shownByte_eq, shownByte_eq, h]

/-- The shown byte tells bit 40: words that agree below it and show the same byte agree there,
too. -/
theorem modEq_of_shownByte_eq (hlow : x ≡ y [MOD 2 ^ 40]) (h : shownByte x = shownByte y) :
    x ≡ y [MOD 2 ^ 41] := by
  rw [shownByte_eq, shownByte_eq] at h
  unfold Nat.ModEq at hlow ⊢
  omega

/-- The byte shown at a position of a word's stream. -/
def shownAt (word i : ℕ) : ℕ := shownByte (nextWord^[i + 1] word)

/-- The stream some steps on is the stream of the word reached. -/
theorem shownAt_add (word n i : ℕ) : shownAt word (i + n) = shownAt (nextWord^[n] word) i := by
  unfold shownAt
  rw [← Function.iterate_add_apply, Nat.add_right_comm]

/-- Words that agree in their low 41 bits have the same stream. -/
theorem shownAt_congr (h : x ≡ y [MOD 2 ^ 41]) : shownAt x = shownAt y := by
  funext i
  exact shownByte_congr (iterate_nextWord_congr (by decide) h _)

/-- A number that a power of two does not divide has a multiple that the power below does divide,
but not that power. -/
theorem exists_multiple_of_not_dvd {k : ℕ} (h : ¬ 2 ^ (k + 1) ∣ c) :
    ∃ q, 2 ^ k ∣ q * c ∧ ¬ 2 ^ (k + 1) ∣ q * c := by
  induction k with
  | zero => exact ⟨1, one_dvd _, by rwa [one_mul]⟩
  | succ k ih =>
      by_cases hc : 2 ^ (k + 1) ∣ c
      · exact ⟨1, by rwa [one_mul], by rwa [one_mul]⟩
      · obtain ⟨q, hdvd, hnot⟩ := ih hc
        refine ⟨2 * q, ?_, ?_⟩
        · rw [pow_succ', mul_assoc]
          exact Nat.mul_dvd_mul_left 2 hdvd
        · rw [pow_succ', mul_assoc]
          exact fun h ↦ hnot (Nat.dvd_of_mul_dvd_mul_left (by decide) h)

/-- The periods of a stream are the multiples of 2^41. -/
theorem periodic_shownAt_iff (word c : ℕ) :
    Function.Periodic (shownAt word) c ↔ 2 ^ 41 ∣ c := by
  constructor
  · intro hperiod
    by_contra hshort
    -- After a multiple of the period that 2^40 divides, but not 2^41, bit 40 differs and shows it.
    obtain ⟨q, hdvd, hnot⟩ := exists_multiple_of_not_dvd hshort
    have hlow := (iterate_nextWord_modEq_self_iff (k := 40) (by decide) (q * c)
      (nextWord word)).mpr hdvd
    have hshown : shownByte (nextWord^[q * c] (nextWord word)) = shownByte (nextWord word) := by
      have hfirst := hperiod.nat_mul q 0
      rw [Nat.cast_id, shownAt_add] at hfirst
      rwa [← Function.iterate_succ_apply, Function.iterate_succ_apply']
    exact hnot ((iterate_nextWord_modEq_self_iff (by decide) _ _).mp
      (modEq_of_shownByte_eq hlow hshown))
  · intro hdvd i
    rw [shownAt_add, shownAt_congr]
    exact (iterate_nextWord_modEq_self_iff (by decide) c word).mpr hdvd

/-- Words have the same stream exactly when they agree in their low 41 bits. -/
theorem shownAt_eq_iff (x y : ℕ) : shownAt x = shownAt y ↔ x ≡ y [MOD 2 ^ 41] := by
  constructor
  · intro hstream
    -- One word is met on the way from the other, so the stream comes back after that many steps.
    obtain ⟨n, hreached⟩ := exists_iterate_nextWord_modEq (k := 41) (by decide) x y
    have hperiod : Function.Periodic (shownAt x) n := by
      intro i
      rw [shownAt_add, shownAt_congr hreached, hstream]
    have hdvd := (periodic_shownAt_iff x n).mp hperiod
    have hback := (iterate_nextWord_modEq_self_iff (k := 41) (by decide) n x).mpr hdvd
    exact hback.symm.trans hreached
  · exact shownAt_congr

namespace Generator

/-- The byte at a position of a generator's stream. -/
def byteAt (g : Generator) (i : ℕ) : UInt8 := (next^[i + 1] g).byte

/-- The word of a generator after some steps. -/
theorem toNat_state_iterate_next (n : ℕ) (g : Generator) :
    (next^[n] g).state.toNat = nextWord^[n] g.state.toNat := by
  induction n generalizing g with
  | zero => rfl
  | succ n ih => rw [Function.iterate_succ_apply, ih, toNat_state_next, Function.iterate_succ_apply]

/-- A generator's stream is that of its word. -/
theorem toNat_byteAt (g : Generator) (i : ℕ) : (g.byteAt i).toNat = shownAt g.state.toNat i := by
  unfold byteAt shownAt
  rw [toNat_byte, toNat_state_iterate_next]

/-- Drawing gives the first bytes of the stream. -/
theorem draw_eq_map_byteAt (n : ℕ) (g : Generator) :
    (draw n g).1 = (List.range n).map g.byteAt := by
  have hstream := (draw_follows n g).1
  apply List.map_injective_iff.mpr fun _ _ ↦ UInt8.toNat_inj.mp
  rw [hstream, List.map_map]
  apply List.map_congr_left
  intro i _
  exact (g.toNat_byteAt i).symm

/-- Streams of generators are equal exactly when those of their words are. -/
theorem byteAt_eq_iff {g h : Generator} :
    g.byteAt = h.byteAt ↔ shownAt g.state.toNat = shownAt h.state.toNat := by
  simp only [funext_iff, ← toNat_byteAt, UInt8.toNat_inj]

/-- The words of two seeds agree in their low 41 bits exactly when the seeds do. -/
theorem state_ofSeed_modEq_iff (s t : ℤ) :
    (ofSeed s).state.toNat ≡ (ofSeed t).state.toNat [MOD 2 ^ 41] ↔ s ≡ t [ZMOD 2 ^ 41] := by
  have hword (n : ℤ) : ((ofSeed n).state.toNat : ℤ) ≡ n [ZMOD 2 ^ 41] := by
    show ((wordOf n).toNat : ℤ) ≡ n [ZMOD 2 ^ 41]
    rw [toNat_wordOf, Int.toNat_of_nonneg (Int.emod_nonneg n (by decide))]
    exact (Int.mod_modEq n (2 ^ 64)).of_dvd (pow_dvd_pow 2 (by decide))
  rw [← Int.natCast_modEq_iff]
  push_cast
  exact ⟨fun h ↦ (hword s).symm.trans (h.trans (hword t)),
    fun h ↦ (hword s).trans (h.trans (hword t).symm)⟩

/-- What a generator gives for a count: the first bytes of its stream, or the refusal of a negative
count. -/
theorem generate_fst (g : Generator) (n : ℤ) :
    (g.generate n).map Prod.fst =
      if n < 0 then .error ⟨n⟩ else .ok ((List.range n.toNat).map g.byteAt) := by
  unfold generate
  split
  · rfl
  · rw [← draw_eq_map_byteAt]
    rfl

/-- Two seeds give the same bytes for every count exactly when they are congruent modulo 2^41, that
is, when they agree in their low 41 bits: the bits above never show, and every other difference
does. What is given for a count are the first bytes of a stream, and this stream is periodic with
least period 2^41. -/
theorem generate_eq_iff_modEq (s t : ℤ) :
    ((∀ n : ℤ, ((ofSeed s).generate n).map Prod.fst = ((ofSeed t).generate n).map Prod.fst) ↔
      s ≡ t [ZMOD 2 ^ 41]) ∧
    (∀ n : ℕ, ((ofSeed s).generate n).map Prod.fst =
      .ok ((List.range n).map (ofSeed s).byteAt)) ∧
    IsLeast {c | 0 < c ∧ Function.Periodic (ofSeed s).byteAt c} (2 ^ 41) := by
  have hcounts (n : ℕ) : ((ofSeed s).generate n).map Prod.fst =
      .ok ((List.range n).map (ofSeed s).byteAt) := by
    rw [generate_fst, if_neg (by omega), Int.toNat_natCast]
  have hperiods (c : ℕ) : Function.Periodic (ofSeed s).byteAt c ↔ 2 ^ 41 ∣ c := by
    rw [← periodic_shownAt_iff (ofSeed s).state.toNat]
    simp only [Function.Periodic, ← toNat_byteAt, UInt8.toNat_inj]
  refine ⟨?_, hcounts, ?_⟩
  · rw [← state_ofSeed_modEq_iff, ← shownAt_eq_iff, ← byteAt_eq_iff]
    constructor
    · intro h
      funext i
      have hfirst := h (i + 1 : ℕ)
      rw [generate_fst, generate_fst, if_neg (by omega), if_neg (by omega),
        Int.toNat_natCast] at hfirst
      exact List.map_inj_left.mp (Except.ok.inj hfirst) i List.self_mem_range_succ
    · intro h n
      rw [generate_fst, generate_fst, h]
  · constructor
    · exact ⟨by decide, (hperiods _).mpr dvd_rfl⟩
    · rintro c ⟨hpos, hperiod⟩
      exact Nat.le_of_dvd hpos ((hperiods c).mp hperiod)

end Generator
end Vendoring.Entropy
