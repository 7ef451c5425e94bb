import Mathlib.Dynamics.PeriodicPts.Defs
import Vendoring.Proofs.Entropy.Period

/-!
# The period of the states

The bytes of a generator come back after 2^41 steps, but its state does not: it goes through all
words before it comes back, so that the least number of steps that lead back is 2^64. Steps lead
on around one cycle that all states share, and therefore they can be undone and never lead two
states to one. How the draws divide the bytes makes no difference to any of this.
-/

namespace Vendoring.Entropy

namespace Generator

variable {g h : Generator}

/-- How many bytes draws of some counts give together; a negative count is refused and gives
none. -/
def total (counts : List ℤ) : ℕ := (counts.map Int.toNat).sum

/-- The generator after draws of some counts, one after the other. -/
def afterDraws (g : Generator) (counts : List ℤ) : Generator := (g.run (counts.map .generate)).2

/-! ### Steps -/

/-- Generators are the same when their words agree modulo 2^64. -/
theorem eq_iff_toNat_modEq : g = h ↔ g.state.toNat ≡ h.state.toNat [MOD 2 ^ 64] := by
  constructor
  · rintro rfl
    exact Nat.ModEq.refl _
  · intro hwords
    have hequal := hwords.eq_of_lt_of_lt g.state.toNat_lt h.state.toNat_lt
    obtain ⟨word⟩ := g
    obtain ⟨word'⟩ := h
    exact congrArg Generator.mk (UInt64.toNat_inj.mp hequal)

/-- A generator comes back after exactly the multiples of 2^64 steps. -/
theorem iterate_next_eq_self_iff (n : ℕ) (g : Generator) : next^[n] g = g ↔ 2 ^ 64 ∣ n := by
  rw [eq_iff_toNat_modEq, toNat_state_iterate_next]
  exact iterate_nextWord_modEq_self_iff (Nat.le_refl 64) n g.state.toNat

/-- A step can be undone, by going on around the cycle. -/
theorem next_injective : Function.Injective next := by
  obtain ⟨last, hlast⟩ := Nat.exists_eq_add_one.mpr (Nat.two_pow_pos 64)
  have hback : Function.LeftInverse next^[last] next := by
    intro g
    rw [← Function.iterate_succ_apply, ← Nat.add_one, ← hlast]
    exact (iterate_next_eq_self_iff (2 ^ 64) g).mpr dvd_rfl
  exact hback.injective

/-- Every generator is reached from every other, on the first way around the cycle. -/
theorem exists_iterate_next_eq (g h : Generator) : ∃ n < 2 ^ 64, next^[n] g = h := by
  obtain ⟨n, hreached⟩ :=
    exists_iterate_nextWord_modEq (Nat.le_refl 64) g.state.toNat h.state.toNat
  have hperiod : Function.IsPeriodicPt next (2 ^ 64) g :=
    (iterate_next_eq_self_iff (2 ^ 64) g).mpr dvd_rfl
  refine ⟨n % 2 ^ 64, Nat.mod_lt n (Nat.two_pow_pos 64), ?_⟩
  rw [hperiod.iterate_mod_apply, eq_iff_toNat_modEq, toNat_state_iterate_next]
  exact hreached

/-! ### Draws -/

/-- A draw makes a step for every byte. -/
theorem draw_snd (n : ℕ) (g : Generator) : (draw n g).2 = next^[n] g := by
  induction n generalizing g with
  | zero => rfl
  | succ n ih => rw [draw_succ, ih, Function.iterate_succ_apply]

/-- A draw of a count makes a step for every byte that it gives. -/
theorem perform_generate_snd (g : Generator) (count : ℤ) :
    (g.perform (.generate count)).2 = next^[count.toNat] g := by
  unfold perform generate
  dsimp only
  by_cases hcount : count < 0
  · rw [if_pos hcount, Int.toNat_of_nonpos (Int.le_of_lt hcount)]
    rfl
  · rw [if_neg hcount]
    exact draw_snd count.toNat g

/-- Draws make as many steps as they give bytes together, however they divide them. -/
theorem afterDraws_eq (g : Generator) (counts : List ℤ) :
    g.afterDraws counts = next^[total counts] g := by
  induction counts generalizing g with
  | nil => rfl
  | cons count counts ih =>
      have hrest := ih (g.perform (.generate count)).2
      calc g.afterDraws (count :: counts)
        _ = (g.perform (.generate count)).2.afterDraws counts := rfl
        _ = next^[total counts] (next^[count.toNat] g) := by rw [hrest, perform_generate_snd]
        _ = next^[total (count :: counts)] g := by
          unfold total
          rw [List.map_cons, List.sum_cons, Nat.add_comm, Function.iterate_add_apply]

/-- The state of a generator has the full period: drawing 2^64 bytes leads back to a seed, and no
smaller number but none does, however the draws divide them. So every state is reached from every
seed, and equal numbers of bytes drawn never lead two states to one. -/
theorem afterDraws_fullPeriod (s : UInt64) :
    (ofSeed s.toNat).state = s ∧
    IsLeast {n | 0 < n ∧
      ∃ counts, total counts = n ∧ ((ofSeed s.toNat).afterDraws counts).state = s} (2 ^ 64) ∧
    (∀ counts, ((ofSeed s.toNat).afterDraws counts).state = s ↔ 2 ^ 64 ∣ total counts) ∧
    (∀ t, ∃ n < 2 ^ 64, ∀ counts, total counts = n →
      ((ofSeed s.toNat).afterDraws counts).state = t) ∧
    ∀ (h h' : Generator) (counts counts' : List ℤ), total counts = total counts' →
      (h.afterDraws counts = h'.afterDraws counts' ↔ h = h') := by
  have hstart : ofSeed s.toNat = ⟨s⟩ := by
    rw [eq_iff_toNat_modEq]
    show (wordOf s.toNat).toNat ≡ s.toNat [MOD 2 ^ 64]
    rw [toNat_wordOf]
    exact Nat.mod_modEq _ _
  rw [hstart]
  have hback : ∀ counts, (afterDraws ⟨s⟩ counts).state = s ↔ 2 ^ 64 ∣ total counts := by
    intro counts
    rw [← iterate_next_eq_self_iff _ ⟨s⟩, ← afterDraws_eq]
    exact ⟨congrArg Generator.mk, congrArg Generator.state⟩
  refine ⟨rfl, ⟨?_, ?_⟩, hback, ?_, ?_⟩
  · refine ⟨Nat.two_pow_pos 64, [2 ^ 64], rfl, ?_⟩
    exact (hback [2 ^ 64]).mpr dvd_rfl
  · rintro n ⟨hpos, counts, rfl, hstate⟩
    exact Nat.le_of_dvd hpos ((hback counts).mp hstate)
  · intro t
    obtain ⟨n, hn, hreached⟩ := exists_iterate_next_eq ⟨s⟩ ⟨t⟩
    refine ⟨n, hn, ?_⟩
    rintro counts rfl
    rw [afterDraws_eq, hreached]
  · intro h h' counts counts' htotal
    rw [afterDraws_eq, afterDraws_eq, htotal]
    exact (next_injective.iterate (total counts')).eq_iff

end Generator
end Vendoring.Entropy
