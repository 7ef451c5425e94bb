import Mathlib.Order.Interval.Finset.Nat
import Vendoring.Proofs.Entropy.FullPeriod

/-!
# How often a byte is drawn

Over a full period of its low 41 bits a word goes through all of their residues once. A shown byte
is the top of these bits, so it has each of its values for as many residues as there are below it:
of the bytes drawn over a period, wherever it begins and however the draws divide it, every value
occurs equally often.
-/

namespace Vendoring.Entropy

/-! ### Residues on the way around -/

/-- The low bits of the words on the way around their cycle are all residues. -/
theorem image_iterate_nextWord {k : ℕ} (hk : k ≤ 64) (x : ℕ) :
    (Finset.range (2 ^ k)).image (fun i ↦ nextWord^[i] x % 2 ^ k) = Finset.range (2 ^ k) := by
  have hinjective : Set.InjOn (fun i ↦ nextWord^[i] x % 2 ^ k) (Finset.range (2 ^ k)) := by
    intro i hi j hj h
    exact eq_of_iterate_nextWord_modEq hk (Finset.mem_range.mp hi) (Finset.mem_range.mp hj) h
  apply Finset.eq_of_subset_of_card_le
  · intro r hr
    obtain ⟨i, _, rfl⟩ := Finset.mem_image.mp hr
    exact Finset.mem_range.mpr (Nat.mod_lt _ (Nat.two_pow_pos k))
  · rw [Finset.card_image_of_injOn hinjective]

/-- On the way around the cycle a property of the low bits holds as often as among the residues. -/
theorem card_filter_iterate_nextWord {k : ℕ} (hk : k ≤ 64) (x : ℕ) (p : ℕ → Prop)
    [DecidablePred p] :
    ((Finset.range (2 ^ k)).filter fun i ↦ p (nextWord^[i] x % 2 ^ k)).card =
      ((Finset.range (2 ^ k)).filter p).card := by
  have hinjective : Set.InjOn (fun i ↦ nextWord^[i] x % 2 ^ k) (Finset.range (2 ^ k)) := by
    rw [← Finset.card_image_iff, image_iterate_nextWord hk]
  conv_rhs => rw [← image_iterate_nextWord hk x, Finset.filter_image]
  rw [Finset.card_image_of_injOn]
  exact hinjective.mono (Finset.coe_subset.mpr (Finset.filter_subset _ _))

/-- Of the residues of 41 bits, as many have a byte at their top as there are residues below it. -/
theorem card_filter_top {b : ℕ} (hb : b < 256) :
    ((Finset.range (2 ^ 41)).filter fun r ↦ r / 2 ^ 33 = b).card = 2 ^ 33 := by
  have hresidues : (Finset.range (2 ^ 41)).filter (fun r ↦ r / 2 ^ 33 = b) =
      Finset.Ico (b * 2 ^ 33) (b * 2 ^ 33 + 2 ^ 33) := by
    ext r
    rw [Finset.mem_filter, Finset.mem_range, Finset.mem_Ico]
    omega
  rw [hresidues, Nat.card_Ico, Nat.add_sub_cancel_left]

/-- Over a full period every byte is shown equally often. -/
theorem card_filter_shownAt (word : ℕ) {b : ℕ} (hb : b < 256) :
    ((Finset.range (2 ^ 41)).filter fun i ↦ shownAt word i = b).card = 2 ^ 33 := by
  have hshown : ∀ i, shownAt word i = nextWord^[i] (nextWord word) % 2 ^ 41 / 2 ^ 33 := by
    intro i
    unfold shownAt
    rw [Function.iterate_succ_apply, shownByte_eq]
  simp only [hshown]
  rw [card_filter_iterate_nextWord (k := 41) (by decide) (nextWord word) (fun r ↦ r / 2 ^ 33 = b),
    card_filter_top hb]

namespace Generator

/-! ### Bytes drawn -/

/-- The bytes of an answer. -/
def answeredBytes : Except DrawError Answer → List UInt8
  | .ok (.bytes bytes) => bytes
  | _ => []

/-- The bytes that draws of some counts give, one after the other. -/
def drawnBytes (g : Generator) (counts : List ℤ) : List UInt8 :=
  (g.run (counts.map .generate)).1.flatMap answeredBytes

/-- A draw of a count gives as many bytes, and none if the count is refused. -/
theorem answeredBytes_perform_generate (g : Generator) (count : ℤ) :
    answeredBytes (g.perform (.generate count)).1 = (draw count.toNat g).1 := by
  unfold perform generate
  dsimp only
  by_cases hcount : count < 0
  · rw [if_pos hcount, Int.toNat_of_nonpos (Int.le_of_lt hcount)]
    rfl
  · rw [if_neg hcount]
    rfl

/-- Draws give the bytes of one draw, however they divide them. -/
theorem drawnBytes_eq (g : Generator) (counts : List ℤ) :
    g.drawnBytes counts = (draw (total counts) g).1 := by
  induction counts generalizing g with
  | nil => rfl
  | cons count counts ih =>
      calc g.drawnBytes (count :: counts)
        _ = answeredBytes (g.perform (.generate count)).1 ++
            (g.perform (.generate count)).2.drawnBytes counts := rfl
        _ = (draw count.toNat g).1 ++ (draw (total counts) (draw count.toNat g).2).1 := by
          rw [answeredBytes_perform_generate, ih, perform_generate_snd, draw_snd]
        _ = (draw (total (count :: counts)) g).1 := by
          unfold total
          rw [List.map_cons, List.sum_cons, draw_add]

/-- The number of times that a byte is drawn is the number of positions at which it is shown. -/
theorem count_draw (n : ℕ) (g : Generator) (b : UInt8) :
    (draw n g).1.count b =
      ((Finset.range n).filter fun i ↦ shownAt g.state.toNat i = b.toNat).card := by
  have hbyte : ∀ i, (g.byteAt i == b) = decide (shownAt g.state.toNat i = b.toNat) := by
    intro i
    rw [beq_eq_decide, decide_eq_decide, ← toNat_byteAt, UInt8.toNat_inj]
  rw [draw_eq_map_byteAt, List.count, List.countP_map, List.countP_eq_length_filter]
  simp only [Function.comp_def, hbyte]
  rfl

/-- From every seed and after any draws, the bytes drawn next over a full period of 2^41 hold each
of the 256 values exactly 2^33 times, however the draws divide them. -/
theorem drawnBytes_equidistributed (seed : ℤ) (earlier later : List ℤ)
    (hperiod : total later = 2 ^ 41) (b : UInt8) :
    (((ofSeed seed).afterDraws earlier).drawnBytes later).count b = 2 ^ 33 := by
  rw [drawnBytes_eq, hperiod, count_draw]
  exact card_filter_shownAt _ b.toNat_lt

/-- After eleven bytes of a negative seed, a period that is drawn in two halves, with a refused
count between them, holds the byte 255 as often as any other. -/
theorem drawnBytes_equidistributed_halves :
    total [2 ^ 40, -1, 2 ^ 40] = 2 ^ 41 ∧
      (((ofSeed (-1)).afterDraws [4, 7]).drawnBytes [2 ^ 40, -1, 2 ^ 40]).count 255 = 2 ^ 33 :=
  ⟨rfl, drawnBytes_equidistributed (-1) [4, 7] [2 ^ 40, -1, 2 ^ 40] rfl 255⟩

end Generator
end Vendoring.Entropy
