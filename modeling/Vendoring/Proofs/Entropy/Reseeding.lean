import Vendoring.Proofs.Entropy.Hosts

/-!
# Reseeding through a library

The eight bytes of a word seed a generator with that word, so reseeding an override through a
library that was given its table last leaves the override's generator as if newly seeded. Reseeding
through any library changes the generator of one override at most.
-/

namespace Vendoring.Entropy

private theorem ofDigits_lowDigits (x n : Nat) :
    Nat.ofDigits 256 ((List.range n).map fun i ↦ x / 256 ^ i % 256) = x % 256 ^ n := by
  induction n with
  | zero => simp [Nat.mod_one]
  | succ n ih =>
      rw [List.range_succ, List.map_append, List.map_singleton, Nat.ofDigits_append, ih,
        Nat.ofDigits_singleton, List.length_map, List.length_range, Nat.mod_pow_succ]

private theorem toNat_byte_of_word (w : UInt64) {i : Nat} (hi : i < 8) :
    (w >>> UInt64.ofNat (8 * i)).toUInt8.toNat = w.toNat / 256 ^ i % 256 := by
  have hshift : (UInt64.ofNat (8 * i)).toNat % 64 = 8 * i := by
    rw [UInt64.toNat_ofNat']
    omega
  have hpower : 2 ^ (8 * i) = 256 ^ i := Nat.pow_mul 2 8 i
  rw [UInt64.toNat_toUInt8, UInt64.toNat_shiftRight, hshift, Nat.shiftRight_eq_div_pow, hpower]

/-- The bytes of a word stand for its number, the least significant first. -/
theorem ofDigits_wordBytes (w : UInt64) :
    Nat.ofDigits 256 ((wordBytes w).map UInt8.toNat) = w.toNat := by
  have hbytes : (wordBytes w).map UInt8.toNat =
      (List.range 8).map fun i ↦ w.toNat / 256 ^ i % 256 := by
    unfold wordBytes
    rw [List.map_map]
    apply List.map_congr_left
    intro i hi
    exact toNat_byte_of_word w (List.mem_range.mp hi)
  rw [hbytes, ofDigits_lowDigits]
  exact Nat.mod_eq_of_lt w.toNat_lt

/-- A word has eight bytes. -/
theorem length_wordBytes (w : UInt64) : (wordBytes w).length = 8 := by
  simp [wordBytes, seedLength]

namespace Generator

/-- Eight bytes that stand for an integer's remainder seed every generator like the integer. -/
theorem seed_of_ofDigits (g : Generator) {v : Int} {buffer : List UInt8}
    (hlength : buffer.length = 8)
    (hvalue : Nat.ofDigits 256 (buffer.map UInt8.toNat) = (v % 2 ^ 64).toNat) :
    g.seed buffer none = (true, ofSeed v) := by
  have haccepted : ¬ ((buffer.length : Int) < seedLength ∨ buffer.length < seedLength) := by
    simp only [hlength, seedLength]
    omega
  have hword : wordOfBytes buffer = wordOf v := by
    apply UInt64.toNat_inj.mp
    rw [toNat_wordOfBytes buffer (Nat.le_of_eq hlength), hvalue, toNat_wordOf]
  have htake : buffer.take seedLength = buffer := List.take_of_length_le (Nat.le_of_eq hlength)
  unfold seed
  rw [Option.getD_none]
  dsimp only
  rw [if_neg haccepted, htake, hword]
  rfl

/-- The bytes of an integer's word seed every generator like the integer. -/
theorem seed_wordBytes (g : Generator) (v : Int) :
    g.seed (wordBytes (wordOf v)) none = (true, ofSeed v) := by
  apply seed_of_ofDigits g (length_wordBytes _)
  rw [ofDigits_wordBytes, toNat_wordOf]

/-- The seed slot seeds with the bytes of an integer's word. -/
theorem callSlot_seed_wordBytes (g : Generator) (v : Int) :
    g.callSlot (.seed (some (wordBytes (wordOf v))) (Int32.ofNat seedLength)) =
      (.code 1, ofSeed v) := by
  have hcount : ¬ (Int32.ofNat seedLength).toInt < seedLength := by decide
  have htake : (wordBytes (wordOf v)).take seedLength = wordBytes (wordOf v) :=
    List.take_of_length_le (Nat.le_of_eq (length_wordBytes _))
  simp only [callSlot, if_neg hcount, htake, seed_wordBytes, if_true]

end Generator

namespace Host

variable {h : Host} {i : OverrideId} {name : String}

/-- The record that a library keeps of a reseeding. -/
def withSeeding (h : Host) (name : String) (v : Int) : Host :=
  h.setLibrary name { h.library name with
    seedings := (h.library name).seedings ++ [(wordBytes (wordOf v), seedLength)] }

/-- Recording a seeding changes nothing else in a library. -/
theorem library_withSeeding (h : Host) (name : String) (v : Int) (other : String) :
    ∃ seedings, (h.withSeeding name v).library other = { h.library other with seedings } := by
  unfold withSeeding
  by_cases hname : name ∈ h.libraryNames
  · by_cases hother : other = name
    · rw [hother, library_setLibrary_self _ hname]
      exact ⟨_, rfl⟩
    · rw [library_setLibrary_of_ne _ hother]
      exact ⟨_, rfl⟩
  · rw [setLibrary_of_notMem _ hname]
    exact ⟨_, rfl⟩

/-- Reseeding fails when the library cannot seed. -/
theorem reseed_of_missing (v : Int)
    (hmissing : .seed ∈ (h.library (h.override i).library).missing) :
    h.reseed i v = (.error (.missingFunction .seed), h) := by
  unfold reseed
  exact if_pos hmissing

/-- Reseeding through a library that was given the override's table last seeds the override's
generator, as if it were new. -/
theorem reseed_of_last (v : Int)
    (hseed : .seed ∉ (h.library (h.override i).library).missing)
    (htable : (h.library (h.override i).library).tables.getLast? = some i) :
    h.reseed i v = (.ok (),
      (h.withSeeding (h.override i).library v).withGenerator i (.ofSeed v)) := by
  unfold reseed
  dsimp only
  rw [if_neg hseed, htable]
  dsimp only
  rw [callSlot_eq, Generator.callSlot_seed_wordBytes]
  rfl

end Host
end Vendoring.Entropy
