import Mathlib.Data.Nat.Digits.Lemmas
import Mathlib.Logic.Function.Iterate
import Vendoring.Entropy.Generator

/-!
# The stream of a seeding

The words and bytes of the generator computed on natural numbers, the seeding that a log of
operations and answers leaves in force, and the agreement of the generator with both: after any
operations, the bytes drawn since the last accepted seed are the first bytes of that seed's stream.
-/

namespace Vendoring.Entropy

/-- One step of the generator on natural numbers. -/
def nextWord (x : Nat) : Nat := (6364136223846793005 * x + 1) % 2 ^ 64

/-- The byte that a word shows. -/
def shownByte (x : Nat) : Nat := (x >>> 33) % 256

/-- The first bytes shown after a seed. -/
def streamOf (word count : Nat) : List Nat :=
  (List.range count).map fun i ↦ shownByte (nextWord^[i + 1] word)

/-- The seed in force and the bytes drawn since it was adopted. -/
structure Seeding where
  word : Nat
  drawn : List UInt8

namespace Seeding

/-- The seeding that an integer starts. -/
def ofSeed (seed : Int) : Seeding := ⟨(seed % 2 ^ 64).toNat, []⟩

/-- The seeding after an operation and its answer. An accepted seed starts a new one with the
little-endian value of the first eight bytes offered. -/
def record (h : Seeding) : Generator.Op × Except DrawError Generator.Answer → Seeding
  | (.seed buffer _, .ok (.flag true)) => ⟨Nat.ofDigits 256 ((buffer.take 8).map UInt8.toNat), []⟩
  | (.generate _, .ok (.bytes bs)) => ⟨h.word, h.drawn ++ bs⟩
  | _ => h

end Seeding

/-- The stream of a longer draw is that of a shorter one and then that of the word reached. -/
theorem streamOf_add (word m n : Nat) :
    streamOf word (m + n) = streamOf word m ++ streamOf (nextWord^[m] word) n := by
  unfold streamOf
  rw [List.range_add, List.map_append, List.map_map]
  congr 1
  apply List.map_congr_left
  intro i _
  have hsteps : m + i + 1 = i + 1 + m := by omega
  simp only [Function.comp_apply]
  rw [hsteps, Function.iterate_add_apply]

private theorem streamOf_succ (word n : Nat) :
    streamOf word (n + 1) = shownByte (nextWord word) :: streamOf (nextWord word) n := by
  rw [Nat.add_comm, streamOf_add]
  rfl

/-- The word congruent to an integer is its remainder. -/
theorem toNat_wordOf (n : Int) : (wordOf n).toNat = (n % 2 ^ 64).toNat := by
  have hlow := Int.emod_nonneg n (show (2 ^ 64 : Int) ≠ 0 by decide)
  have hhigh := Int.emod_lt_of_pos n (show (0 : Int) < 2 ^ 64 by decide)
  unfold wordOf
  rw [UInt64.ofInt, UInt64.toNat_ofNat', Nat.mod_eq_of_lt]
  omega

private theorem foldr_eq_ofDigits (bytes : List UInt8) :
    bytes.foldr (fun b value ↦ b.toNat + 256 * value) 0 =
      Nat.ofDigits 256 (bytes.map UInt8.toNat) := by
  induction bytes with
  | nil => rfl
  | cons b bytes ih =>
      rw [List.foldr_cons, ih, List.map_cons, Nat.ofDigits_cons]

/-- The word that at most eight bytes stand for is their little-endian value. -/
theorem toNat_wordOfBytes (bytes : List UInt8) (h : bytes.length ≤ 8) :
    (wordOfBytes bytes).toNat = Nat.ofDigits 256 (bytes.map UInt8.toNat) := by
  have hdigits : ∀ d ∈ bytes.map UInt8.toNat, d < 256 := by
    intro d hd
    obtain ⟨b, _, rfl⟩ := List.mem_map.mp hd
    exact b.toNat_lt
  have hvalue := Nat.ofDigits_lt_base_pow_length (b := 256) (by decide) hdigits
  have hpower : 256 ^ (bytes.map UInt8.toNat).length ≤ 256 ^ 8 := by
    apply Nat.pow_le_pow_right (by decide)
    rwa [List.length_map]
  unfold wordOfBytes
  rw [foldr_eq_ofDigits, UInt64.toNat_ofNat', Nat.mod_eq_of_lt]
  exact Nat.lt_of_lt_of_le hvalue hpower

namespace Generator

/-- A step of the generator is the step on natural numbers. -/
@[simp]
theorem toNat_state_next (g : Generator) : g.next.state.toNat = nextWord g.state.toNat := by
  simp [next, nextWord, multiplier, increment, UInt64.toNat_add, UInt64.toNat_mul]

/-- The byte that a state shows is that of its number. -/
@[simp]
theorem toNat_byte (g : Generator) : g.byte.toNat = shownByte g.state.toNat := by
  simp [byte, shownByte]

/-- A draw follows the stream of the state it starts from and steps once for each byte. -/
theorem draw_follows (n : Nat) (g : Generator) :
    (draw n g).1.map UInt8.toNat = streamOf g.state.toNat n ∧
      (draw n g).2.state.toNat = nextWord^[n] g.state.toNat := by
  induction n generalizing g with
  | zero => exact ⟨rfl, rfl⟩
  | succ n ih =>
      obtain ⟨hbytes, hstate⟩ := ih g.next
      rw [toNat_state_next] at hbytes hstate
      constructor
      · rw [draw_succ, List.map_cons, hbytes, toNat_byte, toNat_state_next, streamOf_succ]
      · rw [draw_succ, hstate, Function.iterate_succ_apply]

/-- A generator follows a seeding when it is as many steps past the seed as bytes were drawn, and
those bytes are the seed's stream. -/
structure Follows (g : Generator) (h : Seeding) : Prop where
  state : g.state.toNat = nextWord^[h.drawn.length] h.word
  drawn : h.drawn.map UInt8.toNat = streamOf h.word h.drawn.length

/-- A new generator follows the seeding of its seed. -/
theorem follows_ofSeed (seed : Int) : (ofSeed seed).Follows (.ofSeed seed) :=
  ⟨toNat_wordOf seed, rfl⟩

/-- A seed is accepted when at least eight bytes are declared and offered. -/
theorem seed_accepts (g : Generator) (buffer : List UInt8) (length : Option Int) :
    (g.seed buffer length).1 = true ↔
      8 ≤ length.getD buffer.length ∧ 8 ≤ buffer.length := by
  unfold seed
  by_cases hshort : length.getD buffer.length < seedLength ∨ buffer.length < seedLength
  · simp only [if_pos hshort, Bool.false_eq_true, false_iff]
    simp only [seedLength] at hshort
    omega
  · simp only [if_neg hshort, true_iff]
    simp only [seedLength] at hshort
    omega

/-- A rejected seed leaves the generator as it was. -/
theorem seed_of_rejected (g : Generator) (buffer : List UInt8) (length : Option Int)
    (h : (g.seed buffer length).1 = false) : (g.seed buffer length).2 = g := by
  unfold seed at h ⊢
  dsimp only at h ⊢
  split at h
  · next hshort => rw [if_pos hshort]
  · next hlong => cases h

/-- An accepted seed starts its own stream, whatever came before. -/
theorem follows_seed_of_accepted (g : Generator) (buffer : List UInt8) (length : Option Int)
    (h : (g.seed buffer length).1 = true) :
    (g.seed buffer length).2.Follows
      ⟨Nat.ofDigits 256 ((buffer.take 8).map UInt8.toNat), []⟩ := by
  unfold seed at h ⊢
  dsimp only at h ⊢
  split at h
  · next hshort => cases h
  · next hlong =>
      rw [if_neg hlong]
      refine ⟨toNat_wordOfBytes _ ?_, rfl⟩
      exact List.length_take_le _ _

/-- Drawing more bytes continues the stream where it stood. -/
theorem Follows.draw {g : Generator} {h : Seeding} (hg : g.Follows h) (n : Nat) :
    (draw n g).2.Follows ⟨h.word, h.drawn ++ (draw n g).1⟩ := by
  obtain ⟨hbytes, hstate⟩ := draw_follows n g
  constructor
  · rw [hstate, hg.state, List.length_append, length_draw, Nat.add_comm,
      Function.iterate_add_apply]
  · rw [List.map_append, hbytes, hg.drawn, hg.state, List.length_append, length_draw,
      streamOf_add]

/-- Each operation keeps the generator on the stream of the seeding in force. -/
theorem Follows.perform {g : Generator} {h : Seeding} (hg : g.Follows h) (op : Op) :
    (g.perform op).2.Follows (h.record (op, (g.perform op).1)) := by
  cases op with
  | generate count =>
      by_cases hcount : count < 0
      · simp only [Generator.perform, generate, if_pos hcount, Seeding.record]
        exact hg
      · simp only [Generator.perform, generate, if_neg hcount, Seeding.record]
        exact hg.draw count.toNat
  | seed buffer length =>
      cases hflag : (g.seed buffer length).1 with
      | false =>
          simp only [Generator.perform, hflag, Seeding.record]
          rw [seed_of_rejected g buffer length hflag]
          exact hg
      | true =>
          simp only [Generator.perform, hflag, Seeding.record]
          exact follows_seed_of_accepted g buffer length hflag
  | addEntropy => exact hg
  | cleanup => exact hg
  | status => exact hg

/-- Every operation of a run is answered. -/
theorem length_run (g : Generator) (ops : List Op) : (g.run ops).1.length = ops.length := by
  induction ops generalizing g with
  | nil => rfl
  | cons op ops ih => simp only [run, List.length_cons, ih]

/-- A run of operations keeps the generator on the stream of the seeding in force. -/
theorem Follows.run {g : Generator} {h : Seeding} (hg : g.Follows h) (ops : List Op) :
    (g.run ops).2.Follows ((ops.zip (g.run ops).1).foldl Seeding.record h) := by
  -- The seeding changes with every accepted seed, so it varies along the induction.
  induction ops generalizing g h with
  | nil => exact hg
  | cons op ops ih =>
      simp only [Generator.run, List.zip_cons_cons, List.foldl_cons]
      exact ih (hg.perform op)

/-- After any operations, the generator is as many steps past the seed in force as bytes were
returned since, and those bytes are the ones shown on the way. Of the operations that may come
next, a seed is accepted when at least eight bytes are declared and offered, and a count that is
not negative returns that many bytes; a rejected seed, a negative count and every other operation
leave the generator as it is. -/
theorem run_follows_seeding (s : Int) (ops : List Op) :
    let answers := ((ofSeed s).run ops).1
    let g := ((ofSeed s).run ops).2
    let h := (ops.zip answers).foldl Seeding.record (.ofSeed s)
    answers.length = ops.length ∧
    g.state.toNat < 2 ^ 64 ∧
    g.state.toNat = nextWord^[h.drawn.length] h.word ∧
    h.drawn.map UInt8.toNat =
      (List.range h.drawn.length).map (fun i ↦ shownByte (nextWord^[i + 1] h.word)) ∧
    (∀ buffer length, ∃ accepted, (g.perform (.seed buffer length)).1 = .ok (.flag accepted) ∧
      (accepted = true ↔ 8 ≤ length.getD buffer.length ∧ 8 ≤ buffer.length) ∧
      (accepted = false → (g.perform (.seed buffer length)).2 = g)) ∧
    (∀ n, n < 0 → g.perform (.generate n) = (.error ⟨n⟩, g)) ∧
    (∀ n, 0 ≤ n → ∃ bs, (g.perform (.generate n)).1 = .ok (.bytes bs) ∧ bs.length = n.toNat) ∧
    g.perform .addEntropy = (.ok (.flag true), g) ∧
    g.perform .cleanup = (.ok .done, g) ∧
    g.perform .status = (.ok (.flag true), g) := by
  intro answers g h
  have hfollows : g.Follows h := (follows_ofSeed s).run ops
  refine ⟨length_run _ ops, g.state.toNat_lt, hfollows.state, hfollows.drawn, ?_, ?_, ?_,
    rfl, rfl, rfl⟩
  · intro buffer length
    exact ⟨_, rfl, seed_accepts g buffer length, seed_of_rejected g buffer length⟩
  · intro n hn
    simp only [perform, generate, if_pos hn]
  · intro n hn
    have hcount : ¬ n < 0 := by omega
    refine ⟨(draw n.toNat g).1, ?_, length_draw _ _⟩
    simp only [perform, generate, if_neg hcount]

end Generator
end Vendoring.Entropy
