import Vendoring.Proofs.Entropy.Slots

/-!
# Draws between seedings

Uses that do not seed hand out what the generator draws. So an override hands out the same bytes
however its uses divide them.
-/

namespace Vendoring.Entropy

/-- How many bytes a use asks for. -/
def Use.amount : Use → Nat
  | .slot (.bytes _ count) => count.toInt.toNat
  | .slot (.pseudorand _ count) => count.toInt.toNat
  | .generate count => count.toNat
  | _ => 0

/-- Whether a use is a call of the slot that seeds. -/
def Use.seeds : Use → Bool
  | .slot (.seed _ _) => true
  | _ => false

/-- The bytes that a use with its answer hands out. -/
def handedOut : Use × UseAnswer → List UInt8
  | (.slot (.bytes _ count), .slot (.filled _ buffer)) => buffer.take count.toInt.toNat
  | (.slot (.pseudorand _ count), .slot (.filled _ buffer)) => buffer.take count.toInt.toNat
  | (.generate _, .drawn (.ok drawn)) => drawn
  | _ => []

/-- An override hands out bytes: all uses that do not seed it and ask for as many bytes in all get
them, in their order. -/
def Host.HandsOut (h : Host) (i : OverrideId) (bytes : List UInt8) : Prop :=
  ∀ uses : List Use, (∀ use ∈ uses, use.Fits ∧ use.seeds = false) →
    (uses.map Use.amount).sum = bytes.length →
    (uses.zip (h.useAll i uses).1).flatMap handedOut = bytes

namespace Generator

variable {g g' : Generator}

/-- A number of bytes can always be drawn. -/
theorem generate_natCast (g : Generator) (n : Nat) : g.generate n = .ok (g.draw n) :=
  if_neg (Int.not_lt.mpr (Int.natCast_nonneg n))

/-- Bytes that an operation gave are those drawn. -/
theorem draw_of_perform {count : Int} {drawn : List UInt8}
    (h : g.perform (.generate count) = (.ok (.bytes drawn), g')) :
    g.draw count.toNat = (drawn, g') := by
  unfold perform generate at h
  dsimp only at h
  by_cases hcount : count < 0
  · rw [if_pos hcount] at h
    cases h
  · rw [if_neg hcount] at h
    cases h
    rfl

private theorem draw_of_fills {buffer : List UInt8} {count : Int} {answer : SlotAnswer}
    (he : g.Fills buffer count answer g') :
    ∃ filled, answer = .filled 1 filled ∧ g.draw count.toNat = (filled.take count.toNat, g') := by
  by_cases hpos : 0 < count
  · obtain ⟨drawn, hperform, hlength, hanswer⟩ := he.1 hpos
    refine ⟨_, hanswer, ?_⟩
    rw [List.take_left' hlength]
    exact draw_of_perform hperform
  · obtain ⟨hanswer, hsame⟩ := he.2 (by omega)
    have hnone : count.toNat = 0 := by omega
    refine ⟨_, hanswer, ?_⟩
    rw [hsame, hnone, List.take_zero, draw_zero]

/-- A use that does not seed draws what it hands out. -/
theorem draw_of_effect {use : Use} {answer : UseAnswer} (hkeeps : use.seeds = false)
    (he : use.Effect g answer g') : g.draw use.amount = (handedOut (use, answer), g') := by
  cases use with
  | generate count =>
      cases answer with
      | slot answer => exact he.elim
      | drawn result =>
          have hperform : g.perform (.generate count) = (result.map Answer.bytes, g') := he
          cases result with
          | ok drawn => exact draw_of_perform hperform
          | error e =>
              unfold perform generate at hperform
              dsimp only at hperform
              by_cases hcount : count < 0
              · rw [if_pos hcount] at hperform
                have hnone : count.toNat = 0 := by omega
                obtain rfl : g = g' := (Prod.mk.inj hperform).2
                show g.draw count.toNat = ([], g)
                rw [hnone, draw_zero]
              · rw [if_neg hcount] at hperform
                cases hperform
  | slot call =>
      cases answer with
      | drawn result => exact he.elim
      | slot answer =>
          cases call with
          | seed pointer count => cases hkeeps
          | bytes buffer count =>
              obtain ⟨filled, rfl, hdraw⟩ := draw_of_fills he
              exact hdraw
          | pseudorand buffer count =>
              obtain ⟨filled, rfl, hdraw⟩ := draw_of_fills he
              exact hdraw
          | add =>
              obtain ⟨_, rfl, rfl⟩ := he
              rfl
          | status =>
              obtain ⟨_, rfl, rfl⟩ := he
              rfl
          | cleanup =>
              obtain ⟨_, rfl, rfl⟩ := he
              rfl

end Generator

namespace Host

variable {h : Host} {i : OverrideId}

/-- Uses that do not seed draw what they hand out, one after the other. -/
theorem draw_of_useAll {uses : List Use} (hi : i < h.overrides.length)
    (huses : ∀ use ∈ uses, use.Fits ∧ use.seeds = false) :
    (h.override i).generator.draw (uses.map Use.amount).sum =
      ((uses.zip (h.useAll i uses).1).flatMap handedOut,
        ((h.useAll i uses).2.override i).generator) := by
  induction uses generalizing h with
  | nil => rfl
  | cons use uses ih =>
      obtain ⟨hfits, hkeeps⟩ := huses use List.mem_cons_self
      have hfirst := Generator.draw_of_effect hkeeps (effect_use hi hfits)
      have hrest := ih (h := (h.use i use).2) (by rwa [length_overrides_use use hi])
        fun later hlater ↦ huses later (List.mem_cons_of_mem _ hlater)
      rw [List.map_cons, List.sum_cons, Generator.draw_add, hfirst, hrest]
      rfl

/-- An override hands out what its generator draws. -/
theorem handsOut_draw (n : Nat) (hi : i < h.overrides.length) :
    h.HandsOut i ((h.override i).generator.draw n).1 := by
  intro uses huses hamount
  rw [Generator.length_draw] at hamount
  rw [← hamount, draw_of_useAll hi huses]

end Host

end Vendoring.Entropy
