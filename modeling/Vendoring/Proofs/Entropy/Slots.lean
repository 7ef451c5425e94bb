import Vendoring.Proofs.Entropy.Hosts

/-!
# The slots of a table draw from one generator

A use of an override is a call of a slot of its table or a draw from its generator directly. The
effect of each use is that of the generator's own operation, and uses in any order hand out the
stream of the seed accepted last, without a gap.
-/

namespace Vendoring.Entropy

/-- A use of an override: a call of a slot of its table, or a draw from its generator. -/
inductive Use where
  | slot (call : SlotCall)
  | generate (count : Int)
  deriving DecidableEq, Repr

/-- What a use gives. -/
inductive UseAnswer where
  | slot (answer : SlotAnswer)
  | drawn (result : Except DrawError (List UInt8))

/-- A buffer passed with a count holds at least as many bytes. -/
def SlotCall.Fits : SlotCall → Prop
  | .seed (some buffer) count => count.toInt ≤ buffer.length
  | .bytes buffer count => count.toInt ≤ buffer.length
  | .pseudorand buffer count => count.toInt ≤ buffer.length
  | _ => True

instance : DecidablePred SlotCall.Fits
  | .seed (some buffer) count => inferInstanceAs (Decidable (count.toInt ≤ buffer.length))
  | .bytes buffer count => inferInstanceAs (Decidable (count.toInt ≤ buffer.length))
  | .pseudorand buffer count => inferInstanceAs (Decidable (count.toInt ≤ buffer.length))
  | .seed none _ | .cleanup | .add | .status => isTrue trivial

/-- The buffer passed by a use, if any, holds at least as many bytes as are counted. -/
def Use.Fits : Use → Prop
  | .slot call => call.Fits
  | .generate _ => True

instance : DecidablePred Use.Fits
  | .slot call => inferInstanceAs (Decidable call.Fits)
  | .generate _ => isTrue trivial

/-- What filling a buffer from a generator should do: a positive count overwrites as many bytes at
the start with what the generator draws, any other count changes nothing. -/
def Generator.Fills (g : Generator) (buffer : List UInt8) (count : Int) (answer : SlotAnswer)
    (g' : Generator) : Prop :=
  (0 < count → ∃ drawn, g.perform (.generate count) = (.ok (.bytes drawn), g') ∧
    drawn.length = count.toNat ∧ answer = .filled 1 (drawn ++ buffer.drop count.toNat)) ∧
  (count ≤ 0 → answer = .filled 1 buffer ∧ g' = g)

/-- What a call of a slot should do to a generator, in terms of the generator's operations. -/
def SlotCall.Effect (g : Generator) : SlotCall → SlotAnswer → Generator → Prop
  | .bytes buffer count, answer, g' => g.Fills buffer count.toInt answer g'
  | .pseudorand buffer count, answer, g' => g.Fills buffer count.toInt answer g'
  | .seed none _, answer, g' => answer = .code 0 ∧ g' = g
  | .seed (some buffer) count, answer, g' =>
    (8 ≤ count.toInt →
      g.perform (.seed buffer (some count.toInt)) = (.ok (.flag true), g') ∧ answer = .code 1) ∧
    (count.toInt < 8 → answer = .code 0 ∧ g' = g)
  | .add, answer, g' =>
    g.perform .addEntropy = (.ok (.flag true), g') ∧ answer = .code 1 ∧ g' = g
  | .status, answer, g' => g.perform .status = (.ok (.flag true), g') ∧ answer = .code 1 ∧ g' = g
  | .cleanup, answer, g' => g.perform .cleanup = (.ok .done, g') ∧ answer = .nothing ∧ g' = g

/-- What a use of an override should do to its generator. -/
def Use.Effect (g : Generator) : Use → UseAnswer → Generator → Prop
  | .slot call, .slot answer, g' => call.Effect g answer g'
  | .generate count, .drawn result, g' =>
    g.perform (.generate count) = (result.map Generator.Answer.bytes, g')
  | _, _, _ => False

deriving instance DecidableEq for Seeding

/-- The seeding after a use and its answer: bytes handed out are those at the start of the buffer
given back, and an accepted seed starts anew. -/
def Seeding.recordUse (h : Seeding) : Use × UseAnswer → Seeding
  | (.slot (.bytes _ count), .slot (.filled _ buffer)) =>
    ⟨h.word, h.drawn ++ buffer.take count.toInt.toNat⟩
  | (.slot (.pseudorand _ count), .slot (.filled _ buffer)) =>
    ⟨h.word, h.drawn ++ buffer.take count.toInt.toNat⟩
  | (.slot (.seed (some buffer) _), .slot (.code 1)) =>
    ⟨Nat.ofDigits 256 ((buffer.take 8).map UInt8.toNat), []⟩
  | (.generate _, .drawn (.ok drawn)) => ⟨h.word, h.drawn ++ drawn⟩
  | _ => h

/-! ### One use -/

namespace Generator

variable {g g' : Generator} {h : Seeding}

/-- Filling a buffer does what it should. -/
theorem fill_fills (g : Generator) (buffer : List UInt8) (count : Int32) :
    g.Fills buffer count.toInt (g.fill buffer count).1 (g.fill buffer count).2 := by
  constructor
  · intro hpos
    have hcount : ¬ count.toInt < 0 := by omega
    refine ⟨(g.draw count.toInt.toNat).1, ?_, length_draw _ _, ?_⟩
    · simp only [perform, generate, if_neg hcount, fill, if_pos hpos]
    · simp only [fill, if_pos hpos, length_draw]
  · intro hnone
    have hcount : ¬ 0 < count.toInt := by omega
    simp only [fill, if_neg hcount, and_self]

/-- Seeding with a buffer that is long enough depends on its first eight bytes alone. -/
theorem seed_take (g : Generator) {buffer : List UInt8} {length : Int} (hlength : 8 ≤ length)
    (hbuffer : length ≤ buffer.length) :
    g.seed (buffer.take seedLength) none = g.seed buffer (some length) := by
  have height : (buffer.take seedLength).length = 8 := by
    rw [List.length_take, seedLength]
    omega
  have hlong : ¬ (length < seedLength ∨ buffer.length < seedLength) := by
    simp only [seedLength]
    omega
  unfold seed
  simp only [Option.getD_none, Option.getD_some, height, if_neg hlong, List.take_take, min_self]
  rfl

/-- Every call of a slot with a buffer that is long enough does what it should. -/
theorem effect_callSlot (g : Generator) {call : SlotCall} (hfits : call.Fits) :
    call.Effect g (g.callSlot call).1 (g.callSlot call).2 := by
  cases call with
  | bytes buffer count => exact fill_fills g buffer count
  | pseudorand buffer count => exact fill_fills g buffer count
  | add => exact ⟨rfl, rfl, rfl⟩
  | status => exact ⟨rfl, rfl, rfl⟩
  | cleanup => exact ⟨rfl, rfl, rfl⟩
  | seed pointer count =>
      cases pointer with
      | none => exact ⟨rfl, rfl⟩
      | some buffer =>
          constructor
          · intro hcount
            have hshort : ¬ count.toInt < seedLength := by
              simp only [seedLength]
              omega
            have haccepted : (g.seed buffer (some count.toInt)).1 = true := by
              have hbuffer : count.toInt ≤ buffer.length := hfits
              rw [seed_accepts, Option.getD_some]
              omega
            simp only [callSlot, if_neg hshort, seed_take g hcount hfits, perform, haccepted,
              if_true, and_self]
          · intro hcount
            have hshort : count.toInt < seedLength := hcount
            simp only [callSlot, if_pos hshort, and_self]

/-- What fills a buffer continues the stream where it stood. -/
theorem Follows.fills (hg : g.Follows h) {buffer : List UInt8} {count : Int}
    {answer : SlotAnswer} (he : g.Fills buffer count answer g') :
    ∃ filled, answer = .filled 1 filled ∧
      g'.Follows ⟨h.word, h.drawn ++ filled.take count.toNat⟩ := by
  by_cases hpos : 0 < count
  · obtain ⟨drawn, hperform, hlength, hanswer⟩ := he.1 hpos
    have hnext := hg.perform (.generate count)
    rw [hperform] at hnext
    refine ⟨_, hanswer, ?_⟩
    rw [List.take_left' hlength]
    exact hnext
  · obtain ⟨hanswer, hsame⟩ := he.2 (by omega)
    have hnone : count.toNat = 0 := by omega
    refine ⟨_, hanswer, ?_⟩
    rw [hsame, hnone, List.take_zero, List.append_nil]
    exact hg

private theorem Follows.callSlot (hg : g.Follows h) {call : SlotCall} {answer : SlotAnswer}
    (he : call.Effect g answer g') : g'.Follows (h.recordUse (.slot call, .slot answer)) := by
  cases call with
  | bytes buffer count =>
      obtain ⟨filled, rfl, hnext⟩ := hg.fills he
      exact hnext
  | pseudorand buffer count =>
      obtain ⟨filled, rfl, hnext⟩ := hg.fills he
      exact hnext
  | add =>
      obtain ⟨_, _, rfl⟩ := he
      exact hg
  | status =>
      obtain ⟨_, _, rfl⟩ := he
      exact hg
  | cleanup =>
      obtain ⟨_, _, rfl⟩ := he
      exact hg
  | seed pointer count =>
      cases pointer with
      | none =>
          obtain ⟨rfl, rfl⟩ := he
          exact hg
      | some buffer =>
          by_cases hcount : 8 ≤ count.toInt
          · obtain ⟨hperform, rfl⟩ := he.1 hcount
            have hnext := hg.perform (.seed buffer (some count.toInt))
            rw [hperform] at hnext
            exact hnext
          · obtain ⟨rfl, rfl⟩ := he.2 (by omega)
            exact hg

/-- A use that does what it should keeps the generator on the stream of the seeding in force. -/
theorem Follows.use (hg : g.Follows h) {use : Use} {answer : UseAnswer}
    (he : use.Effect g answer g') : g'.Follows (h.recordUse (use, answer)) := by
  cases use with
  | slot call =>
      cases answer with
      | slot answer => exact hg.callSlot he
      | drawn result => exact he.elim
  | generate count =>
      cases answer with
      | slot answer => exact he.elim
      | drawn result =>
          have hperform : g.perform (.generate count) =
            (result.map Generator.Answer.bytes, g') := he
          have hnext := hg.perform (.generate count)
          rw [hperform] at hnext
          cases result with
          | ok drawn => exact hnext
          | error e => exact hnext

end Generator

/-! ### Uses in any order -/

namespace Host

/-- Use the override at a place. -/
def use (h : Host) (i : OverrideId) : Use → UseAnswer × Host
  | .slot call => (.slot (h.callSlot i call).1, (h.callSlot i call).2)
  | .generate count => (.drawn (h.generate i count).1, (h.generate i count).2)

/-- Use the override at a place several times and collect the answers. -/
def useAll (h : Host) (i : OverrideId) : List Use → List UseAnswer × Host
  | [] => ([], h)
  | use :: rest =>
    let (answer, h) := h.use i use
    let (answers, h) := h.useAll i rest
    (answer :: answers, h)

variable {h : Host} {i : OverrideId}

/-- A use changes nothing in a host but the generator of the override used. -/
theorem use_eq_withGenerator (use : Use) (hi : i < h.overrides.length) :
    (h.use i use).2 = h.withGenerator i ((h.use i use).2.override i).generator := by
  cases use with
  | slot call =>
      unfold Host.use
      dsimp only
      rw [callSlot_eq, override_withGenerator_self _ hi]
  | generate count =>
      unfold Host.use
      dsimp only
      rw [generate_eq]
      cases (h.override i).generator.generate count with
      | ok drawn => rw [override_withGenerator_self _ hi]
      | error e => exact (withGenerator_self h i).symm

/-- Every use with a buffer that is long enough does to the generator what it should. -/
theorem effect_use {use : Use} (hi : i < h.overrides.length) (hfits : use.Fits) :
    use.Effect (h.override i).generator (h.use i use).1
      ((h.use i use).2.override i).generator := by
  cases use with
  | slot call =>
      unfold Host.use
      dsimp only
      rw [callSlot_eq, override_withGenerator_self _ hi]
      exact Generator.effect_callSlot _ hfits
  | generate count =>
      show (h.override i).generator.perform (.generate count) = _
      unfold Host.use Generator.perform
      dsimp only
      rw [generate_eq]
      cases (h.override i).generator.generate count with
      | ok drawn =>
          dsimp only
          rw [override_withGenerator_self _ hi]
          rfl
      | error e => rfl

/-- A use keeps the number of overrides. -/
theorem length_overrides_use (use : Use) (hi : i < h.overrides.length) :
    (h.use i use).2.overrides.length = h.overrides.length := by
  rw [use_eq_withGenerator use hi, length_overrides_withGenerator]

/-- Uses one after the other. -/
theorem useAll_append (h : Host) (i : OverrideId) (before after : List Use) :
    h.useAll i (before ++ after) =
      ((h.useAll i before).1 ++ ((h.useAll i before).2.useAll i after).1,
        ((h.useAll i before).2.useAll i after).2) := by
  induction before generalizing h with
  | nil => rfl
  | cons use before ih => simp only [useAll, List.cons_append, ih]

/-- Every use is answered. -/
theorem length_useAll (h : Host) (i : OverrideId) (uses : List Use) :
    (h.useAll i uses).1.length = uses.length := by
  induction uses generalizing h with
  | nil => rfl
  | cons use uses ih => simp only [useAll, List.length_cons, ih]

/-- Uses change nothing in a host but the generator of the override used. -/
theorem useAll_eq_withGenerator (uses : List Use) (hi : i < h.overrides.length) :
    (h.useAll i uses).2 = h.withGenerator i ((h.useAll i uses).2.override i).generator := by
  induction uses generalizing h with
  | nil => exact (withGenerator_self h i).symm
  | cons use uses ih =>
      have hrest := ih (h := (h.use i use).2) (by rwa [length_overrides_use use hi])
      rw [use_eq_withGenerator use hi, withGenerator_withGenerator _ _ hi,
        ← use_eq_withGenerator use hi] at hrest
      exact hrest

/-- Uses keep the number of overrides. -/
theorem length_overrides_useAll (uses : List Use) (hi : i < h.overrides.length) :
    (h.useAll i uses).2.overrides.length = h.overrides.length := by
  rw [useAll_eq_withGenerator uses hi, length_overrides_withGenerator]

/-- Uses keep the generator on the stream of the seeding in force. -/
theorem follows_useAll {seeding : Seeding} {uses : List Use} (hi : i < h.overrides.length)
    (hfits : ∀ use ∈ uses, use.Fits) (hfollows : (h.override i).generator.Follows seeding) :
    ((h.useAll i uses).2.override i).generator.Follows
      ((uses.zip (h.useAll i uses).1).foldl Seeding.recordUse seeding) := by
  -- The seeding changes with every use, so it varies along the induction with the host.
  induction uses generalizing h seeding with
  | nil => exact hfollows
  | cons use uses ih =>
      have heffect := effect_use hi (hfits use List.mem_cons_self)
      simp only [useAll, List.zip_cons_cons, List.foldl_cons]
      apply ih
      · rwa [length_overrides_use use hi]
      · intro later hlater
        exact hfits later (List.mem_cons_of_mem _ hlater)
      · exact hfollows.use heffect

/-- Each use of an override, whether it is installed or not, has exactly the effect of the
generator's own operation, and no other part of the host changes. The bytes handed out by both draw
slots and by direct draws since the last accepted seed are the first of that seed's stream, in the
order of the uses. -/
theorem uses_refine_generator (h : Host) (i : OverrideId) (uses : List Use)
    (hi : i < h.overrides.length) (hfits : ∀ use ∈ uses, use.Fits) :
    let answers := (h.useAll i uses).1
    let g := ((h.useAll i uses).2.override i).generator
    let seeding := (uses.zip answers).foldl Seeding.recordUse
      ⟨(h.override i).generator.state.toNat, []⟩
    answers.length = uses.length ∧
    (∀ before use after, uses = before ++ use :: after → ∃ answer,
      answers[before.length]? = some answer ∧
      use.Effect ((h.useAll i before).2.override i).generator answer
        ((h.useAll i (before ++ [use])).2.override i).generator) ∧
    (h.useAll i uses).2 = h.withGenerator i g ∧
    g.state.toNat = nextWord^[seeding.drawn.length] seeding.word ∧
    seeding.drawn.map UInt8.toNat =
      (List.range seeding.drawn.length).map
        (fun k ↦ shownByte (nextWord^[k + 1] seeding.word)) := by
  intro answers g seeding
  have hfollows : g.Follows seeding := follows_useAll hi hfits ⟨rfl, rfl⟩
  refine ⟨length_useAll h i uses, ?_, useAll_eq_withGenerator uses hi, hfollows.state,
    hfollows.drawn⟩
  rintro before use after rfl
  refine ⟨((h.useAll i before).2.use i use).1, ?_, ?_⟩
  · show (h.useAll i (before ++ use :: after)).1[before.length]? = _
    rw [useAll_append, List.getElem?_append_right (Nat.le_of_eq (length_useAll h i before)),
      length_useAll, Nat.sub_self]
    rfl
  · rw [useAll_append]
    apply effect_use
    · rwa [length_overrides_useAll before hi]
    · exact hfits use (List.mem_append_right _ List.mem_cons_self)

/-- A host with one library and one override, which is not installed. -/
def sample : Host := ((Host.ofLibraries [("host", .fresh [] [])]).create "host" default).2

/-- Draws by all three ways, and between them a seed. -/
def sampleUses : List Use :=
  [.slot (.bytes [0xAA, 0xAA, 0xAA] 2), .generate 1, .slot (.pseudorand [0xAA] (-1)),
    .slot (.seed (some [1, 2, 3, 4, 5, 6, 7, 8, 9]) 9), .slot (.pseudorand [0xAA, 0xAA, 0xAA] 2),
    .slot .add, .slot (.bytes [0xAA, 0xAA] 2)]

/-- The draws after the seed are the first four bytes of its stream. -/
theorem sampleUses_draw_stream :
    [50, 227, 3, 122] =
      (List.range 4).map fun k ↦ shownByte (nextWord^[k + 1] 0x0807060504030201) := by
  have hi : 0 < sample.overrides.length := by decide
  have hfits : ∀ use ∈ sampleUses, use.Fits := by decide
  have hseeding : (sampleUses.zip (sample.useAll 0 sampleUses).1).foldl Seeding.recordUse
      ⟨(sample.override 0).generator.state.toNat, []⟩ =
        ⟨0x0807060504030201, [50, 227, 3, 122]⟩ := by
    decide +kernel
  obtain ⟨_, _, _, _, hdrawn⟩ := uses_refine_generator sample 0 sampleUses hi hfits
  rw [hseeding] at hdrawn
  exact hdrawn

end Host
end Vendoring.Entropy
