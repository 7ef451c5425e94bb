import Vendoring.Proofs.CommandLine.Dump
import Vendoring.Proofs.CommandLine.Numerals
import Vendoring.Proofs.Entropy.Calls
import Vendoring.Proofs.Entropy.Draws
import Vendoring.Proofs.Settings.Processes

/-!
# Replaying a seed

However a generator is seeded with an integer, it draws the same bytes: made with it, given the
bytes of its word, reseeded through the library that its table was given to last, or bound with it.
The dump of the integer shows these bytes, and the command line asks for it with a numeral that is
not too long. What the command line reads numerals with belongs to the host: whether it counts the
sign of a numeral is left open, and so is what it makes of one that has a digit too many with it.
-/

namespace Vendoring.Entropy

open Vendoring.CommandLine Vendoring.Text

/-- Bytes are drawn after every way to seed with an integer, and its dump shows them. -/
structure Replays (v : Int) (bytes : List UInt8) : Prop where
  /-- A generator made with the integer draws the bytes. -/
  made : ∃ g, (Generator.ofSeed v).generate bytes.length = .ok (bytes, g)
  /-- So does a generator in any state that is seeded with the eight bytes of the integer's
  remainder, the least significant first. -/
  seeded : ∀ (g : Generator) (buffer : List UInt8), buffer.length = 8 →
    Nat.ofDigits 256 (buffer.map UInt8.toNat) = (v % 2 ^ 64).toNat →
    ∃ g' g'', g.seed buffer none = (true, g') ∧ g'.generate bytes.length = .ok (bytes, g'')
  /-- An override reseeded through the library that was given its table last hands them out. -/
  reseeded : ∀ (h : Host) (i : OverrideId), i < h.overrides.length →
    .seed ∉ (h.library (h.override i).library).missing →
    (h.library (h.override i).library).tables.getLast? = some i →
    ∃ h', h.reseed i v = (.ok (), h') ∧ h'.HandsOut i bytes
  /-- So does one that a call for an override with the integer as seed gave. -/
  bound : ∀ (settings : Settings) (library : Option String) (around : Surroundings)
    (s t : Session) (i : OverrideId),
    Action.perform (makeDeterministic settings library (some v)) around s = (.ok i, t) →
    i < t.host.overrides.length →
    (t.host.library (t.host.override i).library).tables.getLast? = some i →
    t.host.HandsOut i bytes
  /-- The command that dumps as many bytes drawn after the integer shows them. -/
  dumped : ∀ count : Int, count.toNat = bytes.length → ∀ (around : Surroundings) (s : Session),
    ∃ lines, Action.perform (Command.rng v count).run around s =
      (.ok 0, { s with output := s.output ++ linesText lines }) ∧ Dumps lines bytes
  /-- Where numerals are read, the words for that command run it, if the numerals are not too
  long. -/
  commanded : ∀ around : Surroundings, ReadsNumerals around.integers → ∀ count : Int,
    (intText v).length ≤ digitLimit → (intText count).length ≤ digitLimit → ∀ s : Session,
    Action.perform (run (dumpWords v count)) around s =
      Action.perform (Command.rng v count).run around s
  /-- If one has too many digits, the words are refused and nothing is shown. -/
  refused : ∀ around : Surroundings, ReadsNumerals around.integers → ∀ count : Int,
    digitLimit < (Nat.toDigits 10 v.natAbs).length ∨
      digitLimit < (Nat.toDigits 10 count.natAbs).length → ∀ s : Session,
    ∃ e, Action.perform (run (dumpWords v count)) around s = (.error (.usage e), s)
  /-- In between, the one or the other happens. -/
  commanded_or_refused : ∀ around : Surroundings, ReadsNumerals around.integers →
    ∀ (count : Int) (s : Session),
    Action.perform (run (dumpWords v count)) around s =
        Action.perform (Command.rng v count).run around s ∨
      ∃ e, Action.perform (run (dumpWords v count)) around s = (.error (.usage e), s)
  /-- A count that is not positive has nothing shown. -/
  undumped : ∀ count : Int, count ≤ 0 → ∀ (around : Surroundings) (s : Session),
    Action.perform (Command.rng v count).run around s = (.ok 0, s)

variable {h : Host} {i : OverrideId} {v : Int}

/-- An override reseeded through the library that was given its table last hands out the bytes that
a generator made with the seed draws. -/
theorem handsOut_of_reseed (n : Nat) (hi : i < h.overrides.length)
    (hseed : .seed ∉ (h.library (h.override i).library).missing)
    (hlatest : (h.library (h.override i).library).tables.getLast? = some i) :
    ∃ h', h.reseed i v = (.ok (), h') ∧ h'.HandsOut i ((Generator.ofSeed v).draw n).1 := by
  let h' := (h.withSeeding (h.override i).library v).withGenerator i (.ofSeed v)
  have hi' : i < h'.overrides.length := by
    rw [Host.length_overrides_withGenerator]
    exact hi
  have hgenerator : (h'.override i).generator = .ofSeed v := by
    rw [Host.override_withGenerator_self]
    exact hi
  have hhands := Host.handsOut_draw n hi'
  rw [hgenerator] at hhands
  exact ⟨h', Host.reseed_of_last v hseed hlatest, hhands⟩

/-- An override that a call with a seed gave hands out the bytes that a generator made with the
seed draws, if its library was given its table last. -/
theorem handsOut_of_makeDeterministic (n : Nat) {settings : Settings} {library : Option String}
    {around : Surroundings} {s t : Session}
    (hgiven : Action.perform (makeDeterministic settings library (some v)) around s = (.ok i, t))
    (hi : i < t.host.overrides.length)
    (hlatest : (t.host.library (t.host.override i).library).tables.getLast? = some i) :
    t.host.HandsOut i ((Generator.ofSeed v).draw n).1 := by
  obtain ⟨console, hmake⟩ := gives_makeDeterministic settings library (some v) around s
  rw [hgiven] at hmake
  unfold Host.make at hmake
  generalize s.host.bindFor (targetLibrary around settings library) library = binding at hmake
  rcases binding with ⟨e | j, h⟩
  · cases hmake
  · -- The call returned, so there was no reason against reseeding the override.
    unfold Host.seeded at hmake
    dsimp only at hmake
    cases hfault : h.seedFault? j v with
    | some fault =>
        rw [Host.reseedWith_of_fault hfault] at hmake
        cases hmake
    | none =>
        obtain ⟨hpresent, hwith⟩ := Host.reseedWith_of_noFault hfault
        rw [hwith] at hmake
        cases hreseed : h.reseed j v with
        | mk result h' =>
            rw [hreseed] at hmake
            cases result with
            | error e => cases hmake
            | ok _ =>
                cases hmake
                obtain ⟨k, hr⟩ := Host.regenerated_reseed h j v
                rw [hreseed] at hr
                rw [hr.library_override, hr.tables_library] at hlatest
                rw [hr.count] at hi
                obtain ⟨h'', hsame, hhands⟩ := handsOut_of_reseed n hi hpresent hlatest
                rw [hreseed] at hsame
                cases hsame
                exact hhands

/-- A host with a library that has accepted the table of an override. -/
def Host.sampleBound : Host := (Host.ofLibraries [("host", .fresh [] [])]).accepted "host"

end Vendoring.Entropy
