import Mathlib.Data.List.Dedup
import Vendoring.Proofs.Entropy.Reseeding
import Vendoring.Proofs.Session.Frames

/-!
# One binding for a process

A process starts with no override bound. Calls that bind may be refused any number of times; the
first whose library accepts a table binds the process, and from then on no library is offered a
table, every call that gives an override gives that one, and calls for other libraries are refused.
-/

namespace Vendoring.Entropy

open Vendoring.Action Vendoring.Text

/-! ### A call on a host -/

/-- The library that a call is for: the one it names, or else the one that is found. -/
def targetLibrary (around : Surroundings) (settings : Settings) :
    Option String → Except OverrideError String
  | some name => .ok name
  | none => findLibrary around settings

namespace Host

variable {h : Host} {i : OverrideId} {name : String}

/-- Bind a new override in a library, or give the one bound already. -/
def bindFor (h : Host) (target : Except OverrideError String) (library : Option String) :
    Except OverrideError OverrideId × Host :=
  match h.bound with
  | some i => (h.bindAgain i library, h)
  | none => match target with
    | .ok name => h.bindNew name
    | .error e => (.error e, h)

/-- Reseed an override if there is a seed, which must be short enough to be written. -/
def reseedWith (h : Host) (i : OverrideId) : Option Int → Except Failure Unit × Host
  | none => (.ok (), h)
  | some v =>
    match writtenInt v with
    | .error e => (.error (.integer e), h)
    | .ok _ => ((h.reseed i v).1.mapError .override, (h.reseed i v).2)

/-- Reseed the override that a call gives, if it gives one. -/
def seeded (seed : Option Int) :
    Except OverrideError OverrideId × Host → Except Failure OverrideId × Host
  | (.error e, h) => (.error (.override e), h)
  | (.ok i, h) => ((h.reseedWith i seed).1.map fun _ ↦ i, (h.reseedWith i seed).2)

/-- What a call that binds does to a host. -/
def make (h : Host) (target : Except OverrideError String) (library : Option String)
    (seed : Option Int) : Except Failure OverrideId × Host :=
  seeded seed (h.bindFor target library)

end Host

/-- An action gives a result and leaves a host, and changes nothing else but what is shown. -/
def Gives {α : Type} (around : Surroundings) (s : Session) (a : Action α)
    (result : Except Failure α × Host) : Prop :=
  ∃ console, perform a around s = (result.1, { s with host := result.2, console })

namespace Gives

variable {α β : Type} {around : Surroundings} {s : Session} {a : Action α}
  {f : α → Action β} {result : Except Failure β × Host} {host : Host}

/-- An action after another works on the host that the first one leaves. -/
theorem bind {x : α} (ha : Gives around s a (.ok x, host))
    (hf : ∀ console, Gives around { s with host, console } (f x) result) :
    Gives around s (a >>= f) result := by
  obtain ⟨shown, ha⟩ := ha
  obtain ⟨console, hf⟩ := hf shown
  refine ⟨console, ?_⟩
  rw [perform_bind, ha]
  exact hf

/-- Nothing follows an action that fails. -/
theorem bind_error {e : Failure} (ha : Gives around s a (.error e, host)) :
    Gives around s (a >>= f) (.error e, host) := by
  obtain ⟨shown, ha⟩ := ha
  refine ⟨shown, ?_⟩
  rw [perform_bind, ha]

/-- Giving a value leaves the host as it is. -/
theorem pure (x : α) : Gives around s (Pure.pure x) (.ok x, s.host) := ⟨s.console, rfl⟩

/-- A result that is known leaves the host as it is. -/
theorem ofExcept (r : Except OverrideError α) :
    Gives around s (Action.ofExcept .override r) (r.mapError .override, s.host) := by
  refine ⟨s.console, ?_⟩
  rw [perform_ofExcept]

/-- An action on the host gives what it gives there. -/
theorem onHost (g : Host → Except OverrideError α × Host) :
    Gives around s (Action.onHost g) ((g s.host).1.mapError .override, (g s.host).2) := by
  refine ⟨s.console, ?_⟩
  rw [perform_onHost]

/-- Whether an integer can be written is told without a change. -/
theorem writable (n : Int) : Gives around s (Action.writable n)
    (((writtenInt n).map fun _ ↦ ()).mapError .integer, s.host) := by
  refine ⟨s.console, ?_⟩
  rw [perform_writable]

/-- Showing a line about a part of the program leaves the host as it is. -/
theorem debug (enabled : Bool) (part text : String) :
    Gives around s (Action.debug enabled part text) (.ok (), s.host) := by
  cases enabled with
  | false => exact ⟨s.console, rfl⟩
  | true => exact ⟨_, rfl⟩

/-- The announcement of a binding leaves the host as it is. -/
theorem announce :
    Gives around s (say "[bold]Making libcrypto deterministic: replacing RAND method[/]")
      (.ok (), s.host) := by
  have hrender : Text.Markup.render
      "[bold]Making libcrypto deterministic: replacing RAND method[/]" =
        .ok "Making libcrypto deterministic: replacing RAND method" := by
    decide +kernel
  refine ⟨s.console ++
    Text.splitLines "Making libcrypto deterministic: replacing RAND method", ?_⟩
  rw [perform_say, hrender]

end Gives

private def reseeding (settings : Settings) (seed : Option Int) (i : OverrideId) :
    Action OverrideId :=
  match seed with
  | none => pure i
  | some value => do
    writable value
    debug settings.debug "entropy" ("reseeding with " ++ Text.intText value)
    onHost (·.reseed i value)
    return i

private theorem gives_reseeding (settings : Settings) (seed : Option Int) (i : OverrideId)
    (around : Surroundings) (s : Session) :
    Gives around s (reseeding settings seed i)
      ((s.host.reseedWith i seed).1.map fun _ ↦ i, (s.host.reseedWith i seed).2) := by
  cases seed with
  | none => exact .pure i
  | some v =>
      have hwritable : Gives around s (Action.writable v) _ := .writable v
      unfold Host.reseedWith
      dsimp only
      cases hwritten : writtenInt v with
      | error e =>
          rw [hwritten] at hwritable
          exact hwritable.bind_error
      | ok text =>
          rw [hwritten] at hwritable
          refine hwritable.bind fun console ↦ (Gives.debug _ _ _).bind fun shown ↦ ?_
          have hreseed : Gives around { s with console := shown } (Action.onHost (·.reseed i v))
              _ := .onHost _
          dsimp only at hreseed ⊢
          generalize s.host.reseed i v = result at hreseed ⊢
          rcases result with ⟨e | _, host⟩
          · exact hreseed.bind_error
          · exact hreseed.bind fun _ ↦ .pure i

/-- An override that is given is reseeded if there is a seed. -/
private theorem Gives.reseeding {around : Surroundings} {s : Session} {a : Action OverrideId}
    {r : Except OverrideError OverrideId} {host : Host}
    (ha : Gives around s a (r.mapError .override, host))
    (settings : Settings) (seed : Option Int) :
    Gives around s (a >>= reseeding settings seed) (Host.seeded seed (r, host)) := by
  rcases r with e | i
  · exact ha.bind_error
  · exact ha.bind fun _ ↦ gives_reseeding settings seed i around _

/-- A call that binds works on the host alone, apart from what it shows. -/
theorem gives_makeDeterministic (settings : Settings) (library : Option String)
    (seed : Option Int) (around : Surroundings) (s : Session) :
    Gives around s (makeDeterministic settings library seed)
      (s.host.make (targetLibrary around settings library) library seed) := by
  unfold makeDeterministic Host.make Host.bindFor
  refine Gives.bind (x := s) ⟨s.console, rfl⟩ fun console ↦ ?_
  cases s.host.bound with
  | some i =>
      refine Gives.bind (x := { s with console }) ⟨console, rfl⟩ fun _ ↦ ?_
      exact Gives.reseeding (r := s.host.bindAgain i library) (.ofExcept _) settings seed
  | none =>
      refine Gives.announce.bind fun console ↦ ?_
      cases library with
      | some name => exact (Gives.onHost (·.bindNew name)).reseeding settings seed
      | none =>
          refine Gives.bind (x := around) ⟨console, rfl⟩ fun shown ↦ ?_
          show Gives around _ (Action.ofExcept .override (findLibrary around settings) >>=
            fun name ↦ onHost (·.bindNew name) >>= reseeding settings seed) _
          unfold targetLibrary
          cases findLibrary around settings with
          | error e => exact (Gives.ofExcept (.error e)).bind_error
          | ok name =>
              exact (Gives.ofExcept (.ok name)).bind fun _ ↦
                (Gives.onHost (·.bindNew name)).reseeding settings seed

end Vendoring.Entropy
