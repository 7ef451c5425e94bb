import Vendoring.Settings.Load

/-!
# Binding a process to one override

The first successful call installs an override in a host library and binds it for the whole
process. Later calls give the same override; they may reseed it, but a call that names another
library is refused. An override that its library rejects is not bound, so a later call starts anew.
-/

namespace Vendoring.Entropy

open Vendoring.Text

namespace Host

/-- Install a new override with its own generator in a library, and bind it when the library
accepts it. -/
def bindNew (h : Host) (library : String) : Except OverrideError OverrideId × Host :=
  let (i, h) := h.create library default
  let (r, h) := h.install i
  match r with
  | .ok _ => (.ok i, { h with bound := some i })
  | .error e => (.error e, h)

/-- The override bound already, unless another library is asked for. -/
def bindAgain (h : Host) (i : OverrideId) (library : Option String) :
    Except OverrideError OverrideId :=
  match library with
  | none => .ok i
  | some name => if name = (h.override i).library then .ok i else .error .boundElsewhere

end Host

/-- The library at the place that the settings name, or else where the host finds it. -/
def findLibrary (around : Surroundings) (settings : Settings) : Except OverrideError String := do
  let present (path : Option String) : Option String := path.filter (· ≠ "")
  match (present settings.libcryptoPath).or (present around.located) with
  | none => throw .libraryNotFound
  | some path => match around.loadable.lookup path with
    | some name => return name
    | none => throw (.cannotLoad path
        (path ++ ": cannot open shared object file: No such file or directory"))

/-- Bind the process to an override in a library, found by the settings unless it is given, and
reseed it if a seed is given. -/
def makeDeterministic (settings : Settings) (library : Option String) (seed : Option Int) :
    Action OverrideId := do
  let i ← match (← get).host.bound with
    | none => do
      Action.say "[bold]Making libcrypto deterministic: replacing RAND method[/]"
      let name ← match library with
        | some name => pure name
        | none => Action.ofExcept .override (findLibrary (← read) settings)
      Action.onHost (·.bindNew name)
    | some i => Action.ofExcept .override ((← get).host.bindAgain i library)
  match seed with
  | none => pure ()
  | some value =>
    -- the line for debugging is put together whether it is shown or not
    Action.writable value
    Action.debug settings.debug "entropy" ("reseeding with " ++ intText value)
    Action.onHost (·.reseed i value)
  return i

end Vendoring.Entropy
