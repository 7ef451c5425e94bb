import Vendoring.Entropy.Generator

/-!
# Replacing a host library's randomness

An override owns one generator and offers it to a host library as a table of six functions. The
host keeps, for each of its libraries, the tables the library was given; a library forwards its own
seeding function to the latest of them. Installing succeeds once, when the library accepts the
table; whatever the library answers, it has then been given the table and may call it.
-/

namespace Vendoring.Entropy

/-- The functions of a host library that an override calls. -/
inductive HostFunction where
  /-- Takes a table and tells whether it is accepted. -/
  | setMethod
  /-- Seeds the current source of randomness. -/
  | seed
  deriving DecidableEq, Repr

namespace HostFunction

/-- The exported name of a function. -/
def name : HostFunction → String
  | setMethod => "RAND_set_rand_method"
  | seed => "RAND_seed"

/-- The function with an exported name. -/
def ofName? (s : String) : Option HostFunction :=
  [setMethod, seed].find? fun f ↦ f.name = s

end HostFunction

/-- Why an override cannot be created, installed or reseeded. -/
inductive OverrideError where
  | alreadyInstalled
  | rejected
  | boundElsewhere
  | libraryNotFound
  /-- The library at a path cannot be loaded, with the loader's reason. -/
  | cannotLoad (path reason : String)
  /-- The library lacks a function. -/
  | missingFunction (f : HostFunction)
  deriving DecidableEq, Repr

/-- The wording of an error; for a missing function it is the function's name. -/
def OverrideError.message : OverrideError → String
  | .alreadyInstalled => "deterministic RAND method already installed"
  | .rejected => "RAND_set_rand_method rejected the method table"
  | .boundElsewhere => "deterministic RAND method is bound to another library"
  | .libraryNotFound => "libcrypto not found; set VENDORKIT_LIBCRYPTO"
  | .cannotLoad path reason => "cannot load " ++ path ++ ": " ++ reason
  | .missingFunction f => f.name

/-- The place of an override in its host. -/
abbrev OverrideId := Nat

/-- A host library as an override sees it. -/
structure HostLibrary where
  /-- What the next calls of `setMethod` answer; 1 when the list is used up. -/
  returns : List Int
  /-- The functions the library lacks. -/
  missing : List HostFunction
  /-- The overrides whose tables the library was given, the earliest first. -/
  tables : List OverrideId
  /-- The calls of the seeding function: bytes and length. -/
  seedings : List (List UInt8 × Nat)
  deriving DecidableEq, Repr

namespace HostLibrary

/-- A library with given answers and missing functions that has not been called. -/
def fresh (returns : List Int) (missing : List HostFunction) : HostLibrary :=
  ⟨returns, missing, [], []⟩

instance : Inhabited HostLibrary := ⟨fresh [] []⟩

/-- Give the library a table: it is recorded whatever the answer. -/
def offer (l : HostLibrary) (table : OverrideId) : Int × HostLibrary :=
  (l.returns.headD 1, { l with returns := l.returns.tail, tables := l.tables ++ [table] })

end HostLibrary

/-- A generator bound to a library by name, and whether the library has accepted its table. -/
structure Override where
  library : String
  generator : Generator
  installed : Bool
  deriving DecidableEq, Repr, Inhabited

/-- A call of a slot of a table. Counts are 32-bit integers; a null buffer is absent. -/
inductive SlotCall where
  | seed (buffer : Option (List UInt8)) (count : Int32)
  | bytes (buffer : List UInt8) (count : Int32)
  | cleanup
  | add
  | pseudorand (buffer : List UInt8) (count : Int32)
  | status
  deriving DecidableEq, Repr

/-- What a slot answers: nothing, a code, or a code and the buffer it was given. -/
inductive SlotAnswer where
  | nothing
  | code (ret : Int)
  | filled (ret : Int) (buffer : List UInt8)
  deriving DecidableEq, Repr

namespace Generator

/-- Overwrite the start of a buffer with drawn bytes; a count that is not positive draws none. -/
def fill (g : Generator) (buffer : List UInt8) (count : Int32) : SlotAnswer × Generator :=
  if 0 < count.toInt then
    let (drawn, g) := g.draw count.toInt.toNat
    (.filled 1 (drawn ++ buffer.drop drawn.length), g)
  else (.filled 1 buffer, g)

/-- Call a slot of the table that offers a generator. -/
def callSlot (g : Generator) : SlotCall → SlotAnswer × Generator
  | .seed buffer count =>
    match buffer with
    | none => (.code 0, g)
    | some bs =>
      if count.toInt < seedLength then (.code 0, g)
      else
        let (accepted, g) := g.seed (bs.take seedLength) none
        (.code (if accepted then 1 else 0), g)
  | .bytes buffer count => g.fill buffer count
  | .pseudorand buffer count => g.fill buffer count
  | .cleanup => (.nothing, g)
  | .add => (.code 1, g)
  | .status => (.code 1, g)

end Generator

/-- The libraries of a process, the overrides made in it, and the one bound process-wide. -/
structure Host where
  libraries : List (String × HostLibrary)
  overrides : List Override
  bound : Option OverrideId
  deriving DecidableEq, Repr

namespace Host

/-- A process with libraries and no overrides. -/
def ofLibraries (libraries : List (String × HostLibrary)) : Host := ⟨libraries, [], none⟩

/-- The library of a name. -/
def library (h : Host) (name : String) : HostLibrary :=
  (h.libraries.lookup name).getD default

/-- The override at a place. -/
def override (h : Host) (i : OverrideId) : Override := h.overrides[i]?.getD default

/-- Replace the library of a name. -/
def setLibrary (h : Host) (name : String) (l : HostLibrary) : Host :=
  { h with libraries := h.libraries.map fun e ↦ if e.1 = name then (name, l) else e }

/-- Replace the override at a place. -/
def setOverride (h : Host) (i : OverrideId) (o : Override) : Host :=
  { h with overrides := h.overrides.set i o }

/-- Make an override with its own generator; it is not installed. -/
def create (h : Host) (library : String) (generator : Generator) : OverrideId × Host :=
  (h.overrides.length, { h with overrides := h.overrides ++ [⟨library, generator, false⟩] })

/-- Call a slot of an override's table. -/
def callSlot (h : Host) (i : OverrideId) (call : SlotCall) : SlotAnswer × Host :=
  let o := h.override i
  let (answer, generator) := o.generator.callSlot call
  (answer, h.setOverride i { o with generator })

/-- Offer an override's table to its library. It is installed when the library answers 1. -/
def install (h : Host) (i : OverrideId) : Except OverrideError Unit × Host :=
  let o := h.override i
  if o.installed then (.error .alreadyInstalled, h)
  else
    let l := h.library o.library
    if HostFunction.setMethod ∈ l.missing then (.error (.missingFunction .setMethod), h)
    else
      let (answer, l) := l.offer i
      let h := h.setLibrary o.library l
      if answer = 1 then (.ok (), h.setOverride i { o with installed := true })
      else (.error .rejected, h)

/-- Seed through an override's library, which forwards the bytes to the table it was given last. -/
def reseed (h : Host) (i : OverrideId) (value : Int) : Except OverrideError Unit × Host :=
  let name := (h.override i).library
  let l := h.library name
  if HostFunction.seed ∈ l.missing then (.error (.missingFunction .seed), h)
  else
    let raw := wordBytes (wordOf value)
    let h := h.setLibrary name { l with seedings := l.seedings ++ [(raw, seedLength)] }
    match l.tables.getLast? with
    | none => (.ok (), h)
    | some table => (.ok (), (h.callSlot table (.seed (some raw) (Int32.ofNat seedLength))).2)

/-- Draw from an override's generator directly. -/
def generate (h : Host) (i : OverrideId) (count : Int) :
    Except DrawError (List UInt8) × Host :=
  let o := h.override i
  match o.generator.generate count with
  | .ok (drawn, generator) => (.ok drawn, h.setOverride i { o with generator })
  | .error e => (.error e, h)

end Host
end Vendoring.Entropy
