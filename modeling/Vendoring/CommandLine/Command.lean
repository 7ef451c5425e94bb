import Vendoring.CommandLine.Words
import Vendoring.Entropy.Generator
import Vendoring.Files.Path

/-!
# Commands

What a command line asks for. The first word names the command; its arguments are plain words in a
fixed order, its options may stand anywhere. A single-valued option given several times has its last
value. Of the arguments and options that are missing or unusable, the first in the order of their
declaration is told; superfluous words are told last.
-/

namespace Vendoring.CommandLine

open Vendoring.Data Vendoring.Files

/-- What the provenance of a library is described by on a command line. -/
structure Description where
  libname : String
  version : String
  tags : List String
  known : List String
  fixed : List String
  deriving DecidableEq, Repr

/-- A command with its arguments and options. -/
inductive Command where
  | install (source build destination : Path) (debug : Bool)
  | probe (directory : Path) (tags : List String) (nm marker : Option String) (debug : Bool)
  | metadata (destination : Option Path) (d : Description)
  | build (source build destination : Path) (d : Description) (skipCompile : Bool)
    (cc : Option String) (jobs : Option Int) (debug : Bool)
  | rng (seed count : Int)
  deriving DecidableEq, Repr

namespace Options

/-- The option that turns debug lines on. -/
def debug : OptionSpec := .switch "--debug"

/-- The option that requests a tag of a probe. -/
def request : OptionSpec := .valued "--request" (some 'r')

/-- The option that names the symbol tool. -/
def nm : OptionSpec := .valued "--nm" none

/-- The option that gives the marker. -/
def marker : OptionSpec := .valued "--marker" none

/-- The option that names the library. -/
def libname : OptionSpec := .valued "--libname" none

/-- The option that gives the library's version. -/
def version : OptionSpec := .valued "--version" none

/-- The option that adds a tag. -/
def instrumentation : OptionSpec := .valued "--instrumentation" (some 'i')

/-- The option that adds a known vulnerability. -/
def known : OptionSpec := .valued "--known" none

/-- The option that adds a fixed vulnerability. -/
def fixed : OptionSpec := .valued "--fixed" none

/-- The option that reuses an existing build. -/
def skipCompile : OptionSpec := .switch "--skip-compile"

/-- The option that names the compiler. -/
def cc : OptionSpec := .valued "--cc" none

/-- The option that sets the number of build jobs. -/
def jobs : OptionSpec := .valued "--jobs" (some 'j')

/-- The option that seeds the generator. -/
def seed : OptionSpec := .valued "--seed" (some 's')

/-- The option that sets the number of bytes to draw. -/
def count : OptionSpec := .valued "--count" (some 'n')

end Options

/-- The argument at a place among the plain words. -/
def argument (items : List Item) (place : Nat) (name : String) : Except UsageError String :=
  match (plainWords items)[place]? with
  | some word => .ok word
  | none => .error (.missingArgument name)

/-- The path that an argument gives. -/
def pathArgument (items : List Item) (place : Nat) (name : String) : Except UsageError Path :=
  Path.ofString <$> argument items place name

/-- The value of an option that has to be given. -/
def requiredValue (items : List Item) (o : OptionSpec) : Except UsageError String :=
  match valueOf? o items with
  | some value => .ok value
  | none => .error (.missingOption o.long)

/-- The integer given to an option. -/
def integerValue? (integers : String → Checked Int) (items : List Item) (o : OptionSpec) :
    Except UsageError (Option Int) :=
  match valueOf? o items with
  | none => .ok none
  | some value => match integers value with
    | .valid n => .ok (some n)
    | .invalid issues =>
      .error (.badValue o.names ((issues.head?.map Issue.problem).getD .unreadableInteger))

/-- Refuse plain words beyond a number of arguments. -/
def noMoreThan (items : List Item) (arguments : Nat) : Except UsageError Unit :=
  match (plainWords items).drop arguments with
  | [] => .ok ()
  | words => .error (.extraArguments words)

/-- The description that options give. -/
def description (items : List Item) : Except UsageError Description := do
  let libname ← requiredValue items Options.libname
  let version ← requiredValue items Options.version
  return ⟨libname, version, valuesOf Options.instrumentation items, valuesOf Options.known items,
    valuesOf Options.fixed items⟩

/-- The options of a description. -/
def descriptionOptions : List OptionSpec :=
  [Options.libname, Options.version, Options.instrumentation, Options.known, Options.fixed]

/-- Read an install command. -/
def readInstall (words : List String) : Except UsageError Command := do
  let items ← readWords [Options.debug] words
  let source ← pathArgument items 0 "source_dir"
  let build ← pathArgument items 1 "build_dir"
  let destination ← pathArgument items 2 "prefix"
  noMoreThan items 3
  return .install source build destination (isGiven Options.debug items)

/-- Read a probe command. -/
def readProbe (words : List String) : Except UsageError Command := do
  let items ← readWords [Options.request, Options.nm, Options.marker, Options.debug] words
  let directory ← pathArgument items 0 "lib_dir"
  noMoreThan items 1
  return .probe directory (valuesOf Options.request items) (valueOf? Options.nm items)
    (valueOf? Options.marker items) (isGiven Options.debug items)

/-- Read a metadata command. -/
def readMetadata (words : List String) : Except UsageError Command := do
  let items ← readWords descriptionOptions words
  let d ← description items
  noMoreThan items 1
  return .metadata ((plainWords items).head?.map Path.ofString) d

/-- Read a build command. -/
def readBuild (integers : String → Checked Int) (words : List String) :
    Except UsageError Command := do
  let items ← readWords
    (descriptionOptions ++ [Options.skipCompile, Options.cc, Options.jobs, Options.debug]) words
  let source ← pathArgument items 0 "source_dir"
  let build ← pathArgument items 1 "build_dir"
  let destination ← pathArgument items 2 "prefix"
  let d ← description items
  let jobs ← integerValue? integers items Options.jobs
  noMoreThan items 3
  return .build source build destination d (isGiven Options.skipCompile items)
    (valueOf? Options.cc items) jobs (isGiven Options.debug items)

/-- The number of bytes drawn unless another is given. -/
def defaultCount : Int := 32

/-- Read a generator command. -/
def readRng (integers : String → Checked Int) (words : List String) :
    Except UsageError Command := do
  let items ← readWords [Options.seed, Options.count] words
  let seed ← integerValue? integers items Options.seed
  let count ← integerValue? integers items Options.count
  noMoreThan items 0
  return .rng (seed.getD Entropy.defaultSeed) (count.getD defaultCount)

/-- The commands by name, each with what reads the words after it. -/
def commands (integers : String → Checked Int) :
    List (String × (List String → Except UsageError Command)) :=
  [("install", readInstall), ("probe", readProbe), ("metadata", readMetadata),
    ("build", readBuild integers), ("rng", readRng integers)]

/-- Read a command line, its integers with a reader of the host. -/
def Command.read (integers : String → Checked Int) (words : List String) :
    Except UsageError Command :=
  let named : List String → Except UsageError Command
    | [] => .error .missingCommand
    | name :: rest => match (commands integers).lookup name with
      | some reader => reader rest
      | none => .error (.noSuchCommand name)
  match words with
  | "--" :: rest => named rest
  | [] => named []
  | word :: _ => match opening? [] word with
    | some opening => .error (.noSuchOption opening.name)
    | none => named words

end Vendoring.CommandLine
