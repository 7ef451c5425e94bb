import Vendoring.Build.InstallError
import Vendoring.CommandLine.UsageError
import Vendoring.Entropy.Override
import Vendoring.Provenance.Document
import Vendoring.Text.Markup
import Vendoring.Text.Utf8
import Vendoring.Tool.Fault

/-!
# Failures

Everything that can stop an action, by cause. A failure's message is what reports and diagnostics
show.
-/

namespace Vendoring

open Vendoring.Text Vendoring.Data

/-- Why an action stopped. -/
inductive Failure where
  | file (e : Files.FileError)
  | undecodable (e : Utf8.DecodeError)
  | environment (e : Settings.VariableError)
  | integer (e : IntegerError)
  | fields (e : ValidationError)
  | document (e : Toml.TomlError)
  | markup (e : Markup.MarkupError)
  | install (e : Build.InstallError)
  | compile (e : Tool.CompileError)
  /-- A command line or a path holds a null byte. -/
  | nullByte
  | override (e : Entropy.OverrideError)
  | usage (e : CommandLine.UsageError)
  deriving DecidableEq, Repr

namespace Failure

/-- The wording of a failure. -/
def message : Failure → String
  | file e => e.message
  | undecodable e => e.message
  | environment e => e.message
  | integer e => e.message
  | fields e => toString e.issues.length ++ " validation errors for " ++ e.record
  | document e => e.message
  | markup e => e.message
  | install e => e.message
  | compile e => e.message
  | nullByte => "embedded null byte"
  | override e => e.message
  | usage e => e.message

/-- Why no system call takes a path, if none does. -/
def ofPath? (p : Files.Path) : Option Failure :=
  if p.holdsNull then some .nullByte
  else if p.isTooLong then some (.file (.system .nameTooLong p.text))
  else none

/-- Why reading a record failed. -/
def ofReadError : Provenance.Record.ReadError → Failure
  | .document e => document e
  | .fields e => fields e

end Failure
end Vendoring
