import Vendoring.Files.Path
import Vendoring.Instrumentation.Profile

/-!
# Versioned install directories

Each library version and instrumentation variant has an install directory of its own below a root,
named by the library, the version and the variant with dashes between them.
-/

namespace Vendoring.Build

open Vendoring.Files Vendoring.Instrumentation

/-- The name of an install directory. -/
def installName (libname version : String) (profile : Profile) : String :=
  libname ++ "-" ++ version ++ "-" ++ profile.variantName

/-- The install directory of a library version and variant below a root. -/
def installDirectory (root : Path) (libname version : String) (profile : Profile) : Path :=
  root.below (installName libname version profile)

end Vendoring.Build
