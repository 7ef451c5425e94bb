import Vendoring.Files.Workspace

/-!
# Failed installs

Why the archives and headers of a build could not be installed.
-/

namespace Vendoring.Build

open Vendoring.Files

/-- Why an install failed. -/
inductive InstallError where
  /-- The directories below the install directory could not be made. -/
  | layout (destination : Path) (e : FileError)
  /-- A directory that should hold archives is not one. -/
  | noBuildOutput (directory : Path)
  /-- A directory holds no archive. -/
  | noArchives (directory : Path)
  | archive (path : Path) (e : FileError)
  /-- The header tree is not a directory. -/
  | noHeaders (directory : Path)
  | headers (directory : Path) (e : FileError)
  deriving DecidableEq, Repr

/-- The wording of an error. -/
def InstallError.message : InstallError → String
  | .layout destination e =>
    "Cannot create install layout under " ++ destination.text ++ ": " ++ e.message
  | .noBuildOutput directory => "Build output directory not found: " ++ directory.text
  | .noArchives directory => "No static archives in " ++ directory.text
  | .archive path e => "Failed to copy " ++ path.text ++ ": " ++ e.message
  | .noHeaders directory => "Header tree not found: " ++ directory.text
  | .headers directory e =>
    "Failed to copy header tree " ++ directory.text ++ ": " ++ e.message

end Vendoring.Build
