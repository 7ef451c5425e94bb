import Vendoring.Text.Split

/-!
# Paths

A path is an anchor and a list of parts. Reading a path from text drops empty parts and parts that
are a single dot; a part of two dots is kept, because what it means depends on the file system.
Exactly two leading slashes are an anchor of their own, any other positive number is the root.
-/

namespace Vendoring.Files

open Vendoring.Text

/-- Where a path starts. -/
inductive Anchor where
  | relative
  | root
  | doubleRoot
  deriving DecidableEq, Repr

/-- The text of an anchor. -/
def Anchor.text : Anchor → String
  | relative => ""
  | root => "/"
  | doubleRoot => "//"

/-- A path in normal form. -/
structure Path where
  anchor : Anchor
  parts : List String
  deriving DecidableEq, Repr

namespace Path

/-- The anchor announced by a number of leading slashes. -/
def anchorOf : Nat → Anchor
  | 0 => .relative
  | 2 => .doubleRoot
  | _ => .root

/-- The parts of a text that a path keeps. -/
def partsOf (cs : List Char) : List String :=
  ((splitOn '/' cs).filter fun part ↦ part ≠ [] ∧ part ≠ ['.']).map String.ofList

/-- The path that a text stands for. -/
def ofString (s : String) : Path :=
  let cs := s.toList
  ⟨anchorOf (cs.takeWhile (· == '/')).length, partsOf cs⟩

/-- The current directory. -/
def here : Path := ⟨.relative, []⟩

instance : Inhabited Path := ⟨here⟩

/-- The text of a path; the current directory is a dot. -/
def text (p : Path) : String :=
  let s := p.anchor.text ++ "/".intercalate p.parts
  if s.isEmpty then "." else s

instance : ToString Path := ⟨text⟩

/-- The last part, or nothing when there is none. -/
def name (p : Path) : String := p.parts.getLast?.getD ""

/-- The path without its last part. -/
def parent (p : Path) : Path := { p with parts := p.parts.dropLast }

/-- A path below another; an anchored path replaces it. -/
def join (p q : Path) : Path :=
  match q.anchor with
  | .relative => { p with parts := p.parts ++ q.parts }
  | _ => q

/-- The path that a text names below a path. -/
def below (p : Path) (s : String) : Path := p.join (ofString s)

/-- The entry of a name in a directory. -/
def entry (p : Path) (name : String) : Path := { p with parts := p.parts ++ [name] }

/-- An entry has its own name. -/
theorem name_entry (p : Path) (name : String) : (p.entry name).name = name := by
  simp [Path.name, entry]

/-- No part of a path read from text holds a slash. -/
theorem slash_notMem_parts_ofString {s part : String} (h : part ∈ (ofString s).parts) :
    '/' ∉ part.toList := by
  obtain ⟨cs, hm, rfl⟩ := List.mem_map.1 h
  simpa using sep_notMem_splitOn (List.mem_filter.1 hm).1

/-- Entries of one directory are equal exactly when their names are. -/
theorem entry_inj {p : Path} {a b : String} : p.entry a = p.entry b ↔ a = b := by
  simp [entry]

end Path
end Vendoring.Files
