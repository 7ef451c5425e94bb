import Vendoring.Entropy.Binding
import Vendoring.Proofs.Entropy.Stream

/-!
# Laws of a host

What each operation of a host does to its libraries, its overrides and the binding. Calling a slot
and reseeding change generators alone, apart from the record of seedings that a library keeps;
offering a table changes the library it is offered to, and marks an override as installed when the
library accepts it.
-/

namespace Vendoring.Entropy

namespace Host

variable {h : Host} {i j : OverrideId} {name other : String}

/-- The names of the libraries. -/
def libraryNames (h : Host) : List String := h.libraries.map Prod.fst

/-- Replace the generator of the override at a place. -/
def withGenerator (h : Host) (i : OverrideId) (g : Generator) : Host :=
  h.setOverride i { h.override i with generator := g }

/-! ### Reading what was written -/

/-- An override that was replaced is the new one. -/
theorem override_setOverride_self (o : Override) (hi : i < h.overrides.length) :
    (h.setOverride i o).override i = o := by
  unfold override setOverride
  rw [List.getElem?_set_self hi]
  rfl

/-- Replacing an override leaves the others as they are. -/
theorem override_setOverride_of_ne (o : Override) (hij : j ≠ i) :
    (h.setOverride i o).override j = h.override j := by
  unfold override setOverride
  rw [List.getElem?_set_ne hij.symm]

/-- A library that was replaced is the new one, if the host has one of its name. -/
theorem library_setLibrary_self (l : HostLibrary) (hname : name ∈ h.libraryNames) :
    (h.setLibrary name l).library name = l := by
  obtain ⟨libraries, overrides, bound⟩ := h
  unfold library setLibrary
  unfold libraryNames at hname
  dsimp only at hname ⊢
  induction libraries with
  | nil => cases hname
  | cons entry rest ih =>
      rw [List.map_cons, List.lookup_cons]
      by_cases hentry : entry.1 = name
      · simp [hentry]
      · have hkey : (name == entry.1) = false := by simpa using Ne.symm hentry
        simp only [if_neg hentry, hkey]
        apply ih
        rw [List.map_cons] at hname
        exact (List.mem_cons.mp hname).resolve_left (Ne.symm hentry)

/-- Replacing a library leaves the others as they are. -/
theorem library_setLibrary_of_ne (l : HostLibrary) (hother : other ≠ name) :
    (h.setLibrary name l).library other = h.library other := by
  obtain ⟨libraries, overrides, bound⟩ := h
  unfold library setLibrary
  dsimp only
  congr 1
  induction libraries with
  | nil => rfl
  | cons entry rest ih =>
      rw [List.map_cons, List.lookup_cons, List.lookup_cons]
      by_cases hentry : entry.1 = name
      · have hkey : (other == name) = false := by simpa using hother
        rw [if_pos hentry, hentry]
        simp only [hkey]
        exact ih
      · simp only [if_neg hentry]
        split
        · rfl
        · exact ih

/-- Replacing a library that the host does not have changes nothing. -/
theorem setLibrary_of_notMem (l : HostLibrary) (hname : name ∉ h.libraryNames) :
    h.setLibrary name l = h := by
  have hsame : ∀ entry ∈ h.libraries, (if entry.1 = name then (name, l) else entry) = entry := by
    intro entry hentry
    apply if_neg
    rintro rfl
    exact hname (List.mem_map_of_mem hentry)
  unfold setLibrary
  rw [List.map_congr_left hsame, List.map_id']

/-- Replacing a library keeps the names of all. -/
theorem libraryNames_setLibrary (h : Host) (name : String) (l : HostLibrary) :
    (h.setLibrary name l).libraryNames = h.libraryNames := by
  unfold libraryNames setLibrary
  rw [List.map_map]
  apply List.map_congr_left
  intro entry _
  by_cases hentry : entry.1 = name
  · simp [hentry]
  · simp [hentry]

/-! ### Generators -/

/-- Replacing a generator gives the override the new one and keeps the rest of it. -/
theorem override_withGenerator_self (g : Generator) (hi : i < h.overrides.length) :
    (h.withGenerator i g).override i = { h.override i with generator := g } :=
  override_setOverride_self _ hi

/-- Replacing a generator leaves the other overrides as they are. -/
theorem override_withGenerator_of_ne (g : Generator) (hij : j ≠ i) :
    (h.withGenerator i g).override j = h.override j :=
  override_setOverride_of_ne _ hij

/-- Replacing a generator by itself changes nothing. -/
theorem withGenerator_self (h : Host) (i : OverrideId) :
    h.withGenerator i (h.override i).generator = h := by
  unfold withGenerator setOverride override
  by_cases hi : i < h.overrides.length
  · rw [List.getElem?_eq_getElem hi, Option.getD_some, List.set_getElem_self hi]
  · simp [List.set_eq_of_length_le (Nat.le_of_not_lt hi)]

/-- Of two replacements of one generator the later one counts. -/
theorem withGenerator_withGenerator (g g' : Generator) (hi : i < h.overrides.length) :
    (h.withGenerator i g).withGenerator i g' = h.withGenerator i g' := by
  have hlater : (h.withGenerator i g).withGenerator i g' =
      (h.withGenerator i g).setOverride i { h.override i with generator := g' } := by
    unfold withGenerator
    rw [override_setOverride_self _ hi]
  rw [hlater]
  unfold withGenerator setOverride
  rw [List.set_set]

/-- Replacing a generator keeps the number of overrides. -/
theorem length_overrides_withGenerator (h : Host) (i : OverrideId) (g : Generator) :
    (h.withGenerator i g).overrides.length = h.overrides.length :=
  List.length_set

/-- Calling a slot of an override's table calls it on the override's generator. -/
theorem callSlot_eq (h : Host) (i : OverrideId) (call : SlotCall) :
    h.callSlot i call = (((h.override i).generator.callSlot call).1,
      h.withGenerator i ((h.override i).generator.callSlot call).2) := rfl

/-- Drawing from an override directly draws from its generator. -/
theorem generate_eq (h : Host) (i : OverrideId) (count : Int) :
    h.generate i count = match (h.override i).generator.generate count with
      | .ok (drawn, g) => (.ok drawn, h.withGenerator i g)
      | .error e => (.error e, h) := rfl

end Host
end Vendoring.Entropy
