import Mathlib.Data.List.Dedup
import Vendoring.Proofs.Entropy.Binding

/-!
# Offering a table to a library

A call that binds a process for the first time makes an override and offers its table to the
library it is for. What the libraries answer can be told from the tables they record. When the
library accepts the table the override serves it from then on: seeding through the library seeds
the override.
-/

namespace Vendoring.Entropy

namespace Host

variable {h h' h'' : Host} {i j : OverrideId} {name other : String}

/-! ### What changes generators alone -/

/-- Two hosts differ in the generator of one override at most, and in the seedings that libraries
record. -/
structure Regenerated (i : OverrideId) (h h' : Host) : Prop where
  bound : h'.bound = h.bound
  count : h'.overrides.length = h.overrides.length
  names : h'.libraryNames = h.libraryNames
  own : ∃ g, h'.override i = { h.override i with generator := g }
  others : ∀ j, j ≠ i → h'.override j = h.override j
  libraries : ∀ name, ∃ seedings, h'.library name = { h.library name with seedings }

namespace Regenerated

/-- Every host differs from itself in nothing. -/
theorem refl (i : OverrideId) (h : Host) : Regenerated i h h :=
  ⟨rfl, rfl, rfl, ⟨_, rfl⟩, fun _ _ ↦ rfl, fun _ ↦ ⟨_, rfl⟩⟩

/-- One change of a generator after another. -/
theorem trans (first : Regenerated i h h') (second : Regenerated i h' h'') :
    Regenerated i h h'' where
  bound := second.bound.trans first.bound
  count := second.count.trans first.count
  names := second.names.trans first.names
  own := by
    obtain ⟨g, hfirst⟩ := first.own
    obtain ⟨g', hsecond⟩ := second.own
    exact ⟨g', by rw [hsecond, hfirst]⟩
  others j hj := (second.others j hj).trans (first.others j hj)
  libraries name := by
    obtain ⟨_, hfirst⟩ := first.libraries name
    obtain ⟨seedings, hsecond⟩ := second.libraries name
    exact ⟨seedings, by rw [hsecond, hfirst]⟩

/-- Replacing a generator changes nothing else. -/
theorem withGenerator (h : Host) (i : OverrideId) (g : Generator) :
    Regenerated i h (h.withGenerator i g) where
  bound := rfl
  count := length_overrides_withGenerator h i g
  names := rfl
  own := by
    by_cases hi : i < h.overrides.length
    · exact ⟨g, override_withGenerator_self g hi⟩
    · have hsame : h.withGenerator i g = h := by
        unfold Host.withGenerator setOverride
        rw [List.set_eq_of_length_le (Nat.le_of_not_lt hi)]
      exact ⟨(h.override i).generator, by rw [hsame]⟩
  others _ hj := override_withGenerator_of_ne g hj
  libraries _ := ⟨_, rfl⟩

/-- Recording a seeding changes nothing else. -/
theorem withSeeding (h : Host) (i : OverrideId) (name : String) (v : Int) :
    Regenerated i h (h.withSeeding name v) where
  bound := rfl
  count := rfl
  names := libraryNames_setLibrary h name _
  own := ⟨_, rfl⟩
  others _ _ := rfl
  libraries := library_withSeeding h name v

/-- No override goes to another library. -/
theorem library_override (hr : Regenerated i h h') (j : OverrideId) :
    (h'.override j).library = (h.override j).library := by
  by_cases hj : j = i
  · obtain ⟨_, hown⟩ := hr.own
    rw [hj, hown]
  · rw [hr.others j hj]

/-- No override is installed or ceases to be. -/
theorem installed_override (hr : Regenerated i h h') (j : OverrideId) :
    (h'.override j).installed = (h.override j).installed := by
  by_cases hj : j = i
  · obtain ⟨_, hown⟩ := hr.own
    rw [hj, hown]
  · rw [hr.others j hj]

/-- No library is given a table. -/
theorem tables_library (hr : Regenerated i h h') (name : String) :
    (h'.library name).tables = (h.library name).tables := by
  obtain ⟨_, hlibrary⟩ := hr.libraries name
  rw [hlibrary]

end Regenerated

/-- Reseeding changes one generator at most. -/
theorem regenerated_reseed (h : Host) (i : OverrideId) (v : Int) :
    ∃ j, Regenerated j h (h.reseed i v).2 := by
  unfold reseed
  dsimp only
  by_cases hmissing : .seed ∈ (h.library (h.override i).library).missing
  · rw [if_pos hmissing]
    exact ⟨i, .refl i h⟩
  · rw [if_neg hmissing]
    cases (h.library (h.override i).library).tables.getLast? with
    | none => exact ⟨i, .withSeeding h i _ v⟩
    | some j =>
        dsimp only
        rw [callSlot_eq]
        exact ⟨j, (Regenerated.withSeeding h j _ v).trans (.withGenerator _ j _)⟩

/-! ### Serving a library -/

/-- An override is installed, and its library was given its table last. -/
structure Serves (h : Host) (i : OverrideId) : Prop where
  mem : i < h.overrides.length
  installed : (h.override i).installed = true
  latest : (h.library (h.override i).library).tables.getLast? = some i

/-- An override serves its library whatever generators do. -/
theorem Serves.regenerated (hi : h.Serves i) (hr : Regenerated j h h') : h'.Serves i where
  mem := hr.count ▸ hi.mem
  installed := by rw [hr.installed_override, hi.installed]
  latest := by rw [hr.library_override, hr.tables_library, hi.latest]

/-- Why an override cannot be reseeded with an integer: the integer is too long to be written, or
else the library lacks the function that seeds. -/
def seedFault? (h : Host) (i : OverrideId) (v : Int) : Option Failure :=
  match Text.writtenInt v with
  | .error e => some (.integer e)
  | .ok _ =>
    if .seed ∈ (h.library (h.override i).library).missing then
      some (.override (.missingFunction .seed))
    else none

/-- What a call for an override should give: the override, newly seeded if there is a seed and as
it was if there is none; but an error and no change if there is a seed that it cannot be reseeded
with. -/
def Outcome (h : Host) (i : OverrideId) (unseeded : Generator) (seed : Option Int)
    (given : Except Failure OverrideId) : Prop :=
  match seed with
  | none => given = .ok i ∧ (h.override i).generator = unseeded
  | some v => match h.seedFault? i v with
    | some fault => given = .error fault ∧ (h.override i).generator = unseeded
    | none => given = .ok i ∧ (h.override i).generator.state.toNat = (v % 2 ^ 64).toNat

/-- A call for an override gives no other. -/
theorem Outcome.eq_of_given {unseeded : Generator} {seed : Option Int}
    (ho : h.Outcome i unseeded seed (.ok j)) : j = i := by
  unfold Outcome at ho
  split at ho
  · exact Except.ok.inj ho.1
  · split at ho
    · cases ho.1
    · exact Except.ok.inj ho.1

/-- Changing a generator takes away no reason why an override cannot be reseeded and adds none. -/
theorem Regenerated.seedFault?_eq (hr : Regenerated j h h') (i : OverrideId) (v : Int) :
    h'.seedFault? i v = h.seedFault? i v := by
  obtain ⟨_, hlibrary⟩ := hr.libraries (h.override i).library
  unfold seedFault?
  rw [hr.library_override, hlibrary]

/-- An override that cannot be reseeded is left as it is. -/
theorem reseedWith_of_fault {v : Int} {fault : Failure} (hfault : h.seedFault? i v = some fault) :
    h.reseedWith i (some v) = (.error fault, h) := by
  unfold seedFault? at hfault
  unfold reseedWith
  dsimp only
  cases hwritten : Text.writtenInt v with
  | error e =>
      rw [hwritten] at hfault
      cases hfault
      rfl
  | ok _ =>
      rw [hwritten] at hfault
      dsimp only at hfault ⊢
      obtain ⟨hmissing, ⟨⟩⟩ := Option.ite_none_right_eq_some.mp hfault
      rw [reseed_of_missing v hmissing]
      rfl

/-- An override that can be reseeded is, through a library that has the function. -/
theorem reseedWith_of_noFault {v : Int} (hfault : h.seedFault? i v = none) :
    .seed ∉ (h.library (h.override i).library).missing ∧
    h.reseedWith i (some v) = ((h.reseed i v).1.mapError .override, (h.reseed i v).2) := by
  unfold seedFault? at hfault
  unfold reseedWith
  dsimp only
  cases hwritten : Text.writtenInt v with
  | error e =>
      rw [hwritten] at hfault
      cases hfault
  | ok _ =>
      rw [hwritten] at hfault
      exact ⟨(ite_eq_right_iff.mp hfault).mt nofun, rfl⟩

/-- Reseeding an override that serves its library seeds its generator and changes nothing else. -/
theorem Serves.seeded (hi : h.Serves i) (seed : Option Int) :
    Regenerated i h (Host.seeded seed (.ok i, h)).2 ∧
    (Host.seeded seed (.ok i, h)).2.Outcome i (h.override i).generator seed
      (Host.seeded seed (.ok i, h)).1 := by
  cases seed with
  | none => exact ⟨.refl i h, rfl, rfl⟩
  | some v =>
      unfold Host.seeded
      dsimp only
      cases hfault : h.seedFault? i v with
      | some fault =>
          rw [reseedWith_of_fault hfault]
          refine ⟨.refl i h, ?_⟩
          unfold Outcome
          dsimp only
          rw [hfault]
          exact ⟨rfl, rfl⟩
      | none =>
          obtain ⟨hpresent, hreseed⟩ := reseedWith_of_noFault hfault
          rw [hreseed, reseed_of_last v hpresent hi.latest]
          have hr : Regenerated i h
              ((h.withSeeding (h.override i).library v).withGenerator i (.ofSeed v)) :=
            (Regenerated.withSeeding h i _ v).trans (.withGenerator _ i _)
          refine ⟨hr, ?_⟩
          unfold Outcome
          dsimp only
          rw [hr.seedFault?_eq, hfault, override_withGenerator_self]
          · exact ⟨rfl, toNat_wordOf v⟩
          · exact hi.mem

/-! ### Making and offering an override -/

/-- The host after a new override was made for a library. -/
def created (h : Host) (name : String) : Host := (h.create name default).2

/-- The host after a library was offered the table of a new override and refused it. -/
def offered (h : Host) (name : String) : Host :=
  (h.created name).setLibrary name ((h.library name).offer h.overrides.length).2

/-- The host after a library accepted the table of a new override. -/
def accepted (h : Host) (name : String) : Host :=
  { (h.offered name).setOverride h.overrides.length ⟨name, default, true⟩ with
    bound := some h.overrides.length }

private theorem override_created_new (h : Host) (name : String) :
    (h.created name).override h.overrides.length = ⟨name, default, false⟩ := by
  unfold created create override
  simp

/-- Making an override leaves those that were there. -/
theorem override_created_of_lt (name : String) (hj : j < h.overrides.length) :
    (h.created name).override j = h.override j := by
  unfold created create override
  dsimp only
  rw [List.getElem?_append_left hj]

private theorem bindNew_eq (h : Host) (name : String) :
    h.bindNew name = match (h.created name).install h.overrides.length with
      | (.ok _, h') => (.ok h.overrides.length, { h' with bound := some h.overrides.length })
      | (.error e, h') => (.error e, h') := by
  unfold bindNew created create
  dsimp only
  generalize install _ _ = result
  rcases result with ⟨_ | _, _⟩
  · rfl
  · rfl

/-- A library that cannot be given a table leaves the new override unbound. -/
theorem bindNew_of_missing (hmissing : .setMethod ∈ (h.library name).missing) :
    h.bindNew name = (.error (.missingFunction .setMethod), h.created name) := by
  have hinstall : (h.created name).install h.overrides.length =
      (.error (.missingFunction .setMethod), h.created name) := by
    unfold install
    rw [override_created_new]
    exact if_pos hmissing
  rw [bindNew_eq, hinstall]

/-- A library that refuses the table of the new override leaves it unbound. -/
theorem bindNew_of_rejected (hmissing : .setMethod ∉ (h.library name).missing)
    (hanswer : (h.library name).returns.headD 1 ≠ 1) :
    h.bindNew name = (.error .rejected, h.offered name) := by
  have hinstall : (h.created name).install h.overrides.length =
      (.error .rejected, h.offered name) := by
    unfold install
    rw [override_created_new]
    dsimp only
    exact (if_neg hmissing).trans (if_neg hanswer)
  rw [bindNew_eq, hinstall]

/-- A library that accepts the table of the new override has it bound. -/
theorem bindNew_of_accepted (hmissing : .setMethod ∉ (h.library name).missing)
    (hanswer : (h.library name).returns.headD 1 = 1) :
    h.bindNew name = (.ok h.overrides.length, h.accepted name) := by
  have hinstall : (h.created name).install h.overrides.length =
      (.ok (), (h.offered name).setOverride h.overrides.length ⟨name, default, true⟩) := by
    unfold install
    rw [override_created_new]
    dsimp only
    exact (if_neg hmissing).trans (if_pos hanswer)
  rw [bindNew_eq, hinstall]
  rfl

/-- Offering a table keeps the names of the libraries. -/
theorem libraryNames_offered (h : Host) (name : String) :
    (h.offered name).libraryNames = h.libraryNames :=
  libraryNames_setLibrary (h.created name) name _

/-- The library that is offered a table records it. -/
theorem library_offered_self (hname : name ∈ h.libraryNames) :
    (h.offered name).library name = ((h.library name).offer h.overrides.length).2 :=
  library_setLibrary_self (h := h.created name) _ hname

/-- Offering a table to one library leaves the others. -/
theorem library_offered_of_ne (hother : other ≠ name) :
    (h.offered name).library other = h.library other :=
  library_setLibrary_of_ne (h := h.created name) _ hother

/-- The new override is installed in the library that accepted it. -/
theorem override_accepted_new (h : Host) (name : String) :
    (h.accepted name).override h.overrides.length = ⟨name, default, true⟩ := by
  apply override_setOverride_self (h := h.offered name)
  show h.overrides.length < (h.overrides ++ [_]).length
  rw [List.length_append, List.length_singleton]
  exact Nat.lt_succ_self _

/-- Accepting a new override leaves those that were there. -/
theorem override_accepted_of_lt (name : String) (hj : j < h.overrides.length) :
    (h.accepted name).override j = h.override j :=
  (override_setOverride_of_ne (h := h.offered name) _ (Nat.ne_of_lt hj)).trans
    (override_created_of_lt name hj)

/-- The new override serves the library that accepted it. -/
theorem serves_accepted (hname : name ∈ h.libraryNames) :
    (h.accepted name).Serves h.overrides.length where
  mem := by
    show h.overrides.length < (List.set (h.overrides ++ [_]) _ _).length
    rw [List.length_set, List.length_append, List.length_singleton]
    exact Nat.lt_succ_self _
  installed := by rw [override_accepted_new]
  latest := by
    rw [override_accepted_new]
    show ((h.offered name).library name).tables.getLast? = _
    rw [library_offered_self hname]
    exact List.getLast?_concat

end Host

/-! ### What libraries answer -/

/-- The answers that a library gave to the tables it was offered between two states. -/
def HostLibrary.answers (before after : HostLibrary) : List Int :=
  (List.range (after.tables.length - before.tables.length)).map fun k ↦ before.returns.getD k 1

namespace Host

variable {h h' : Host} {name : String}

/-- The answers that all libraries gave to the tables they were offered between two states. -/
def answers (before after : Host) : List Int :=
  before.libraryNames.dedup.flatMap fun name ↦
    (before.library name).answers (after.library name)

/-- Libraries that were given no table gave no answer. -/
theorem answers_eq_nil (htables : ∀ name, (h'.library name).tables = (h.library name).tables) :
    h.answers h' = [] := by
  apply List.flatMap_eq_nil_iff.mpr
  intro name _
  unfold HostLibrary.answers
  rw [htables, Nat.sub_self]
  rfl

/-- When one library was given one table, it gave the one answer. -/
theorem answers_eq_singleton (hname : name ∈ h.libraryNames)
    (hself : (h'.library name).tables.length = (h.library name).tables.length + 1)
    (hothers : ∀ other, other ≠ name → (h'.library other).tables = (h.library other).tables) :
    h.answers h' = [(h.library name).returns.headD 1] := by
  have hone : (h.library name).answers (h'.library name) =
      [(h.library name).returns.headD 1] := by
    unfold HostLibrary.answers
    rw [hself, Nat.add_sub_cancel_left, List.headD_eq_head?_getD, List.head?_eq_getElem?]
    rfl
  have hnone : ∀ other, other ≠ name → (h.library other).answers (h'.library other) = [] := by
    intro other hother
    unfold HostLibrary.answers
    rw [hothers other hother, Nat.sub_self]
    rfl
  -- The name stands in the list of names once, so no other part of the list gives an answer.
  obtain ⟨before, after, hsplit⟩ := List.append_of_mem (List.mem_dedup.mpr hname)
  have hnodup := List.nodup_dedup h.libraryNames
  rw [hsplit] at hnodup
  have hbefore : ∀ other ∈ before, other ≠ name := by
    rintro other hother rfl
    exact List.disjoint_of_nodup_append hnodup hother List.mem_cons_self
  have hafter : ∀ other ∈ after, other ≠ name := by
    rintro other hother rfl
    exact (List.nodup_cons.mp (List.Nodup.of_append_right hnodup)).1 hother
  unfold answers
  rw [hsplit, List.flatMap_append, List.flatMap_cons, hone,
    List.flatMap_eq_nil_iff.mpr fun other hother ↦ hnone other (hbefore other hother),
    List.flatMap_eq_nil_iff.mpr fun other hother ↦ hnone other (hafter other hother)]
  rfl

/-- The library that was offered a table gave the one answer. -/
theorem answers_of_offered (hname : name ∈ h.libraryNames)
    (htables : ∀ other, (h'.library other).tables = ((h.offered name).library other).tables) :
    h.answers h' = [(h.library name).returns.headD 1] := by
  apply answers_eq_singleton hname
  · rw [htables, library_offered_self hname]
    unfold HostLibrary.offer
    rw [List.length_append, List.length_singleton]
  · intro other hother
    rw [htables, library_offered_of_ne hother]

end Host
end Vendoring.Entropy
