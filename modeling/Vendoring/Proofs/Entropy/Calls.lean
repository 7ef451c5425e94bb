import Vendoring.Proofs.Entropy.Offers

/-!
# Calls in any order

The program calls for an override to be bound, and the libraries call the slots of the tables they
were given. Whatever the order of the calls, one table is accepted at most and none is offered after
it; calls that give an override give the same one; and a call that fails after its table was
accepted leaves the override bound.
-/

namespace Vendoring.Entropy

open Host

/-- A call in a process: for an override to be bound, with the surroundings at that time, or of a
slot of a table that a library has recorded. -/
inductive HostCall where
  | bind (around : Surroundings) (settings : Settings) (library : Option String)
    (seed : Option Int)
  | slot (library : String) (place : Nat) (call : SlotCall)

/-- What a call did: the host before and after it and, of a call that binds, what it gave. -/
structure HostEvent where
  before : Host
  call : HostCall
  given : Option (Except Failure OverrideId)
  after : Host

namespace HostCall

/-- Perform a call. A slot of a table that was not recorded cannot be called. -/
def perform : HostCall → Session → Option (Except Failure OverrideId) × Session
  | .bind around settings library seed, s =>
    let (given, s) := Action.perform (makeDeterministic settings library seed) around s
    (some given, s)
  | .slot library place call, s =>
    match (s.host.library library).tables[place]? with
    | none => (none, s)
    | some i => (none, { s with host := (s.host.callSlot i call).2 })

/-- What a call does in a session. -/
def event (call : HostCall) (s : Session) : HostEvent :=
  ⟨s.host, call, (call.perform s).1, (call.perform s).2.host⟩

/-- The library that a call for an override is for, if it is found. -/
def target : HostCall → Option (Except OverrideError String)
  | .bind around settings library _ => some (targetLibrary around settings library)
  | .slot .. => none

end HostCall

/-- What calls one after the other do. -/
def hostEvents : List HostCall → Session → List HostEvent
  | [], _ => []
  | call :: rest, s => call.event s :: hostEvents rest (call.perform s).2

/-! ### What a call should do -/

/-- Why a library that was to be given a table does not accept it. -/
def Host.refusal (h : Host) : Except OverrideError String → OverrideError
  | .error e => e
  | .ok name =>
    if .setMethod ∈ (h.library name).missing then .missingFunction .setMethod else .rejected

/-- What a call for an override should do while none is bound: a new override is bound exactly when
the library accepts its table, and nothing is bound otherwise. -/
structure BindsNew (before : Host) (target : Except OverrideError String) (seed : Option Int)
    (given : Except Failure OverrideId) (after : Host) : Prop where
  accepted_iff : 1 ∈ before.answers after ↔ ∃ name, target = .ok name ∧
    .setMethod ∉ (before.library name).missing ∧ (before.library name).returns.headD 1 = 1
  answers : (before.answers after).length ≤ 1
  bound_iff : (∃ i, after.bound = some i) ↔ 1 ∈ before.answers after
  refused : after.bound = none → given = .error (.override (before.refusal target))
  /-- The new override stays bound also when it cannot be seeded. -/
  bound : ∀ i, after.bound = some i → i = before.overrides.length ∧ after.Serves i ∧
    target = .ok (after.override i).library ∧ after.Outcome i default seed given
  others : ∀ j < before.overrides.length, after.override j = before.override j
  names : after.libraryNames = before.libraryNames

/-- What a call for an override should do while one is bound: a call for another library is refused
and changes nothing, any other call changes no more than the generator of the override. -/
structure BindsAgain (before : Host) (i : OverrideId) (library : Option String)
    (seed : Option Int) (given : Except Failure OverrideId) (after : Host) : Prop where
  elsewhere : ∀ name, library = some name → name ≠ (before.override i).library →
    given = .error (.override .boundElsewhere) ∧ after = before
  again : (∀ name, library = some name → name = (before.override i).library) →
    Regenerated i before after ∧ after.Outcome i (before.override i).generator seed given

/-- What a call should do. -/
def HostEvent.Correct (e : HostEvent) : Prop :=
  match e.call with
  | .bind around settings library seed => ∃ given, e.given = some given ∧
    match e.before.bound with
    | none => BindsNew e.before (targetLibrary around settings library) seed given e.after
    | some i => BindsAgain e.before i library seed given e.after
  | .slot library place _ => e.given = none ∧ e.after.libraries = e.before.libraries ∧
    match (e.before.library library).tables[place]? with
    | none => e.after = e.before
    | some i => Regenerated i e.before e.after

/-- What calls one after the other should do. -/
structure BindsOnce (events : List HostEvent) : Prop where
  /-- An override that is given is bound, and its library has accepted it. -/
  given : ∀ e ∈ events, ∀ i, e.given = some (.ok i) →
    e.after.bound = some i ∧ (e.after.override i).installed = true
  /-- An override once bound is the only one that is given; it stays installed in its library. -/
  kept : events.Pairwise fun e later ↦ ∀ i, e.after.bound = some i →
    later.after.bound = some i ∧ (later.after.override i).installed = true ∧
    (later.after.override i).library = (e.after.override i).library ∧
    ∀ j, later.given = some (.ok j) → j = i
  /-- No library is offered a table after one was accepted. -/
  accepted_once : (events.flatMap fun e ↦ e.before.answers e.after).Pairwise
    fun answer _ ↦ answer ≠ 1
  each : ∀ e ∈ events, e.Correct

/-! ### What a call does -/

variable {h h' : Host} {i j : OverrideId} {name : String} {s : Session}
  {calls : List HostCall} {call : HostCall} {e : HostEvent}

private theorem bindsNew_of_unaccepted {target : Except OverrideError String}
    (seed : Option Int) (hbound : h'.bound = none)
    (hanswers : h.answers h' = [] ∨ ∃ answer, answer ≠ 1 ∧ h.answers h' = [answer])
    (htarget : ¬ ∃ name, target = .ok name ∧ .setMethod ∉ (h.library name).missing ∧
      (h.library name).returns.headD 1 = 1)
    (hothers : ∀ j < h.overrides.length, h'.override j = h.override j)
    (hnames : h'.libraryNames = h.libraryNames) :
    BindsNew h target seed (.error (.override (h.refusal target))) h' := by
  have hnot : 1 ∉ h.answers h' ∧ (h.answers h').length ≤ 1 := by
    obtain hnone | ⟨answer, hanswer, hsome⟩ := hanswers
    · rw [hnone]
      exact ⟨List.not_mem_nil, Nat.zero_le 1⟩
    · rw [hsome, List.mem_singleton]
      exact ⟨Ne.symm hanswer, Nat.le_refl 1⟩
  refine ⟨iff_of_false hnot.1 htarget, hnot.2, iff_of_false ?_ hnot.1, fun _ ↦ rfl, ?_, hothers,
    hnames⟩
  · rw [hbound]
    rintro ⟨i, ⟨⟩⟩
  · rw [hbound]
    rintro i ⟨⟩

private theorem bindsNew_of_accepted (seed : Option Int) (hname : name ∈ h.libraryNames)
    (hmissing : .setMethod ∉ (h.library name).missing)
    (haccepts : (h.library name).returns.headD 1 = 1) :
    BindsNew h (.ok name) seed
      (Host.seeded seed (.ok h.overrides.length, h.accepted name)).1
      (Host.seeded seed (.ok h.overrides.length, h.accepted name)).2 := by
  have hserves := serves_accepted hname
  have hnew := override_accepted_new h name
  obtain ⟨hr, houtcome⟩ := hserves.seeded seed
  generalize Host.seeded seed (.ok h.overrides.length, h.accepted name) = result at hr houtcome ⊢
  have hanswers : h.answers result.2 = [1] := by
    rw [answers_of_offered hname hr.tables_library, haccepts]
  have hbound : result.2.bound = some h.overrides.length := hr.bound
  rw [hnew] at houtcome
  constructor
  case accepted_iff =>
    rw [hanswers]
    exact iff_of_true (List.mem_singleton_self 1) ⟨name, rfl, hmissing, haccepts⟩
  case answers =>
    rw [hanswers]
    exact Nat.le_refl 1
  case bound_iff =>
    rw [hanswers]
    exact iff_of_true ⟨_, hbound⟩ (List.mem_singleton_self 1)
  case refused =>
    rw [hbound]
    rintro ⟨⟩
  case bound =>
    rw [hbound]
    rintro i ⟨⟩
    refine ⟨rfl, hserves.regenerated hr, ?_, houtcome⟩
    rw [hr.library_override, hnew]
  case others =>
    intro j hj
    rw [hr.others j (Nat.ne_of_lt hj), override_accepted_of_lt name hj]
  case names =>
    rw [hr.names]
    exact libraryNames_offered h name

/-- A call for an override while none is bound does what it should. -/
theorem bindsNew_make {target : Except OverrideError String} (library : Option String)
    (seed : Option Int) (hbound : h.bound = none)
    (hknown : ∀ name, target = .ok name → name ∈ h.libraryNames) :
    BindsNew h target seed (h.make target library seed).1 (h.make target library seed).2 := by
  unfold Host.make bindFor
  rw [hbound]
  dsimp only
  cases target with
  | error e =>
      have hanswers : h.answers h = [] := answers_eq_nil fun _ ↦ rfl
      apply bindsNew_of_unaccepted seed hbound (.inl hanswers)
      · rintro ⟨_, ⟨⟩, _⟩
      · exact fun _ _ ↦ rfl
      · rfl
  | ok name =>
      have hname : name ∈ h.libraryNames := hknown name rfl
      dsimp only
      by_cases hmissing : .setMethod ∈ (h.library name).missing
      · have hrefusal : h.refusal (.ok name) = .missingFunction .setMethod := if_pos hmissing
        have hunbound : (h.created name).bound = none := hbound
        have hanswers : h.answers (h.created name) = [] := answers_eq_nil fun _ ↦ rfl
        rw [bindNew_of_missing hmissing, ← hrefusal]
        apply bindsNew_of_unaccepted seed hunbound (.inl hanswers)
        · rintro ⟨_, ⟨⟩, hpresent, _⟩
          exact hpresent hmissing
        · exact fun j hj ↦ override_created_of_lt name hj
        · rfl
      · by_cases haccepts : (h.library name).returns.headD 1 = 1
        · rw [bindNew_of_accepted hmissing haccepts]
          exact bindsNew_of_accepted seed hname hmissing haccepts
        · have hrefusal : h.refusal (.ok name) = .rejected := if_neg hmissing
          have hunbound : (h.offered name).bound = none := hbound
          have hanswers : h.answers (h.offered name) = [(h.library name).returns.headD 1] :=
            answers_of_offered hname fun _ ↦ rfl
          rw [bindNew_of_rejected hmissing haccepts, ← hrefusal]
          apply bindsNew_of_unaccepted seed hunbound (.inr ⟨_, haccepts, hanswers⟩)
          · rintro ⟨_, ⟨⟩, _, hreturns⟩
            exact haccepts hreturns
          · exact fun j hj ↦ override_created_of_lt name hj
          · exact libraryNames_offered h name

/-- A call for an override while one is bound does what it should. -/
theorem bindsAgain_make (target : Except OverrideError String) (library : Option String)
    (seed : Option Int) (hbound : h.bound = some i) (hserves : h.Serves i) :
    BindsAgain h i library seed (h.make target library seed).1 (h.make target library seed).2 := by
  unfold Host.make bindFor
  rw [hbound]
  dsimp only
  constructor
  · rintro name rfl hother
    unfold bindAgain
    dsimp only
    rw [if_neg hother]
    exact ⟨rfl, rfl⟩
  · intro hlibrary
    have hsame : h.bindAgain i library = .ok i := by
      cases library with
      | none => rfl
      | some name => exact if_pos (hlibrary name rfl)
    rw [hsame]
    exact hserves.seeded seed

/-- Every call does what it should. -/
theorem HostCall.correct_event (call : HostCall)
    (hsound : ∀ i, s.host.bound = some i → s.host.Serves i)
    (hknown : ∀ name, call.target = some (.ok name) → name ∈ s.host.libraryNames) :
    (call.event s).Correct := by
  cases call with
  | bind around settings library seed =>
      obtain ⟨console, hmake⟩ := gives_makeDeterministic settings library seed around s
      have hevent : HostCall.event (.bind around settings library seed) s =
          ⟨s.host, .bind around settings library seed,
            some (s.host.make (targetLibrary around settings library) library seed).1,
            (s.host.make (targetLibrary around settings library) library seed).2⟩ := by
        unfold HostCall.event HostCall.perform
        dsimp only
        rw [hmake]
      rw [hevent]
      refine ⟨_, rfl, ?_⟩
      dsimp only
      cases hbound : s.host.bound with
      | none =>
          apply bindsNew_make library seed hbound
          intro name htarget
          apply hknown name
          show some (targetLibrary around settings library) = _
          rw [htarget]
      | some i => exact bindsAgain_make _ library seed hbound (hsound i hbound)
  | slot library place slotCall =>
      unfold HostEvent.Correct HostCall.event HostCall.perform
      dsimp only
      cases (s.host.library library).tables[place]? with
      | none => exact ⟨rfl, rfl, rfl⟩
      | some i =>
          refine ⟨rfl, rfl, ?_⟩
          dsimp only
          rw [callSlot_eq]
          exact .withGenerator _ i _

namespace HostEvent

/-- A call that does what it should changes one generator at most and gives the override that is
bound if it gives one, or it is a call for an override while none is bound. -/
theorem Correct.regenerated_or_bindsNew (he : e.Correct) :
    ((∃ j, Regenerated j e.before e.after) ∧
      ∀ i, e.given = some (.ok i) → e.before.bound = some i) ∨
    (e.before.bound = none ∧ ∃ target seed given,
      e.given = some given ∧ BindsNew e.before target seed given e.after) := by
  obtain ⟨before, call, given, after⟩ := e
  cases call with
  | bind around settings library seed =>
      obtain ⟨given, rfl, hbinds⟩ := he
      dsimp only at hbinds ⊢
      cases hbound : before.bound with
      | none =>
          rw [hbound] at hbinds
          exact .inr ⟨rfl, _, _, _, rfl, hbinds⟩
      | some i =>
          rw [hbound] at hbinds
          left
          by_cases hlibrary : ∀ name, library = some name → name = (before.override i).library
          · obtain ⟨hr, houtcome⟩ := hbinds.again hlibrary
            refine ⟨⟨i, hr⟩, ?_⟩
            rintro j ⟨⟩
            rw [houtcome.eq_of_given]
          · push Not at hlibrary
            obtain ⟨name, hname, hother⟩ := hlibrary
            obtain ⟨rfl, rfl⟩ := hbinds.elsewhere name hname hother
            refine ⟨⟨i, .refl i after⟩, ?_⟩
            rintro j ⟨⟩
  | slot library place slotCall =>
      obtain ⟨rfl, _, htable⟩ := he
      refine .inl ⟨?_, fun i hgiven ↦ by cases hgiven⟩
      dsimp only at htable ⊢
      split at htable
      · rw [htable]
        exact ⟨0, .refl 0 before⟩
      · exact ⟨_, htable⟩

/-- No library comes or goes. -/
theorem Correct.names (he : e.Correct) : e.after.libraryNames = e.before.libraryNames := by
  obtain ⟨⟨j, hr⟩, _⟩ | ⟨_, _, _, _, _, hnew⟩ := he.regenerated_or_bindsNew
  · exact hr.names
  · exact hnew.names

/-- While an override is bound, a call changes one generator at most. -/
theorem Correct.regenerated (he : e.Correct) (hbound : e.before.bound = some i) :
    ∃ j, Regenerated j e.before e.after := by
  obtain ⟨hr, _⟩ | ⟨hnone, _⟩ := he.regenerated_or_bindsNew
  · exact hr
  · cases hbound.symm.trans hnone

/-- While an override is bound, no other is given. -/
theorem Correct.eq_of_given (he : e.Correct) (hbound : e.before.bound = some i)
    (hgiven : e.given = some (.ok j)) : j = i := by
  obtain ⟨_, hsame⟩ | ⟨hnone, _⟩ := he.regenerated_or_bindsNew
  · exact Option.some.inj ((hsame j hgiven).symm.trans hbound)
  · cases hbound.symm.trans hnone

/-- An override that is bound serves its library, also after a call. -/
theorem Correct.serves (he : e.Correct)
    (hsound : ∀ i, e.before.bound = some i → e.before.Serves i) :
    ∀ i, e.after.bound = some i → e.after.Serves i := by
  intro i hafter
  obtain ⟨⟨j, hr⟩, _⟩ | ⟨_, _, _, _, _, hnew⟩ := he.regenerated_or_bindsNew
  · exact (hsound i (hr.bound.symm.trans hafter)).regenerated hr
  · exact (hnew.bound i hafter).2.1

/-- An override that is given is bound. -/
theorem Correct.bound_of_given (he : e.Correct) (hgiven : e.given = some (.ok i)) :
    e.after.bound = some i := by
  obtain ⟨⟨j, hr⟩, hsame⟩ | ⟨_, _, _, given, hresult, hnew⟩ := he.regenerated_or_bindsNew
  · rw [hr.bound, hsame i hgiven]
  · obtain rfl : given = .ok i := Option.some.inj (hresult.symm.trans hgiven)
    cases hafter : e.after.bound with
    | none => cases hnew.refused hafter
    | some j => rw [(hnew.bound j hafter).2.2.2.eq_of_given]

/-- A call has one table offered at most, and an override bound when it is accepted. -/
theorem Correct.answers (he : e.Correct) : (e.before.answers e.after).length ≤ 1 ∧
    (1 ∈ e.before.answers e.after → ∃ i, e.after.bound = some i) := by
  obtain ⟨⟨j, hr⟩, _⟩ | ⟨_, _, _, _, _, hnew⟩ := he.regenerated_or_bindsNew
  · rw [answers_eq_nil hr.tables_library]
    exact ⟨Nat.zero_le 1, fun hone ↦ by cases hone⟩
  · exact ⟨hnew.answers, hnew.bound_iff.mpr⟩

end HostEvent

/-! ### Calls one after the other -/

/-- While an override is bound, calls keep it bound in its library, give no other override, and
have no table offered. -/
theorem hostEvents_of_bound (hbound : s.host.bound = some i) (hserves : s.host.Serves i)
    (hknown : ∀ call ∈ calls, ∀ name, call.target = some (.ok name) →
      name ∈ s.host.libraryNames) :
    ∀ e ∈ hostEvents calls s, (e.after.bound = some i ∧ (e.after.override i).installed = true ∧
      (e.after.override i).library = (s.host.override i).library ∧
      ∀ j, e.given = some (.ok j) → j = i) ∧ e.before.answers e.after = [] := by
  induction calls generalizing s with
  | nil => exact fun _ he ↦ absurd he List.not_mem_nil
  | cons call rest ih =>
      have hsound : ∀ j, s.host.bound = some j → s.host.Serves j := by
        intro j hj
        obtain rfl : i = j := Option.some.inj (hbound.symm.trans hj)
        exact hserves
      have hcall := call.correct_event hsound (hknown call List.mem_cons_self)
      obtain ⟨j, hr⟩ := hcall.regenerated hbound
      have hserves' := hserves.regenerated hr
      have hbound' := hr.bound.trans hbound
      intro e he
      obtain rfl | hrest := List.mem_cons.mp he
      · exact ⟨⟨hbound', hserves'.installed, hr.library_override i,
          fun _ ↦ hcall.eq_of_given hbound⟩, answers_eq_nil hr.tables_library⟩
      · have hknown' : ∀ call' ∈ rest, ∀ name, call'.target = some (.ok name) →
            name ∈ (call.event s).after.libraryNames := by
          intro later hlater
          rw [hr.names]
          exact hknown later (List.mem_cons_of_mem _ hlater)
        have hlater := ih hbound' hserves' hknown' e hrest
        rwa [show ((call.perform s).2.host.override i).library = (s.host.override i).library from
          hr.library_override i] at hlater

/-- Calls do what they should from every session in which a bound override serves its library. -/
theorem bindsOnce_hostEvents (hsound : ∀ i, s.host.bound = some i → s.host.Serves i)
    (hknown : ∀ call ∈ calls, ∀ name, call.target = some (.ok name) →
      name ∈ s.host.libraryNames) : BindsOnce (hostEvents calls s) := by
  induction calls generalizing s with
  | nil =>
      exact ⟨fun _ he ↦ absurd he List.not_mem_nil, .nil, .nil,
        fun _ he ↦ absurd he List.not_mem_nil⟩
  | cons call rest ih =>
      have hcall := call.correct_event hsound (hknown call List.mem_cons_self)
      have hserves := hcall.serves hsound
      have hknown' : ∀ call' ∈ rest, ∀ name, call'.target = some (.ok name) →
          name ∈ (call.event s).after.libraryNames := by
        intro later hlater
        rw [hcall.names]
        exact hknown later (List.mem_cons_of_mem _ hlater)
      have hrest := ih hserves hknown'
      have hkept : ∀ i, (call.event s).after.bound = some i → _ :=
        fun i hbound ↦ hostEvents_of_bound hbound (hserves i hbound) hknown'
      constructor
      case given =>
        intro e he i hgiven
        obtain rfl | he := List.mem_cons.mp he
        · have hbound := hcall.bound_of_given hgiven
          exact ⟨hbound, (hserves i hbound).installed⟩
        · exact hrest.given e he i hgiven
      case kept =>
        refine List.pairwise_cons.mpr ⟨?_, hrest.kept⟩
        intro later hlater i hbound
        exact (hkept i hbound later hlater).1
      case accepted_once =>
        obtain ⟨hlength, haccepted⟩ := hcall.answers
        refine List.pairwise_append.mpr ⟨?_, hrest.accepted_once, ?_⟩
        · show List.Pairwise _ ((call.event s).before.answers (call.event s).after)
          apply List.pairwise_iff_getElem.mpr
          intro k l _ _ _
          omega
        · rintro answer hanswer later hlater rfl
          obtain ⟨i, hbound⟩ := haccepted hanswer
          obtain ⟨e, he, hlater⟩ := List.mem_flatMap.mp hlater
          rw [(hkept i hbound e he).2] at hlater
          cases hlater
      case each =>
        intro e he
        obtain rfl | he := List.mem_cons.mp he
        · exact hcall
        · exact hrest.each e he

/-- From a process in which nothing is bound, whatever the order of the calls, one table is accepted
at most and none is offered after it, all calls that give an override give the same one, and each
call does what it should: one that asks for an override while none is bound has one bound exactly
when the library accepts its table, even if it then fails for want of a function to seed with or
because the seed is too long to be written; one that asks for it in another library later is refused
without effect; any other reseeds the bound override or leaves it. -/
theorem calls_bind_once (s : Session) (calls : List HostCall) (hstart : s.host.bound = none)
    (hknown : ∀ call ∈ calls, ∀ name, call.target = some (.ok name) →
      name ∈ s.host.libraryNames) : BindsOnce (hostEvents calls s) := by
  apply bindsOnce_hostEvents _ hknown
  intro i hbound
  cases hstart.symm.trans hbound

/-- Surroundings in which no library is found. -/
def bareSurroundings : Surroundings where
  tools := {
    listSymbols := fun _ _ ↦ .timedOut
    build := fun _ _ files ↦ (.timedOut, files.tree) }
  clock := fun _ ↦ .zero
  now := "2025-01-01T00:00:00+00:00"
  processors := none
  project := Files.Path.here
  located := none
  loadable := []

/-- Settings that name no library. -/
def bareSettings : Settings :=
  ⟨"clang", "cmake", 1, none, "nm", "mark", none, [], "include", "vendor.toml", none, false⟩

/-- A session on a host with two libraries: the first refuses the first table it is offered, the
second cannot seed. -/
def sampleSession : Session where
  files := ⟨.empty, []⟩
  environment := ⟨[]⟩
  adopted := true
  host := .ofLibraries [("first", .fresh [0] []), ("second", .fresh [] [.seed])]
  readings := 0
  builds := 0
  calls := []
  console := []
  output := ""

/-- Calls that are refused, half done, refused again and done. -/
def sampleCalls : List HostCall :=
  [.bind bareSurroundings bareSettings none none,
    .bind bareSurroundings bareSettings (some "first") none,
    .slot "first" 0 (.bytes [0, 0] 2),
    .bind bareSurroundings bareSettings (some "second") (some 7),
    .bind bareSurroundings bareSettings (some "first") (some 7),
    .bind bareSurroundings bareSettings none (some (10 ^ 4300)),
    .bind bareSurroundings bareSettings none none]

/-- Of the tables offered the second is accepted, and its override is the one that is given. -/
theorem sampleCalls_bind_once :
    BindsOnce (hostEvents sampleCalls sampleSession) ∧
    (hostEvents sampleCalls sampleSession).map (·.given) =
      [some (.error (.override .libraryNotFound)), some (.error (.override .rejected)), none,
        some (.error (.override (.missingFunction .seed))),
        some (.error (.override .boundElsewhere)), some (.error (.integer .unwritable)),
        some (.ok 1)] ∧
    (hostEvents sampleCalls sampleSession).flatMap (fun e ↦ e.before.answers e.after) =
      [0, 1] := by
  have hknown : ∀ call ∈ sampleCalls, ∀ name, call.target = some (.ok name) →
      name ∈ sampleSession.host.libraryNames := by
    have hall : sampleCalls.all (fun call ↦ (call.target.bind Except.toOption).all
        (· ∈ sampleSession.host.libraryNames)) = true := by
      decide +kernel
    intro call hcall name htarget
    have hname := List.all_eq_true.mp hall call hcall
    rw [htarget] at hname
    exact of_decide_eq_true hname
  exact ⟨calls_bind_once sampleSession sampleCalls rfl hknown, by decide +kernel,
    by decide +kernel⟩

end Vendoring.Entropy
