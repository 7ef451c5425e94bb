import Vendoring.Proofs.Entropy.Offers
import Vendoring.Proofs.Entropy.Slots

/-!
# Installing an override

An override may be installed, reseeded and used in any order. It is installed once its library has
answered 1, and then for good; until then every attempt hands the library its table anew, and an
attempt that fails may be repeated. A library that was ever handed the table, whatever it answered,
passes seeds on to it.
-/

namespace Vendoring.Entropy

/-- A call on an override: to install it, to reseed it through its library, or to use it. -/
inductive OverrideCall where
  | install
  | reseed (value : Int)
  | use (use : Use)
  deriving DecidableEq, Repr

/-- What a call on an override gives. -/
inductive OverrideAnswer where
  | done (result : Except OverrideError Unit)
  | used (answer : UseAnswer)

namespace Host

/-- Perform a call on the override at a place. -/
def call (h : Host) (i : OverrideId) : OverrideCall → OverrideAnswer × Host
  | .install => (.done (h.install i).1, (h.install i).2)
  | .reseed value => (.done (h.reseed i value).1, (h.reseed i value).2)
  | .use use => (.used (h.use i use).1, (h.use i use).2)

/-- The host after calls on the override at a place, one after the other. -/
def callAll (h : Host) (i : OverrideId) : List OverrideCall → Host
  | [] => h
  | call :: rest => (h.call i call).2.callAll i rest

end Host

/-- What a call on an override did. -/
structure OverrideEvent where
  before : Host
  call : OverrideCall
  answer : OverrideAnswer
  after : Host

/-- What calls on the override at a place do, one after the other. -/
def overrideEvents (i : OverrideId) : List OverrideCall → Host → List OverrideEvent
  | [], _ => []
  | call :: rest, h =>
    ⟨h, call, (h.call i call).1, (h.call i call).2⟩ :: overrideEvents i rest (h.call i call).2

/-- What libraries answered during a call when they were handed a table. -/
def OverrideEvent.codes (e : OverrideEvent) : List Int := e.before.answers e.after

/-- A call installs the override: it asks for that, and the library answers 1. -/
def OverrideEvent.Accepted (e : OverrideEvent) : Prop := e.call = .install ∧ e.codes = [1]

/-! ### What a call should do -/

section

variable (i : OverrideId) (before : Host) (result : Except OverrideError Unit) (after : Host)

/-- What a call to install should do. It hands the library the table once, unless the override is
installed already or the library lacks the function, in which case it does nothing. The answer 1
makes the override installed; after a failure the override is as it was. -/
structure Installs : Prop where
  installed : (before.override i).installed = true →
    result = .error .alreadyInstalled ∧ after = before
  missing : (before.override i).installed = false →
    .setMethod ∈ (before.library (before.override i).library).missing →
    result = .error (.missingFunction .setMethod) ∧ after = before
  handed : (before.override i).installed = false →
    .setMethod ∉ (before.library (before.override i).library).missing →
    (after.library (before.override i).library).tables =
      (before.library (before.override i).library).tables ++ [i] ∧
    ∃ code, before.answers after = [code] ∧
      result = if code = 1 then .ok () else .error .rejected
  accepted : result = .ok () → after.override i = { before.override i with installed := true }
  refused : result ≠ .ok () → after.override i = before.override i

/-- What a call to reseed should do. The library is handed the eight bytes of the value, the least
significant first; they seed the override if its table is among those that the library was ever
handed. No table is handed to the library. -/
structure Reseeds (value : Int) : Prop where
  codes : before.answers after = []
  missing : .seed ∈ (before.library (before.override i).library).missing →
    result = .error (.missingFunction .seed) ∧ after = before
  handed : .seed ∉ (before.library (before.override i).library).missing →
    result = .ok () ∧ ∃ bytes, bytes.length = 8 ∧
      Nat.ofDigits 256 (bytes.map UInt8.toNat) = (value % 2 ^ 64).toNat ∧
      (after.library (before.override i).library).seedings =
        (before.library (before.override i).library).seedings ++ [(bytes, 8)]
  seeded : .seed ∉ (before.library (before.override i).library).missing →
    i ∈ (before.library (before.override i).library).tables →
    (after.override i).generator.state.toNat = (value % 2 ^ 64).toNat
  unseeded : i ∉ (before.library (before.override i).library).tables →
    (after.override i).generator = (before.override i).generator
  installed : (after.override i).installed = (before.override i).installed

end

section

variable {i : OverrideId} {before : Host} {result : Except OverrideError Unit} {after : Host}

/-- A call to install that succeeds had the answer 1. -/
theorem Installs.codes_of_ok (h : Installs i before result after) (hok : result = .ok ()) :
    before.answers after = [1] := by
  by_cases hinstalled : (before.override i).installed = true
  · obtain ⟨herror, _⟩ := h.installed hinstalled
    simp [hok] at herror
  have hnew := Bool.eq_false_iff.mpr hinstalled
  by_cases hmissing : .setMethod ∈ (before.library (before.override i).library).missing
  · obtain ⟨herror, _⟩ := h.missing hnew hmissing
    simp [hok] at herror
  obtain ⟨_, code, hcodes, hresult⟩ := h.handed hnew hmissing
  by_cases hcode : code = 1
  · rw [hcodes, hcode]
  · rw [hok, if_neg hcode] at hresult
    cases hresult

/-- A call to install that had the answer 1 succeeds. -/
theorem Installs.ok_of_codes (h : Installs i before result after)
    (hcodes : before.answers after = [1]) : result = .ok () := by
  have hsome : before.answers before ≠ [1] := by
    rw [Host.answers_eq_nil fun _ ↦ rfl]
    simp
  by_cases hinstalled : (before.override i).installed = true
  · obtain ⟨_, rfl⟩ := h.installed hinstalled
    exact absurd hcodes hsome
  have hnew := Bool.eq_false_iff.mpr hinstalled
  by_cases hmissing : .setMethod ∈ (before.library (before.override i).library).missing
  · obtain ⟨_, rfl⟩ := h.missing hnew hmissing
    exact absurd hcodes hsome
  obtain ⟨_, code, hone, hresult⟩ := h.handed hnew hmissing
  rw [hcodes] at hone
  rw [hresult, ← List.singleton_injective hone]
  rfl

end

/-- What a call on the override at a place should do; a use hands no table to a library. -/
def OverrideEvent.Correct (i : OverrideId) (e : OverrideEvent) : Prop :=
  match e.call, e.answer with
  | .install, .done result => Installs i e.before result e.after
  | .reseed value, .done result => Reseeds i e.before result e.after value
  | .use _, .used _ => e.codes = [] ∧
    (e.after.override i).installed = (e.before.override i).installed
  | _, _ => False

/-! ### What a call does -/

namespace Host

/-- An override is in its host, and its library was handed no other's table. -/
structure Owns (h : Host) (i : OverrideId) : Prop where
  mem : i < h.overrides.length
  known : (h.override i).library ∈ h.libraryNames
  tables : ∀ j ∈ (h.library (h.override i).library).tables, j = i

variable {h h' : Host} {i j : OverrideId}

/-- An override owns its library whatever generators do. -/
theorem Owns.regenerated (hi : h.Owns i) (hr : Regenerated j h h') : h'.Owns i where
  mem := hr.count ▸ hi.mem
  known := by
    rw [hr.library_override, hr.names]
    exact hi.known
  tables := by
    rw [hr.library_override, hr.tables_library]
    exact hi.tables

/-- A library that was handed a table by the override that owns it was handed that last. -/
theorem Owns.getLast?_tables (hi : h.Owns i)
    (hgiven : i ∈ (h.library (h.override i).library).tables) :
    (h.library (h.override i).library).tables.getLast? = some i := by
  rw [List.getLast?_eq_some_getLast (List.ne_nil_of_mem hgiven),
    hi.tables _ (List.getLast_mem _)]

/-- Reseeding through a library that was handed no table is recorded by it and does nothing
else. -/
theorem reseed_of_nil (v : Int) (hseed : .seed ∉ (h.library (h.override i).library).missing)
    (hnone : (h.library (h.override i).library).tables = []) :
    h.reseed i v = (.ok (), h.withSeeding (h.override i).library v) := by
  have hlast : (h.library (h.override i).library).tables.getLast? = none := by
    rw [hnone]
    rfl
  unfold reseed
  dsimp only
  rw [if_neg hseed, hlast]
  rfl

/-- A library records that it was handed the bytes of a word. -/
theorem seedings_withSeeding {name : String} (v : Int) (hname : name ∈ h.libraryNames) :
    ((h.withSeeding name v).library name).seedings =
      (h.library name).seedings ++ [(wordBytes (wordOf v), 8)] := by
  unfold withSeeding
  rw [library_setLibrary_self _ hname]
  rfl

/-- Reseeding an override that owns its library does what it should. -/
theorem reseeds_reseed (v : Int) (hi : h.Owns i) :
    Reseeds i h (h.reseed i v).1 (h.reseed i v).2 v ∧ (h.reseed i v).2.Owns i := by
  obtain ⟨j, hr⟩ := regenerated_reseed h i v
  refine ⟨?_, hi.regenerated hr⟩
  have hvalue : Nat.ofDigits 256 ((wordBytes (wordOf v)).map UInt8.toNat) =
      (v % 2 ^ 64).toNat := by
    rw [ofDigits_wordBytes, toNat_wordOf]
  have hseedings := seedings_withSeeding v hi.known
  constructor
  case codes => exact answers_eq_nil hr.tables_library
  case missing =>
    intro hmissing
    rw [reseed_of_missing v hmissing]
    exact ⟨rfl, rfl⟩
  case handed =>
    intro hseed
    by_cases hgiven : i ∈ (h.library (h.override i).library).tables
    · rw [reseed_of_last v hseed (hi.getLast?_tables hgiven)]
      exact ⟨rfl, _, length_wordBytes _, hvalue, hseedings⟩
    · have hnone : (h.library (h.override i).library).tables = [] :=
        List.eq_nil_iff_forall_not_mem.mpr fun j hj ↦ hgiven (hi.tables j hj ▸ hj)
      rw [reseed_of_nil v hseed hnone]
      exact ⟨rfl, _, length_wordBytes _, hvalue, hseedings⟩
  case seeded =>
    intro hseed hgiven
    rw [reseed_of_last v hseed (hi.getLast?_tables hgiven),
      override_withGenerator_self (h := h.withSeeding _ v) _ hi.mem]
    exact toNat_wordOf v
  case unseeded =>
    intro hgiven
    have hnone : (h.library (h.override i).library).tables = [] :=
      List.eq_nil_iff_forall_not_mem.mpr fun j hj ↦ hgiven (hi.tables j hj ▸ hj)
    by_cases hseed : .seed ∈ (h.library (h.override i).library).missing
    · rw [reseed_of_missing v hseed]
    · rw [reseed_of_nil v hseed hnone]
      rfl
  case installed => exact hr.installed_override i

/-- The host after the library of an override was handed the override's table. -/
def handed (h : Host) (i : OverrideId) : Host :=
  h.setLibrary (h.override i).library ((h.library (h.override i).library).offer i).2

/-- The library that was handed a table records it after those before. -/
theorem Owns.tables_handed (hi : h.Owns i) :
    ((h.handed i).library (h.override i).library).tables =
      (h.library (h.override i).library).tables ++ [i] := by
  unfold handed
  rw [library_setLibrary_self _ hi.known]
  rfl

/-- The library that was handed a table gave the one answer. -/
theorem Owns.answers_handed (hi : h.Owns i)
    (hlibraries : ∀ name, h'.library name = (h.handed i).library name) :
    h.answers h' = [(h.library (h.override i).library).returns.headD 1] := by
  apply answers_eq_singleton hi.known
  · rw [hlibraries, hi.tables_handed, List.length_append, List.length_singleton]
  · intro other hother
    rw [hlibraries]
    unfold handed
    rw [library_setLibrary_of_ne _ hother]

/-- An override still owns its library once that was handed the override's table, whatever becomes
of the override itself. -/
theorem Owns.handed (hi : h.Owns i)
    (hcount : h'.overrides.length = h.overrides.length)
    (hnames : h'.libraryNames = h.libraryNames)
    (hlibraries : ∀ name, h'.library name = (h.handed i).library name)
    (hsame : (h'.override i).library = (h.override i).library) : h'.Owns i where
  mem := hcount ▸ hi.mem
  known := by
    rw [hsame, hnames]
    exact hi.known
  tables := by
    intro j hj
    rw [hsame, hlibraries, hi.tables_handed] at hj
    rcases List.mem_append.mp hj with hbefore | hnew
    · exact hi.tables j hbefore
    · exact List.mem_singleton.mp hnew

/-- The host after the library of an override accepted the override's table. -/
def settled (h : Host) (i : OverrideId) : Host :=
  (h.handed i).setOverride i { h.override i with installed := true }

/-- The override whose table was accepted is installed. -/
theorem Owns.override_settled (hi : h.Owns i) :
    (h.settled i).override i = { h.override i with installed := true } :=
  override_setOverride_self (h := h.handed i) _ hi.mem

/-- An installed override is not installed again. -/
theorem install_of_installed (hinstalled : (h.override i).installed = true) :
    h.install i = (.error .alreadyInstalled, h) :=
  if_pos hinstalled

/-- A library without the function is not handed a table. -/
theorem install_of_missing (hinstalled : ¬ (h.override i).installed = true)
    (hmissing : .setMethod ∈ (h.library (h.override i).library).missing) :
    h.install i = (.error (.missingFunction .setMethod), h) :=
  (if_neg hinstalled).trans (if_pos hmissing)

/-- The answer 1 installs an override. -/
theorem install_of_accepted (hinstalled : ¬ (h.override i).installed = true)
    (hmissing : .setMethod ∉ (h.library (h.override i).library).missing)
    (hcode : (h.library (h.override i).library).returns.headD 1 = 1) :
    h.install i = (.ok (), h.settled i) :=
  (if_neg hinstalled).trans ((if_neg hmissing).trans (if_pos hcode))

/-- Another answer does not install an override. -/
theorem install_of_rejected (hinstalled : ¬ (h.override i).installed = true)
    (hmissing : .setMethod ∉ (h.library (h.override i).library).missing)
    (hcode : ¬ (h.library (h.override i).library).returns.headD 1 = 1) :
    h.install i = (.error .rejected, h.handed i) :=
  (if_neg hinstalled).trans ((if_neg hmissing).trans (if_neg hcode))

/-- Installing an override that owns its library does what it should. -/
theorem installs_install (hi : h.Owns i) :
    Installs i h (h.install i).1 (h.install i).2 ∧ (h.install i).2.Owns i := by
  by_cases hinstalled : (h.override i).installed = true
  · rw [install_of_installed hinstalled]
    exact ⟨{ installed := fun _ ↦ ⟨rfl, rfl⟩
             missing := by simp [hinstalled]
             handed := by simp [hinstalled]
             accepted := by simp
             refused := fun _ ↦ rfl }, hi⟩
  by_cases hmissing : .setMethod ∈ (h.library (h.override i).library).missing
  · rw [install_of_missing hinstalled hmissing]
    exact ⟨{ installed := fun hyes ↦ absurd hyes hinstalled
             missing := fun _ _ ↦ ⟨rfl, rfl⟩
             handed := fun _ hhas ↦ absurd hmissing hhas
             accepted := by simp
             refused := fun _ ↦ rfl }, hi⟩
  by_cases hcode : (h.library (h.override i).library).returns.headD 1 = 1
  · rw [install_of_accepted hinstalled hmissing hcode]
    have hanswers : h.answers (h.settled i) = [1] :=
      (hi.answers_handed fun _ ↦ rfl).trans (congrArg (fun code ↦ [code]) hcode)
    have howns : (h.settled i).Owns i := by
      apply hi.handed
      · exact List.length_set
      · exact libraryNames_setLibrary h _ _
      · exact fun _ ↦ rfl
      · rw [hi.override_settled]
    exact ⟨{ installed := fun hyes ↦ absurd hyes hinstalled
             missing := fun _ hlacks ↦ absurd hlacks hmissing
             handed := fun _ _ ↦ ⟨hi.tables_handed, 1, hanswers, rfl⟩
             accepted := fun _ ↦ hi.override_settled
             refused := by simp }, howns⟩
  · rw [install_of_rejected hinstalled hmissing hcode]
    have howns : (h.handed i).Owns i :=
      hi.handed rfl (libraryNames_setLibrary h _ _) (fun _ ↦ rfl) rfl
    exact ⟨{ installed := fun hyes ↦ absurd hyes hinstalled
             missing := fun _ hlacks ↦ absurd hlacks hmissing
             handed := fun _ _ ↦
               ⟨hi.tables_handed, _, hi.answers_handed fun _ ↦ rfl, (if_neg hcode).symm⟩
             accepted := by simp
             refused := fun _ ↦ rfl }, howns⟩

/-- Using an override that owns its library hands no table to a library. -/
theorem uses_use (use : Use) (hi : h.Owns i) :
    h.answers (h.use i use).2 = [] ∧
    ((h.use i use).2.override i).installed = (h.override i).installed ∧ (h.use i use).2.Owns i := by
  rw [use_eq_withGenerator use hi.mem]
  have hr := Regenerated.withGenerator h i ((h.use i use).2.override i).generator
  exact ⟨answers_eq_nil hr.tables_library, hr.installed_override i, hi.regenerated hr⟩

/-! ### One call -/

/-- Every call does what it should. -/
theorem correct_call (call : OverrideCall) (hi : h.Owns i) :
    OverrideEvent.Correct i ⟨h, call, (h.call i call).1, (h.call i call).2⟩ ∧
    (h.call i call).2.Owns i := by
  cases call with
  | install => exact installs_install hi
  | reseed value => exact reseeds_reseed value hi
  | use use =>
      obtain ⟨hcodes, hinstalled, howns⟩ := uses_use use hi
      exact ⟨⟨hcodes, hinstalled⟩, howns⟩

end Host

namespace OverrideEvent

variable {i : OverrideId} {e : OverrideEvent}

/-- A call leaves the override installed just if it was installed or the call installs it. -/
theorem Correct.installed_iff (he : e.Correct i) :
    (e.after.override i).installed = true ↔
      (e.before.override i).installed = true ∨ e.Accepted := by
  obtain ⟨before, call, answer, after⟩ := e
  cases call with
  | install =>
      cases answer with
      | used answer => exact he.elim
      | done result =>
          have he : Installs i before result after := he
          show (after.override i).installed = true ↔
            (before.override i).installed = true ∨ Accepted _
          by_cases hok : result = .ok ()
          · have hcodes : before.answers after = [1] := he.codes_of_ok hok
            rw [he.accepted hok]
            exact iff_of_true rfl (.inr ⟨rfl, hcodes⟩)
          · have hcodes : ¬ Accepted ⟨before, .install, .done result, after⟩ :=
              fun haccepted ↦ hok (he.ok_of_codes haccepted.2)
            rw [he.refused hok]
            simp only [hcodes, or_false]
  | reseed value =>
      cases answer with
      | used answer => exact he.elim
      | done result =>
          have he : Reseeds i before result after value := he
          simp [he.installed, Accepted]
  | use use =>
      cases answer with
      | done result => exact he.elim
      | used answer =>
          have he : before.answers after = [] ∧
            (after.override i).installed = (before.override i).installed := he
          simp [he.2, Accepted]

/-- A call on an installed override hands no table to a library. -/
theorem Correct.codes_of_installed (he : e.Correct i)
    (hinstalled : (e.before.override i).installed = true) : e.codes = [] := by
  obtain ⟨before, call, answer, after⟩ := e
  cases call with
  | install =>
      cases answer with
      | used answer => exact he.elim
      | done result =>
          have he : Installs i before result after := he
          obtain ⟨_, rfl⟩ := he.installed hinstalled
          exact Host.answers_eq_nil fun _ ↦ rfl
  | reseed value =>
      cases answer with
      | used answer => exact he.elim
      | done result =>
          have he : Reseeds i before result after value := he
          exact he.codes
  | use use =>
      cases answer with
      | done result => exact he.elim
      | used answer => exact he.1

end OverrideEvent

/-! ### Calls in any order -/

namespace Host

variable {h : Host} {i : OverrideId}

/-- Every one of several calls does what it should. -/
theorem correct_overrideEvents (calls : List OverrideCall) (hi : h.Owns i) :
    ∀ e ∈ overrideEvents i calls h, e.Correct i := by
  induction calls generalizing h with
  | nil => simp [overrideEvents]
  | cons call rest ih =>
      obtain ⟨hcorrect, howns⟩ := correct_call call hi
      intro e he
      rcases List.mem_cons.mp he with rfl | he
      · exact hcorrect
      · exact ih howns e he

/-- After several calls the override is installed just if it was before or one of them installed
it. -/
theorem installed_callAll (calls : List OverrideCall) (hi : h.Owns i) :
    ((h.callAll i calls).override i).installed = true ↔
      (h.override i).installed = true ∨ ∃ e ∈ overrideEvents i calls h, e.Accepted := by
  induction calls generalizing h with
  | nil => simp [overrideEvents, callAll]
  | cons call rest ih =>
      obtain ⟨hcorrect, howns⟩ := correct_call call hi
      have hfirst := hcorrect.installed_iff
      simp only [callAll, overrideEvents, List.exists_mem_cons_iff]
      rw [ih howns, hfirst, or_assoc]

/-- Once the override is installed, it stays so, and no call hands out its table. -/
theorem stays_installed (calls : List OverrideCall) (hi : h.Owns i)
    (hinstalled : (h.override i).installed = true) :
    ∀ e ∈ overrideEvents i calls h, (e.after.override i).installed = true ∧ e.codes = [] := by
  induction calls generalizing h with
  | nil => simp [overrideEvents]
  | cons call rest ih =>
      obtain ⟨hcorrect, howns⟩ := correct_call call hi
      have hafter := hcorrect.installed_iff.mpr (.inl hinstalled)
      intro e he
      rcases List.mem_cons.mp he with rfl | he
      · exact ⟨hafter, hcorrect.codes_of_installed hinstalled⟩
      · exact ih howns hafter e he

/-- What holds of a call and those after it. -/
theorem pairwise_overrideEvents (calls : List OverrideCall) (hi : h.Owns i) :
    (overrideEvents i calls h).Pairwise fun e later ↦
      (e.after.override i).installed = true →
        (later.after.override i).installed = true ∧ later.codes = [] := by
  induction calls generalizing h with
  | nil => exact .nil
  | cons call rest ih =>
      obtain ⟨_, howns⟩ := correct_call call hi
      refine .cons ?_ (ih howns)
      intro later hlater hinstalled
      exact stays_installed rest howns hinstalled later hlater

/-- A new override owns the library it is made for, if that was handed no table. -/
theorem owns_create (name : String) (g : Generator) (hname : name ∈ h.libraryNames)
    (hnone : (h.library name).tables = []) :
    (h.create name g).2.Owns (h.create name g).1 := by
  have hnew : (h.create name g).2.override (h.create name g).1 = ⟨name, g, false⟩ := by
    unfold create override
    simp
  constructor
  case mem => simp [create]
  case known =>
    rw [hnew]
    exact hname
  case tables =>
    rw [hnew]
    show ∀ j ∈ (h.library name).tables, _
    rw [hnone]
    simp

/-- An override is installed in its library, whatever that answers and lacks, just if a call to
install it had the answer 1; and then it stays installed, and the library is handed its table no
more. Every call to install it before hands the library the table once, and leaves the override as
it was if that fails; every reseeding hands the library the eight bytes of the value, which seed the
override just if the library was ever handed the table. -/
theorem calls_install_once (name : String) (returns : List Int) (missing : List HostFunction)
    (g : Generator) (calls : List OverrideCall) :
    let start := ((ofLibraries [(name, .fresh returns missing)]).create name g).2
    let events := overrideEvents 0 calls start
    (((start.callAll 0 calls).override 0).installed = true ↔ ∃ e ∈ events, e.Accepted) ∧
    (events.Pairwise fun e later ↦ (e.after.override 0).installed = true →
      (later.after.override 0).installed = true ∧ later.codes = []) ∧
    ∀ e ∈ events, e.Correct 0 := by
  intro start events
  have howns : start.Owns 0 := by
    apply owns_create
    · exact List.mem_singleton_self name
    · simp [ofLibraries, library, HostLibrary.fresh]
  refine ⟨?_, pairwise_overrideEvents calls howns, correct_overrideEvents calls howns⟩
  have hfinal := installed_callAll calls howns
  have hnew : (start.override 0).installed = false := rfl
  simpa only [hnew, Bool.false_eq_true, false_or] using hfinal

end Host

end Vendoring.Entropy
