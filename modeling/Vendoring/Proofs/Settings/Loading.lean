import Vendoring.Proofs.Data.Reading
import Vendoring.Proofs.Files.LookUps
import Vendoring.Proofs.Session.Frames
import Vendoring.Proofs.Settings.Layers
import Vendoring.Settings.Load

/-!
# What a load gives

A load that comes first in a session adopts the files of variables as layers below the environment.
Each field of the settings is then decided by its override, if it has one, else by its variable in
the first layer that assigns it, if that value is not empty, and else by its default.
-/

namespace Vendoring

open Vendoring.Text Vendoring.Data Vendoring.Files Vendoring.Settings

namespace Settings

open Vendoring.Action

variable {around : Surroundings} {s t : Session}

/-! ### Overrides and fields -/

/-- The value that overrides give a field; the last one counts. -/
def given? (overrides : Entries) (field : String) : Option Value := overrides.reverse.lookup field

/-- A field has the value that overrides give it, and what an environment sets if they give none. -/
theorem get?_override (fields overrides : Entries) (field : String) :
    (override fields overrides).get? field = (given? overrides field).or (fields.get? field) := by
  induction overrides generalizing fields with
  | nil => rfl
  | cons entry rest ih =>
      obtain ⟨name, value⟩ := entry
      rw [given?, List.reverse_cons, List.lookup_append, Option.or_assoc]
      refine (ih (fields.set name value)).trans (congrArg (Option.or _) ?_)
      by_cases h : field = name
      · subst h
        rw [Entries.get?_set_self, List.lookup_cons_self]
        rfl
      · rw [Entries.get?_set_of_ne fields value h, List.lookup_cons, beq_false_of_ne h]
        rfl

/-- A field as its override says, or as some property says if no override gives it. -/
def Decided {α : Type} (overrides : Entries) (field : String) (reader : Reader α) (x : α)
    (otherwise : Prop) : Prop :=
  match given? overrides field with
  | some value => reader value = .valid x
  | none => otherwise

/-- Reading a field of overridden fields is deciding it. -/
theorem decided_of_withDefault {α : Type} {fields overrides : Entries} {field : String}
    {reader : Reader α} {default x : α} {otherwise : Prop}
    (h : (override fields overrides).withDefault field reader default = .valid x)
    (hfields : (match fields.get? field with
      | some value => reader value = .valid x
      | none => x = default) → otherwise) :
    Decided overrides field reader x otherwise := by
  rw [Entries.withDefault_eq_valid_iff, get?_override] at h
  unfold Decided
  cases hgiven : given? overrides field with
  | some value =>
      rw [hgiven] at h
      exact h
  | none =>
      rw [hgiven] at h
      exact hfields h

/-! ### What an environment sets -/

/-- A variable that is on holds a word for yes, in any case. -/
theorem isOn_iff {e : Environment} {name : String} :
    isOn e name = true ↔
      ∃ text, e.get? name = some text ∧ text.map Char.toLower ∈ ["1", "true", "yes"] := by
  rw [isOn, List.contains_iff_mem]
  cases e.get? name with
  | none =>
      have hnot : "".map Char.toLower ∉ ["1", "true", "yes"] := by decide +kernel
      simpa using hnot
  | some text => simp

private theorem lookup_filterMap_nonempty? (e : Environment) {vs : List (String × String)}
    (hfields : (vs.map Prod.snd).Nodup) (field : String) :
    (vs.filterMap fun (name, field) ↦
      (nonempty? e name).map fun value ↦ (field, Value.text value)).lookup field =
        (vs.find? fun v ↦ v.2 == field).bind fun v ↦ (nonempty? e v.1).map Value.text := by
  induction vs with
  | nil => rfl
  | cons v rest ih =>
      obtain ⟨name, other⟩ := v
      obtain ⟨hnot, hrest⟩ := List.nodup_cons.mp hfields
      rw [List.find?_cons]
      by_cases h : other = field
      · subst h
        have hnone : (rest.find? fun v ↦ v.2 == other) = none := by
          rw [List.find?_eq_none]
          intro v hv hother
          exact hnot (List.mem_map.mpr ⟨v, hv, beq_iff_eq.mp hother⟩)
        rw [hnone] at ih
        cases hvalue : nonempty? e name with
        | none => simpa [hvalue] using ih hrest
        | some value => simp [hvalue]
      · have hne : (field == other) = false := beq_false_of_ne (Ne.symm h)
        rw [beq_false_of_ne h]
        cases hvalue : nonempty? e name with
        | none => simpa [hvalue] using ih hrest
        | some value => simpa [hvalue, List.lookup_cons, hne] using ih hrest

/-- What an environment sets is the flag for debug lines, the variables taken over as they are, and
the number of jobs. -/
theorem exists_of_fieldsOf {e : Environment} {fields : Entries} (h : fieldsOf e = .ok fields) :
    ∃ jobs : Entries,
      (match nonempty? e "VENDORKIT_JOBS" with
        | none => jobs = []
        | some value => ∃ n, parseInt value = .ok n ∧ jobs = [("build_jobs", .int n)]) ∧
      fields = ("debug", .bool (isOn e "VENDORKIT_DEBUG")) ::
        (textVariables.filterMap fun (name, field) ↦
          (nonempty? e name).map fun value ↦ (field, Value.text value)) ++ jobs := by
  unfold fieldsOf at h
  cases hjobs : nonempty? e "VENDORKIT_JOBS" with
  | none =>
      rw [hjobs] at h
      cases h
      exact ⟨[], rfl, rfl⟩
  | some value =>
      rw [hjobs] at h
      dsimp only at h
      cases hn : parseInt value with
      | error e => rw [hn] at h; cases h
      | ok n =>
          rw [hn] at h
          cases h
          exact ⟨_, ⟨n, hn, rfl⟩, rfl⟩

section
variable {e : Environment} {fields : Entries}

/-- The flag for debug lines is always set. -/
theorem get?_fieldsOf_debug (h : fieldsOf e = .ok fields) :
    fields.get? "debug" = some (.bool (isOn e "VENDORKIT_DEBUG")) := by
  obtain ⟨jobs, _, rfl⟩ := exists_of_fieldsOf h
  rfl

private theorem get?_ofTexts (e : Environment) (jobs : Entries) (debug : Value) {field : String}
    (h : field ≠ "debug") :
    Entries.get? (("debug", debug) :: (textVariables.filterMap fun (name, field) ↦
        (nonempty? e name).map fun value ↦ (field, Value.text value)) ++ jobs) field =
      ((textVariables.find? fun v ↦ v.2 == field).bind fun v ↦
        (nonempty? e v.1).map Value.text).or (jobs.lookup field) := by
  rw [Entries.get?, List.cons_append, List.lookup_cons, beq_false_of_ne h, List.lookup_append,
    lookup_filterMap_nonempty? e (by decide) field]

/-- The number of jobs is set from the integer that its variable holds. -/
theorem get?_fieldsOf_jobs (h : fieldsOf e = .ok fields) :
    match nonempty? e "VENDORKIT_JOBS" with
    | none => fields.get? "build_jobs" = none
    | some value => ∃ n, parseInt value = .ok n ∧ fields.get? "build_jobs" = some (.int n) := by
  obtain ⟨jobs, hjobs, rfl⟩ := exists_of_fieldsOf h
  rw [get?_ofTexts e jobs _ (by decide)]
  cases hvalue : nonempty? e "VENDORKIT_JOBS" with
  | none =>
      rw [hvalue] at hjobs
      rw [hjobs]
      rfl
  | some value =>
      rw [hvalue] at hjobs
      obtain ⟨n, hn, rfl⟩ := hjobs
      exact ⟨n, hn, rfl⟩

/-- Any other field is set from the variable that is taken over for it. -/
theorem get?_fieldsOf (h : fieldsOf e = .ok fields) {field : String}
    (hfield : field ∉ ["debug", "build_jobs"]) :
    fields.get? field = (textVariables.find? fun v ↦ v.2 == field).bind fun v ↦
      (nonempty? e v.1).map Value.text := by
  obtain ⟨hdebug, hjobs⟩ : field ≠ "debug" ∧ field ≠ "build_jobs" := by simpa using hfield
  obtain ⟨jobs, hvalue, rfl⟩ := exists_of_fieldsOf h
  have hnone : jobs.lookup field = none := by
    split at hvalue
    · rw [hvalue]
      rfl
    · obtain ⟨n, _, rfl⟩ := hvalue
      rw [List.lookup_cons, beq_false_of_ne hjobs]
      rfl
  rw [get?_ofTexts e jobs _ hdebug, hnone, Option.or_none]

end

/-! ### The files of variables -/

/-- Adopting a file of variables changes the environment alone. -/
theorem perform_adoptEnvFile (p : Path) (around : Surroundings) (s : Session) :
    perform (adoptEnvFile p) around s = match s.files.lookUp p with
      | .error e => (.error (.file e), s)
      | .ok (some (.file bytes)) => match Utf8.decode bytes with
        | .error e => (.error (.undecodable e), s)
        | .ok text =>
          ((s.environment.adoptFile text).1.mapError .environment,
            { s with environment := (s.environment.adoptFile text).2 })
      | .ok _ => (.ok (), s) := by
  rw [adoptEnvFile, perform_bind, perform_lookUp]
  rcases s.files.lookUp p with e | _ | (bytes | _)
  · rfl
  · rfl
  · dsimp only [Except.mapError]
    rw [perform_bind, perform_ofExcept]
    cases Utf8.decode bytes with
    | error e => rfl
    | ok text =>
      dsimp only [Except.mapError]
      rw [perform_bind, perform_get]
      dsimp only
      cases s.environment.adoptFile text
      exact perform_ofExcept _ _ _ _
  · rfl

/-- The text of a file of variables, if there is one. -/
def envText? (files : Workspace) (p : Path) : Option String :=
  (files.content? p).bind fun bytes ↦ (Utf8.decode bytes).toOption

/-- A file of variables that is adopted is not there and changes nothing, or becomes a layer below
the environment. -/
theorem adoptEnvFile_cases {p : Path} {u : Unit}
    (h : perform (adoptEnvFile p) around s = (.ok u, t)) :
    (envText? s.files p = none ∧ t = s) ∨
      ∃ text e', envText? s.files p = some text ∧
        s.environment.adoptFile text = (.ok (), e') ∧ t = { s with environment := e' } := by
  rw [perform_adoptEnvFile] at h
  unfold envText? Workspace.content?
  split at h
  · cases h
  · next bytes hfound =>
      rw [Workspace.find?_of_lookUp hfound, Option.bind_some]
      split at h
      · cases h
      · next text htext =>
          rw [htext]
          generalize hadopt : s.environment.adoptFile text = result at h
          obtain ⟨_ | _, e'⟩ := result
          · cases h
          · cases h
            exact .inr ⟨text, e', rfl, hadopt, rfl⟩
  · next hnofile hfound =>
      cases h
      rw [Workspace.find?_of_lookUp hfound]
      left
      split
      · next bytes => exact absurd rfl (hnofile bytes)
      · exact ⟨rfl, rfl⟩

/-- Files of variables that are adopted one after the other become layers in this order. -/
private theorem layers_of_forIn {paths : List Path} {u : PUnit}
    (h : perform (forIn paths PUnit.unit fun p _ ↦ do
      adoptEnvFile p
      return ForInStep.yield PUnit.unit) around s = (.ok u, t)) :
    ∃ e : Environment, t = { s with environment := e } ∧
      e.get? = firstAssigned (s.environment.get? ::
        fileLayers s.environment.get? (paths.filterMap (envText? s.files))) := by
  induction paths generalizing s with
  | nil =>
      obtain rfl : t = s := (congrArg Prod.snd h).symm
      refine ⟨t.environment, rfl, funext fun name ↦ ?_⟩
      simp [firstAssigned, fileLayers]
  | cons p rest ih =>
      rw [List.forIn_cons, bind_assoc] at h
      obtain ⟨_, s', hfile, hrest⟩ := perform_bind_eq_ok.mp h
      rw [pure_bind] at hrest
      rcases adoptEnvFile_cases hfile with ⟨hnone, rfl⟩ | ⟨text, e', htext, hadopt, rfl⟩
      · rw [List.filterMap_cons_none hnone]
        exact ih hrest
      · obtain ⟨e, rfl, he⟩ := ih hrest
        refine ⟨e, rfl, ?_⟩
        rw [List.filterMap_cons_some htext, he, fileLayers]
        have hget : e'.get? = fun name ↦ (s.environment.get? name).or
            (EnvFile.assigned? s.environment.get? text name) :=
          funext (Environment.get?_adoptFile hadopt)
        rw [← firstAssigned_or, ← hget]

/-- Once the files of variables have been adopted, adopting them does nothing. -/
theorem perform_adoptEnvFiles_of_adopted (h : s.adopted = true) (around : Surroundings) :
    perform adoptEnvFiles around s = (.ok (), s) := by
  rw [adoptEnvFiles, perform_bind, perform_get]
  dsimp only
  rw [if_pos h]
  rfl

/-- The value of a variable in the first of the environment and the files of variables in the
project, the current directory and a home directory that assigns it at all. -/
def firstValue? (around : Surroundings) (home : Path) (s : Session) : String → Option String :=
  firstAssigned (s.environment.get? :: fileLayers s.environment.get?
    (([around.project, Path.here, home].map (·.below envFileName)).filterMap (envText? s.files)))

/-- The first adoption needs a home directory, and puts the files of variables below the
environment, in the order of their precedence. -/
theorem layers_of_adoptEnvFiles (hs : s.adopted = false) {u : Unit}
    (h : perform adoptEnvFiles around s = (.ok u, t)) :
    ∃ home, homeDirectory around s.environment = .ok home ∧
      ∃ e : Environment, t = { s with environment := e, adopted := true } ∧
        e.get? = firstValue? around home s := by
  rw [adoptEnvFiles, perform_bind, perform_get] at h
  dsimp only at h
  rw [if_neg (by simp [hs]), perform_bind, perform_read] at h
  obtain ⟨paths, s', hgiven, hrest⟩ := perform_bind_eq_ok.mp h
  obtain ⟨hpaths, rfl⟩ := perform_ofExcept_eq_ok.mp hgiven
  obtain ⟨_, s'', hloop, hlast⟩ := perform_bind_eq_ok.mp hrest
  obtain ⟨e, rfl, he⟩ := layers_of_forIn hloop
  cases hlast
  unfold envFiles at hpaths
  cases hhome : homeDirectory around s'.environment with
  | error fault =>
      rw [hhome] at hpaths
      cases hpaths
  | ok home =>
      rw [hhome] at hpaths
      cases hpaths
      exact ⟨home, rfl, e, rfl, he⟩

/-! ### The settings loaded -/

/-- The settings that overrides and the values of variables give. -/
structure Decides (processors : Option Int) (value? : String → Option String)
    (overrides : Entries) (x : Settings) : Prop where
  cc : Decided overrides "cc" Reader.text x.cc
    (x.cc = ((value? "VENDORKIT_CC").filter (· ≠ "")).getD "clang")
  cmake : Decided overrides "cmake" Reader.text x.cmake
    (x.cmake = ((value? "VENDORKIT_CMAKE").filter (· ≠ "")).getD "cmake")
  buildJobs : Decided overrides "build_jobs" Reader.integer x.buildJobs
    (match (value? "VENDORKIT_JOBS").filter (· ≠ "") with
      | some text => parseInt text = .ok x.buildJobs
      | none => x.buildJobs = jobsFor processors)
  compileTimeout : Decided overrides "compile_timeout" (Reader.optional Reader.integer)
    x.compileTimeout (x.compileTimeout = none)
  nmTool : Decided overrides "nm_tool" Reader.text x.nmTool
    (x.nmTool = ((value? "VENDORKIT_NM").filter (· ≠ "")).getD "nm")
  claimerMarker : Decided overrides "claimer_marker" Reader.text x.claimerMarker
    (x.claimerMarker =
      ((value? "VENDORKIT_CLAIMER_MARKER").filter (· ≠ "")).getD "register_claimer")
  probeTimeout : Decided overrides "probe_timeout" (Reader.optional Reader.integer)
    x.probeTimeout (x.probeTimeout = none)
  archiveSubdirs : Decided overrides "archive_subdirs" (Reader.items .notList Reader.text)
    x.archiveSubdirs (x.archiveSubdirs = ["crypto", "ssl"])
  headerDir : Decided overrides "header_dir" Reader.text x.headerDir (x.headerDir = "include")
  metadataFilename : Decided overrides "metadata_filename" Reader.text x.metadataFilename
    (x.metadataFilename = "vendor.toml")
  libcryptoPath : Decided overrides "libcrypto_path" (Reader.optional Reader.text)
    x.libcryptoPath (x.libcryptoPath = (value? "VENDORKIT_LIBCRYPTO").filter (· ≠ ""))
  debug : Decided overrides "debug" Reader.flag x.debug
    (x.debug = true ↔ ∃ text, value? "VENDORKIT_DEBUG" = some text ∧
      text.map Char.toLower ∈ ["1", "true", "yes"])

section
variable {α : Type} {e : Environment} {fields overrides : Entries} {name field : String}
  {reader : Reader α} {default x : α}

/-- A field that a variable is taken over for is decided by the variable's value, unless that is
empty. -/
theorem decided_of_textVariable (hfields : fieldsOf e = .ok fields)
    (hvariable : textVariables.find? (fun v ↦ v.2 == field) = some (name, field))
    (hfield : field ∉ ["debug", "build_jobs"])
    (hx : (override fields overrides).withDefault field reader default = .valid x) :
    Decided overrides field reader x (match (e.get? name).filter (· ≠ "") with
      | some text => reader (.text text) = .valid x
      | none => x = default) := by
  refine decided_of_withDefault hx fun hread ↦ ?_
  rw [get?_fieldsOf hfields hfield, hvariable, Option.bind_some] at hread
  unfold nonempty? at hread
  generalize (e.get? name).filter (· ≠ "") = value? at hread ⊢
  cases value? with
  | none => exact hread
  | some text => exact hread

/-- A field that no variable sets is decided by its default. -/
theorem decided_of_noVariable (hfields : fieldsOf e = .ok fields)
    (hvariable : textVariables.find? (fun v ↦ v.2 == field) = none)
    (hfield : field ∉ ["debug", "build_jobs"])
    (hx : (override fields overrides).withDefault field reader default = .valid x) :
    Decided overrides field reader x (x = default) := by
  refine decided_of_withDefault hx fun hread ↦ ?_
  rw [get?_fieldsOf hfields hfield, hvariable] at hread
  exact hread

/-- What decides a field may be weakened. -/
theorem Decided.imp {p q : Prop} (h : Decided overrides field reader x p) (hpq : p → q) :
    Decided overrides field reader x q := by
  unfold Decided at h ⊢
  split at h
  · exact h
  · exact hpq h

/-- A text that a variable decides is the variable's value, or else the default. -/
theorem eq_getD_of_text {value? : Option String} {default x : String}
    (h : match value? with
      | some text => Reader.text (.text text) = .valid x
      | none => x = default) : x = value?.getD default := by
  split at h
  · cases h
    rfl
  · exact h

/-- A text that may be missing and that a variable decides is the variable's value, if any. -/
theorem eq_of_optional_text {value? x : Option String}
    (h : match value? with
      | some text => Reader.optional Reader.text (.text text) = .valid x
      | none => x = none) : x = value? := by
  split at h
  · cases h
    rfl
  · exact h

/-- The number of jobs is decided by its variable's integer, and else by the processors. -/
theorem decided_jobs {processors : Option Int} {n : Int} (hfields : fieldsOf e = .ok fields)
    (hn : (override fields overrides).withDefault "build_jobs" Reader.integer
      (jobsFor processors) = .valid n) :
    Decided overrides "build_jobs" Reader.integer n
      (match (e.get? "VENDORKIT_JOBS").filter (· ≠ "") with
        | some text => parseInt text = .ok n
        | none => n = jobsFor processors) := by
  refine decided_of_withDefault hn fun hread ↦ ?_
  have hset := get?_fieldsOf_jobs hfields
  unfold nonempty? at hset
  split at hset
  · next hvalue =>
      rw [hset] at hread
      rw [hvalue]
      exact hread
  · next value hvalue =>
      obtain ⟨m, hm, hset⟩ := hset
      rw [hset] at hread
      cases hread
      rw [hvalue]
      exact hm

/-- The flag is decided by whether its variable is on. -/
theorem decided_debug {debug : Bool} (hfields : fieldsOf e = .ok fields)
    (hdebug : (override fields overrides).withDefault "debug" Reader.flag false = .valid debug) :
    Decided overrides "debug" Reader.flag debug
      (debug = true ↔ ∃ text, e.get? "VENDORKIT_DEBUG" = some text ∧
        text.map Char.toLower ∈ ["1", "true", "yes"]) := by
  refine decided_of_withDefault hdebug fun hread ↦ ?_
  rw [get?_fieldsOf_debug hfields] at hread
  have hon : isOn e "VENDORKIT_DEBUG" = debug := Checked.valid.inj hread
  exact hon ▸ isOn_iff

end

/-- Fields that are read are decided by overrides and variables. -/
theorem decides_of_ofEntries {processors : Option Int} {e : Environment}
    {fields overrides : Entries} {x : Settings} (hfields : fieldsOf e = .ok fields)
    (h : ofEntries processors (override fields overrides) = .ok x) :
    Decides processors e.get? overrides x := by
  have hvalid : ofFields processors (override fields overrides) = .valid x := by
    unfold ofEntries at h
    cases hread : ofFields processors (override fields overrides) with
    | valid y => rw [hread] at h; cases h; rfl
    | invalid issues => rw [hread] at h; cases h
  unfold ofFields at hvalid
  obtain ⟨_, debug, h11, hdebug, rfl⟩ := Checked.seq_eq_valid_iff.mp hvalid
  obtain ⟨_, libcryptoPath, h10, hlibcrypto, rfl⟩ := Checked.seq_eq_valid_iff.mp h11
  obtain ⟨_, metadataFilename, h9, hmetadata, rfl⟩ := Checked.seq_eq_valid_iff.mp h10
  obtain ⟨_, headerDir, h8, hheader, rfl⟩ := Checked.seq_eq_valid_iff.mp h9
  obtain ⟨_, archiveSubdirs, h7, hsubdirs, rfl⟩ := Checked.seq_eq_valid_iff.mp h8
  obtain ⟨_, probeTimeout, h6, hprobe, rfl⟩ := Checked.seq_eq_valid_iff.mp h7
  obtain ⟨_, claimerMarker, h5, hmarker, rfl⟩ := Checked.seq_eq_valid_iff.mp h6
  obtain ⟨_, nmTool, h4, hnm, rfl⟩ := Checked.seq_eq_valid_iff.mp h5
  obtain ⟨_, compileTimeout, h3, hcompile, rfl⟩ := Checked.seq_eq_valid_iff.mp h4
  obtain ⟨_, buildJobs, h2, hjobs, rfl⟩ := Checked.seq_eq_valid_iff.mp h3
  obtain ⟨_, cmake, h1, hcmake, rfl⟩ := Checked.seq_eq_valid_iff.mp h2
  obtain ⟨cc, hcc, rfl⟩ := Checked.map_eq_valid_iff.mp h1
  exact {
    cc := (decided_of_textVariable hfields rfl (by decide) hcc).imp eq_getD_of_text
    cmake := (decided_of_textVariable hfields rfl (by decide) hcmake).imp eq_getD_of_text
    buildJobs := decided_jobs hfields hjobs
    compileTimeout := decided_of_noVariable hfields rfl (by decide) hcompile
    nmTool := (decided_of_textVariable hfields rfl (by decide) hnm).imp eq_getD_of_text
    claimerMarker := (decided_of_textVariable hfields rfl (by decide) hmarker).imp eq_getD_of_text
    probeTimeout := decided_of_noVariable hfields rfl (by decide) hprobe
    archiveSubdirs := decided_of_noVariable hfields rfl (by decide) hsubdirs
    headerDir := decided_of_noVariable hfields rfl (by decide) hheader
    metadataFilename := decided_of_noVariable hfields rfl (by decide) hmetadata
    libcryptoPath := (decided_of_textVariable hfields rfl (by decide) hlibcrypto).imp
      eq_of_optional_text
    debug := decided_debug hfields hdebug }

/-- A load that gives settings has adopted the files of variables, and reads the settings from the
environment that this leaves. -/
theorem load_eq_ok {overrides : Entries} {x : Settings} :
    perform (load overrides) around s = (.ok x, t) ↔
      ∃ u fields, perform adoptEnvFiles around s = (.ok u, t) ∧
        fieldsOf t.environment = .ok fields ∧
        ofEntries around.processors (override fields overrides) = .ok x := by
  rw [load]
  constructor
  · intro h
    obtain ⟨u, s₁, hadopt, hrest⟩ := perform_bind_eq_ok.mp h
    rw [perform_bind, perform_get] at hrest
    obtain ⟨fields, s₂, hfields, hrest'⟩ := perform_bind_eq_ok.mp hrest
    obtain ⟨hfields, rfl⟩ := perform_ofExcept_eq_ok.mp hfields
    rw [perform_bind, perform_read] at hrest'
    obtain ⟨hx, rfl⟩ := perform_ofExcept_eq_ok.mp hrest'
    exact ⟨u, fields, hadopt, hfields, hx⟩
  · rintro ⟨u, fields, hadopt, hfields, hx⟩
    refine perform_bind_eq_ok.mpr ⟨u, t, hadopt, ?_⟩
    refine perform_bind_eq_ok.mpr ⟨t, t, rfl, ?_⟩
    refine perform_bind_eq_ok.mpr ⟨fields, t, ?_, ?_⟩
    · exact perform_ofExcept_eq_ok.mpr ⟨hfields, rfl⟩
    · refine perform_bind_eq_ok.mpr ⟨around, t, rfl, ?_⟩
      exact perform_ofExcept_eq_ok.mpr ⟨hx, rfl⟩

/-- A load that comes first decides every field by its override, and else by its variable in the
first of the environment and the files of the project, the current directory and the home directory
that assigns it at all; an empty value stands for the default. The home directory is the one that
the environment says, or else the account's, and there is one. No variable that is set is changed,
and the rest of the session stays as it is. -/
theorem decides_of_first_load {overrides : Entries} {x : Settings} (hs : s.adopted = false)
    (h : perform (load overrides) around s = (.ok x, t)) :
    ∃ home, homeDirectory around s.environment = .ok home ∧
      Decides around.processors (firstValue? around home s) overrides x ∧
      (∀ name, t.environment.get? name = firstValue? around home s name) ∧
      (∀ name value, s.environment.get? name = some value →
        t.environment.get? name = some value) ∧
      t = { s with environment := t.environment, adopted := true } := by
  obtain ⟨_, fields, hadopt, hfields, hx⟩ := load_eq_ok.mp h
  obtain ⟨home, hhome, e, rfl, he⟩ := layers_of_adoptEnvFiles hs hadopt
  refine ⟨home, hhome, he ▸ decides_of_ofEntries hfields hx, fun name ↦ congrFun he name, ?_, rfl⟩
  intro name value hvalue
  show e.get? name = some value
  rw [he, firstValue?, firstAssigned, List.findSome?_cons, hvalue]

/-- Surroundings of a project in a directory of its own. -/
def sampleSurroundings : Surroundings where
  tools := ⟨fun _ _ ↦ .timedOut, fun _ _ files ↦ (.timedOut, files.tree)⟩
  clock := fun _ ↦ .zero
  now := ""
  processors := some 8
  project := .ofString "project"
  located := none
  loadable := []

/-- A session with a file of variables in each of the places where one is looked for, of which the
first two set the compiler, and with an empty variable in the environment. -/
def sampleSession : Session where
  files := (((⟨.empty, []⟩ : Workspace).plant (.ofString "project/.env")
      (.file (Utf8.encode "VENDORKIT_NM=llvm-nm\nVENDORKIT_CC=gcc\n"))).plant (.ofString ".env")
      (.file (Utf8.encode "VENDORKIT_CC=tcc\nVENDORKIT_JOBS= 4\n"))).plant (.ofString "home/.env")
      (.file (Utf8.encode "VENDORKIT_CMAKE=make\nVENDORKIT_DEBUG=Yes\n"))
  environment := ⟨[("HOME", "home"), ("VENDORKIT_NM", "")]⟩
  adopted := false
  host := .ofLibraries []
  readings := 0
  builds := 0
  calls := []
  console := []
  output := ""

/-- The first load of the sample session takes the compiler from the project's file, the number of
jobs from the current directory's, the flag from the home directory's, and the lister's default for
its empty variable. -/
theorem decides_of_sample_load : ∃ x t,
    sampleSession.adopted = false ∧
    perform (load [("cmake", .text "ninja")]) sampleSurroundings sampleSession = (.ok x, t) ∧
    x = ⟨"gcc", "ninja", 4, none, "nm", "register_claimer", none, ["crypto", "ssl"], "include",
      "vendor.toml", none, true⟩ ∧
    Decides (some 8) (firstValue? sampleSurroundings (.ofString "home") sampleSession)
      [("cmake", .text "ninja")] x ∧
    t.environment.get? "VENDORKIT_NM" = some "" := by
  have hgiven : (perform (load [("cmake", .text "ninja")]) sampleSurroundings
      sampleSession).1.toOption.any (· = ⟨"gcc", "ninja", 4, none, "nm", "register_claimer", none,
        ["crypto", "ssl"], "include", "vendor.toml", none, true⟩) = true := by
    decide +kernel
  obtain ⟨x, t, h, hx⟩ := exists_of_any_toOption hgiven
  obtain ⟨home, hhome, hdecides, _, hkeeps, _⟩ := decides_of_first_load rfl h
  have hsample : homeDirectory sampleSurroundings sampleSession.environment =
      .ok (.ofString "home") := by
    decide +kernel
  obtain rfl := Except.ok.inj (hhome.symm.trans hsample)
  exact ⟨x, t, rfl, h, of_decide_eq_true hx, hdecides, hkeeps "VENDORKIT_NM" "" (by decide)⟩

end Settings
end Vendoring
