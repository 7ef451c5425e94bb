import Mathlib.Data.List.Nodup
import Vendoring.Proofs.Session.Pairs
import Vendoring.Proofs.Settings.Processes

/-!
# Variables of overridden fields

Two loads with the same overrides, in environments that differ in nothing but the variables of
fields that are overridden. The variables are read all the same, and the number of jobs is read as
an integer before it is overridden, so the loads give the same exactly when their variables for it
have the same fault, or none. Files of variables keep the environments apart in no other variables,
unless they refer to one of those.
-/

namespace Vendoring

open Vendoring.Text Vendoring.Data Vendoring.Files Vendoring.Settings Vendoring.Tool
open Vendoring.Action

/-! ### Environments that agree but for some variables -/

namespace Settings.Environment

variable {names : List String} {e e' : Environment} {name : String}

/-- Two environments have the same variables but for some names. -/
def AgreeBut (names : List String) (e e' : Environment) : Prop :=
  ∀ name, name ∉ names → e.get? name = e'.get? name

namespace AgreeBut

/-- An environment agrees with itself. -/
theorem refl (names : List String) (e : Environment) : AgreeBut names e e := fun _ _ ↦ rfl

/-- Environments that agree still do when a variable is set in both. -/
theorem set (h : AgreeBut names e e') (name value : String) :
    AgreeBut names (e.set name value) (e'.set name value) := by
  intro other hother
  by_cases hname : other = name
  · subst hname
    rw [get?_set_self, get?_set_self]
  · rw [get?_set_of_ne e value hname, get?_set_of_ne e' value hname]
    exact h other hother

/-- Setting one of the variables that the environments may differ in makes no difference. -/
theorem set_left (h : AgreeBut names e e') (hname : name ∈ names) (value : String) :
    AgreeBut names (e.set name value) e' := by
  intro other hother
  rw [get?_set_of_ne e value (ne_of_mem_of_not_mem hname hother).symm]
  exact h other hother

/-- What one environment agrees with, the other does as well. -/
theorem symm (h : AgreeBut names e e') : AgreeBut names e' e :=
  fun name hname ↦ (h name hname).symm

/-- Adopting bindings keeps environments alike and fails in both or in none, if what is bound to the
variables that they may differ in can be put into an environment. -/
theorem adopt (h : AgreeBut names e e') {bindings : List EnvFile.Binding}
    (husable : ∀ name ∈ names, ∀ value, (name, some value) ∈ bindings →
      fault? name value = none) :
    (Environment.adopt bindings e).1 = (Environment.adopt bindings e').1 ∧
      AgreeBut names (Environment.adopt bindings e).2 (Environment.adopt bindings e').2 := by
  induction bindings generalizing e e' with
  | nil => exact ⟨rfl, h⟩
  | cons b rest ih =>
      have hrest : ∀ name ∈ names, ∀ value, (name, some value) ∈ rest →
          fault? name value = none :=
        fun name hname value hvalue ↦ husable name hname value (List.mem_cons_of_mem _ hvalue)
      obtain ⟨name, value | value⟩ := b
      · exact ih h hrest
      simp only [Environment.adopt]
      by_cases hname : name ∈ names
      · -- Each side sets the variable or leaves it, and they go on with environments that agree.
        rw [husable name hname value List.mem_cons_self]
        dsimp only
        split
        · split
          · exact ih h hrest
          · exact ih (h.symm.set_left hname value).symm hrest
        · split
          · exact ih (h.set_left hname value) hrest
          · exact ih (h.set name value) hrest
      · rw [h name hname]
        split
        · exact ih h hrest
        · cases fault? name value with
          | some fault => exact ⟨rfl, h⟩
          | none => exact ih (h.set name value) hrest

end AgreeBut
end Settings.Environment

/-! ### Files that do not refer to some variables -/

namespace Settings.EnvFile

/-- The names that the references in a value have. -/
def references (cs : List Char) : List String :=
  match cs with
  | [] => []
  | c :: rest =>
    if c = '$' ∧ rest.head? = some '\x7b' then
      match _h : reference? rest.tail with
      | some (name, _, after) => name :: references after
      | none => references rest
    else references rest
termination_by cs.length
decreasing_by
  · have := length_of_reference? _h
    simp only [List.length_tail, List.length_cons] at this ⊢
    omega
  · simp
  · simp

/-- A value is expanded to the same text by what gives the same for its references. -/
theorem expandValue_congr {f g : String → String → String} {cs : List Char}
    (h : ∀ name ∈ references cs, f name = g name) : expandValue f cs = expandValue g cs := by
  fun_induction references cs with
  | case1 => rw [expandValue, expandValue]
  | case2 c rest hopen name default after hname ih =>
      rw [expandValue, expandValue, if_pos hopen, if_pos hopen]
      split
      · next hname' =>
          cases hname.symm.trans hname'
          have hrest := ih fun other hother ↦ h other (List.mem_cons_of_mem _ hother)
          rw [h name List.mem_cons_self, hrest]
      · next hnone => cases hname.symm.trans hnone
  | case3 c rest hopen hname ih =>
      rw [expandValue, expandValue, if_pos hopen, if_pos hopen]
      split
      · next hname' => cases hname.symm.trans hname'
      · rw [ih h]
  | case4 c rest hopen ih => rw [expandValue, expandValue, if_neg hopen, if_neg hopen, ih h]

/-- A file refers to none of some variables, and what it assigns to one of them can be put into an
environment, whatever its references stand for. -/
structure Avoids (names : List String) (text : String) : Prop where
  refers : ∀ b ∈ parse text, ∀ value ∈ b.2, ∀ name ∈ references value.toList, name ∉ names
  usable : ∀ b ∈ parse text, b.1 ∈ names → ∀ value ∈ b.2, ∀ f : String → String → String,
    Environment.fault? b.1 (String.ofList (expandValue f value.toList)) = none

/-- A value without a dollar sign has no references. -/
theorem references_of_notMem {cs : List Char} (h : '$' ∉ cs) : references cs = [] := by
  induction cs with
  | nil => rw [references]
  | cons c rest ih =>
      have hc : c ≠ '$' := fun hc ↦ h (by simp [hc])
      rw [references, if_neg (by simp [hc]), ih fun hm ↦ h (List.mem_cons_of_mem _ hm)]

/-- A file without references avoids variables that it assigns usable values, if any. -/
theorem Avoids.of_plain {names : List String} {text : String}
    (hplain : ∀ b ∈ parse text, ∀ value ∈ b.2, '$' ∉ value.toList)
    (husable : ∀ b ∈ parse text, b.1 ∈ names → ∀ value ∈ b.2,
      Environment.fault? b.1 value = none) : Avoids names text where
  refers := by
    intro b hb value hvalue
    rw [references_of_notMem (hplain b hb value hvalue)]
    exact fun _ hnil ↦ absurd hnil List.not_mem_nil
  usable := by
    intro b hb hname value hvalue f
    rw [expandValue_of_notMem (hplain b hb value hvalue), String.ofList_toList]
    exact husable b hb hname value hvalue

/-- Bindings are expanded to the same by environments that agree on what they refer to. -/
theorem expand_congr {value? value?' : String → Option String} {bindings : List Binding}
    (h : ∀ b ∈ bindings, ∀ value ∈ b.2, ∀ name ∈ references value.toList,
      value? name = value?' name) :
    expand value? bindings = expand value?' bindings := by
  unfold expand
  refine List.foldl_ext _ _ [] fun before b hb ↦ ?_
  obtain ⟨name, value | value⟩ := b
  · rfl
  · have hvalue : expandValue (lookUp value? before) value.toList =
        expandValue (lookUp value?' before) value.toList := by
      refine expandValue_congr fun other hother ↦ ?_
      funext default
      rw [lookUp, lookUp, h _ hb value rfl other hother]
    show setBinding before name (some (String.ofList _)) = _
    rw [hvalue]
    rfl

private theorem mem_setBinding {bindings : List Binding} {name : String} {value : Option String}
    {b : Binding} (h : b ∈ setBinding bindings name value) : b = (name, value) ∨ b ∈ bindings := by
  induction bindings with
  | nil => exact .inl (List.mem_singleton.mp h)
  | cons c rest ih =>
      obtain ⟨n, v⟩ := c
      rw [setBinding] at h
      split at h
      · rcases List.mem_cons.mp h with h | h
        · exact .inl h
        · exact .inr (List.mem_cons_of_mem _ h)
      · rcases List.mem_cons.mp h with h | h
        · exact .inr (h ▸ List.mem_cons_self)
        · exact (ih h).imp_right (List.mem_cons_of_mem _)

/-- A value that is assigned in the end is one of those bound to its name, expanded. -/
theorem exists_of_mem_expand {value? : String → Option String} {bindings : List Binding}
    {name value : String} (h : (name, some value) ∈ expand value? bindings) :
    ∃ bound f, (name, some bound) ∈ bindings ∧
      value = String.ofList (expandValue f bound.toList) := by
  refine List.foldlRecOn (motive := fun before : List Binding ↦
    ∀ value, (name, some value) ∈ before → ∃ bound f, (name, some bound) ∈ bindings ∧
      value = String.ofList (expandValue f bound.toList)) bindings _
    (fun _ hnil ↦ absurd hnil List.not_mem_nil) ?_ value h
  rintro before hbefore ⟨n, bound⟩ hb value hvalue
  rcases mem_setBinding hvalue with heq | hmem
  · obtain ⟨rfl, hbound⟩ := Prod.mk.inj heq
    obtain ⟨bound, rfl, rfl⟩ := Option.map_eq_some_iff.mp hbound.symm
    exact ⟨bound, _, hb, rfl⟩
  · exact hbefore value hmem

end Settings.EnvFile

/-- Adopting a file that avoids the variables that environments may differ in keeps them alike, and
fails in both or in none. -/
theorem Settings.Environment.AgreeBut.adoptFile {names : List String} {e e' : Environment}
    (h : e.AgreeBut names e') {text : String} (havoids : EnvFile.Avoids names text) :
    (e.adoptFile text).1 = (e'.adoptFile text).1 ∧
      AgreeBut names (e.adoptFile text).2 (e'.adoptFile text).2 := by
  have hexpand : EnvFile.expand e.get? (EnvFile.parse text) =
      EnvFile.expand e'.get? (EnvFile.parse text) :=
    EnvFile.expand_congr fun b hb value hvalue name hname ↦
      h name (havoids.refers b hb value hvalue name hname)
  unfold Environment.adoptFile
  rw [← hexpand]
  refine h.adopt fun name hname value hvalue ↦ ?_
  obtain ⟨bound, f, hbound, rfl⟩ := EnvFile.exists_of_mem_expand hvalue
  exact havoids.usable _ hbound hname bound rfl f

/-! ### What is loaded from environments that agree -/

namespace Settings

/-- The variables that set fields, each with its field. -/
def fieldVariables : List (String × String) :=
  [("VENDORKIT_DEBUG", "debug"), ("VENDORKIT_JOBS", "build_jobs")] ++ textVariables

/-- The variables of the fields that overrides give. -/
def overriddenVariables (overrides : Entries) : List String :=
  (fieldVariables.filter fun v ↦ (given? overrides v.2).isSome).map Prod.fst

/-- Why the variable for the number of jobs is no integer, if it is set, not empty and none. -/
def jobsFault? (e : Environment) : Option IntegerError :=
  (nonempty? e "VENDORKIT_JOBS").bind fun text ↦
    match parseInt text with
    | .ok _ => none
    | .error fault => some fault

section
variable {names : List String} {e e' : Environment} {overrides : Entries} {field : String}
  {name : String}

/-- The variable of a field that is not overridden is none of those that are. -/
theorem notMem_overriddenVariables (hvariable : (name, field) ∈ fieldVariables)
    (h : given? overrides field = none) : name ∉ overriddenVariables overrides := by
  intro hname
  obtain ⟨⟨_, other⟩, hother, rfl⟩ := List.mem_map.mp hname
  obtain ⟨hmem, hgiven⟩ := List.mem_filter.mp hother
  have hnodup : (fieldVariables.map Prod.fst).Nodup := by decide
  have hfield : other = field :=
    congrArg Prod.snd (List.inj_on_of_nodup_map hnodup hmem hvariable rfl)
  rw [hfield, h] at hgiven
  cases hgiven

/-- An environment sets fields unless the number of jobs is at fault. -/
theorem fieldsOf_cases (e : Environment) :
    match jobsFault? e with
    | some fault => fieldsOf e = .error fault
    | none => ∃ fields, fieldsOf e = .ok fields := by
  unfold jobsFault? fieldsOf
  cases nonempty? e "VENDORKIT_JOBS" with
  | none => exact ⟨_, rfl⟩
  | some text =>
      rw [Option.bind_some]
      dsimp only
      cases parseInt text with
      | ok n => exact ⟨_, rfl⟩
      | error fault => rfl

/-- A field has the same value after overriding, whatever the variables of overridden fields are. -/
theorem get?_override_congr (h : e.AgreeBut (overriddenVariables overrides) e')
    {fields fields' : Entries} (hfields : fieldsOf e = .ok fields)
    (hfields' : fieldsOf e' = .ok fields') (field : String) :
    (override fields overrides).get? field = (override fields' overrides).get? field := by
  rw [get?_override, get?_override]
  cases hgiven : given? overrides field with
  | some value => rfl
  | none =>
      have hsame {name : String} (hvariable : (name, field) ∈ fieldVariables) :
          e.get? name = e'.get? name :=
        h name (notMem_overriddenVariables hvariable hgiven)
      have hnonempty {name : String} (hvariable : (name, field) ∈ fieldVariables) :
          nonempty? e name = nonempty? e' name := congrArg (Option.filter _) (hsame hvariable)
      show fields.get? field = fields'.get? field
      by_cases hdebug : field = "debug"
      · subst hdebug
        have hvariable : ("VENDORKIT_DEBUG", "debug") ∈ fieldVariables := by decide
        rw [get?_fieldsOf_debug hfields, get?_fieldsOf_debug hfields', isOn, isOn,
          hsame hvariable]
      by_cases hjobs : field = "build_jobs"
      · subst hjobs
        have hvariable : ("VENDORKIT_JOBS", "build_jobs") ∈ fieldVariables := by decide
        have hset := get?_fieldsOf_jobs hfields
        have hset' := get?_fieldsOf_jobs hfields'
        rw [← hnonempty hvariable] at hset'
        cases hvalue : nonempty? e "VENDORKIT_JOBS" with
        | none =>
            rw [hvalue] at hset hset'
            exact hset.trans hset'.symm
        | some text =>
            rw [hvalue] at hset hset'
            obtain ⟨n, hn, hset⟩ := hset
            obtain ⟨n', hn', hset'⟩ := hset'
            cases hn.symm.trans hn'
            exact hset.trans hset'.symm
      · have hother : field ∉ ["debug", "build_jobs"] := by simp [hdebug, hjobs]
        rw [get?_fieldsOf hfields hother, get?_fieldsOf hfields' hother]
        refine Option.bind_congr fun v hv ↦ ?_
        have hfield : v.2 = field := by simpa using List.find?_some hv
        have hvariable : (v.1, field) ∈ fieldVariables :=
          List.mem_append_right _ (hfield ▸ List.mem_of_find?_eq_some hv)
        rw [hnonempty hvariable]

/-- Reading settings looks at nothing but the values of fields. -/
theorem ofEntries_congr {processors : Option Int} {entries entries' : Entries}
    (h : ∀ field, entries.get? field = entries'.get? field) :
    ofEntries processors entries = ofEntries processors entries' := by
  unfold ofEntries ofFields Entries.withDefault
  simp only [h]

/-- Reading an environment is refused for an integer exactly when the number of jobs is at fault,
whether it is overridden or not. -/
theorem ofEnvironment_eq_integer_iff {processors : Option Int} {fault : IntegerError} :
    ofEnvironment processors e overrides = .error (.integer fault) ↔
      jobsFault? e = some fault := by
  have hcases := fieldsOf_cases e
  unfold ofEnvironment
  cases hfault : jobsFault? e with
  | some fault' =>
      rw [hfault] at hcases
      rw [hcases]
      show (Except.error (Failure.integer fault') : Except Failure Settings) = _ ↔ _
      simp
  | none =>
      rw [hfault] at hcases
      obtain ⟨fields, hfields⟩ := hcases
      rw [hfields]
      show (ofEntries processors (override fields overrides)).mapError Failure.fields = _ ↔ _
      cases ofEntries processors (override fields overrides) <;> simp [Except.mapError]

/-- Environments that differ in nothing but the variables of overridden fields give the same
settings, or are refused for the same reason, exactly when their variables for the number of jobs
have the same fault, or none. -/
theorem ofEnvironment_eq_iff (h : e.AgreeBut (overriddenVariables overrides) e')
    (processors : Option Int) :
    ofEnvironment processors e overrides = ofEnvironment processors e' overrides ↔
      jobsFault? e = jobsFault? e' := by
  constructor
  · intro heq
    refine Option.ext fun fault ↦ ?_
    rw [← ofEnvironment_eq_integer_iff, ← ofEnvironment_eq_integer_iff, heq]
  · intro heq
    have hcases := fieldsOf_cases e
    have hcases' := fieldsOf_cases e'
    rw [← heq] at hcases'
    unfold ofEnvironment
    cases hfault : jobsFault? e with
    | some fault =>
        rw [hfault] at hcases hcases'
        rw [hcases, hcases']
    | none =>
        rw [hfault] at hcases hcases'
        obtain ⟨fields, hfields⟩ := hcases
        obtain ⟨fields', hfields'⟩ := hcases'
        rw [hfields, hfields']
        exact congrArg (Except.mapError Failure.fields)
          (ofEntries_congr (get?_override_congr h hfields hfields'))

/-- Without an override for the number of jobs its variable is the same in both. -/
theorem jobsFault?_congr (h : e.AgreeBut (overriddenVariables overrides) e')
    (hjobs : given? overrides "build_jobs" = none) : jobsFault? e = jobsFault? e' := by
  have hvariable : ("VENDORKIT_JOBS", "build_jobs") ∈ fieldVariables := by decide
  unfold jobsFault? nonempty?
  rw [h _ (notMem_overriddenVariables hvariable hjobs)]

end
end Settings

/-! ### Sessions that differ in some variables -/

/-- Two runs of a tool differ at most in some variables of the environment that the tool gets. -/
structure Tool.Invocation.AgreeBut (names : List String) (run run' : Invocation) : Prop where
  words : run.words = run'.words
  timeout : run.timeout = run'.timeout
  environment : Option.Rel (Environment.AgreeBut names) run.environment run'.environment

/-- A run of a tool differs in nothing from itself. -/
theorem Tool.Invocation.AgreeBut.refl (names : List String) (run : Invocation) :
    run.AgreeBut names run := by
  refine ⟨rfl, rfl, ?_⟩
  cases run.environment with
  | none => exact .none
  | some e => exact .some (.refl names e)

/-- Two sessions differ at most in some variables of the environment and of the environments that
tools got. -/
def Session.AgreeBut (names : List String) (s t : Session) : Prop :=
  ∃ environment calls, t = { s with environment, calls } ∧
    s.environment.AgreeBut names environment ∧
    List.Forall₂ (Invocation.AgreeBut names) s.calls calls

/-- An action ends alike in two sessions, with the same value or failure, and the sessions that it
leaves differ at most in some variables. -/
def Action.AlikeBut {α : Type} (names : List String) (around : Surroundings) (a : Action α)
    (s t : Session) : Prop :=
  EndsAlike (Same (Session.AgreeBut names)) (Session.AgreeBut names) (perform a around s)
    (perform a around t)

namespace Settings

variable {names : List String} {around : Surroundings} {s t : Session}

/-- The texts of the files of variables that a session has; there are none to be found without a
home directory. -/
def envTexts (around : Surroundings) (s : Session) : List String :=
  ((envFiles around s.environment).toOption.getD []).filterMap (envText? s.files)

/-- Sessions with these files that differ at most in some variables. -/
private def AgreeWith (names : List String) (files : Workspace) (s t : Session) : Prop :=
  s.AgreeBut names t ∧ s.files = files

private theorem paired_adoptEnvFile {files : Workspace} {p : Path}
    (havoids : ∀ text, envText? files p = some text → EnvFile.Avoids names text) :
    Paired around around (AgreeWith names files) (Same (AgreeWith names files))
      (AgreeWith names files) (adoptEnvFile p) (adoptEnvFile p) := by
  rintro s _ ⟨⟨e', calls, rfl, he, hcalls⟩, rfl⟩
  rw [perform_adoptEnvFile, perform_adoptEnvFile]
  dsimp only
  rcases hfound : s.files.lookUp p with fault | _ | (bytes | _)
  · exact .error ⟨⟨e', calls, rfl, he, hcalls⟩, rfl⟩
  · exact .ok ⟨rfl, ⟨e', calls, rfl, he, hcalls⟩, rfl⟩
  · dsimp only
    cases htext : Utf8.decode bytes with
    | error fault => exact .error ⟨⟨e', calls, rfl, he, hcalls⟩, rfl⟩
    | ok text =>
        dsimp only
        have hread : envText? s.files p = some text := by
          rw [envText?, Workspace.content?, Workspace.find?_of_lookUp hfound, Option.bind_some,
            htext]
          rfl
        obtain ⟨hsame, hleft⟩ := he.adoptFile (havoids text hread)
        rw [← hsame]
        cases (s.environment.adoptFile text).1 with
        | ok _ => exact .ok ⟨rfl, ⟨_, _, rfl, hleft, hcalls⟩, rfl⟩
        | error fault => exact .error ⟨⟨_, _, rfl, hleft, hcalls⟩, rfl⟩
  · exact .ok ⟨rfl, ⟨e', calls, rfl, he, hcalls⟩, rfl⟩

/-- Sessions that differ in some variables adopt the files of variables alike if they have done so
already, or if the files avoid these variables. -/
theorem alikeBut_adoptEnvFiles (h : s.AgreeBut names t) (hhome : "HOME" ∉ names)
    (hfiles : s.adopted = true ∨ ∀ text ∈ envTexts around s, EnvFile.Avoids names text) :
    AlikeBut names around adoptEnvFiles s t := by
  suffices hpaired : Paired around around (fun u v ↦ u = s ∧ v = t)
      (Same (Session.AgreeBut names)) (Session.AgreeBut names) adoptEnvFiles adoptEnvFiles from
    hpaired s t ⟨rfl, rfl⟩
  have hwith : ∀ u v, u = s ∧ v = t → AgreeWith names s.files u v := by
    rintro _ _ ⟨rfl, rfl⟩
    exact ⟨h, rfl⟩
  have hagree : ∀ u v, AgreeWith names s.files u v → u.AgreeBut names v := fun _ _ huv ↦ huv.1
  obtain ⟨e', calls, rfl, he, _⟩ := h
  refine Paired.getBind fun u v huv ↦ ?_
  rw [huv.1, huv.2]
  dsimp only
  split
  · exact .pure fun u v huv ↦ ⟨rfl, (hwith u v huv).1⟩
  · next hs =>
      have havoids := hfiles.resolve_left hs
      have hpaths : envFiles around e' = envFiles around s.environment := by
        unfold envFiles homeDirectory
        rw [he "HOME" hhome]
      refine Paired.mono ?_ hwith (fun _ _ _ _ huv ↦ huv) hagree
      refine Paired.readBind ?_
      rw [hpaths]
      unfold envTexts at havoids
      refine Paired.ofExceptBind _ _ (fun _ _ huv ↦ huv) fun paths hgiven ↦ ?_
      rw [hgiven] at havoids
      refine (Paired.forIn _ _ fun p hp _ ↦ ?_).bindSame fun _ ↦ ?_
      · refine (paired_adoptEnvFile fun text htext ↦ ?_).bindSame fun _ ↦ .pureSame _
        exact havoids text (List.mem_filterMap.mpr ⟨p, hp, htext⟩)
      · rintro u _ ⟨⟨e₂, calls₂, rfl, he₂, hcalls₂⟩, _⟩
        exact .ok ⟨rfl, _, _, rfl, he₂, hcalls₂⟩

/-- The fault of the variable for the number of jobs that a load finds, if it gets to reading it. -/
def foundFault? (around : Surroundings) (s : Session) : Option IntegerError :=
  match perform adoptEnvFiles around s with
  | (.ok _, t) => jobsFault? t.environment
  | (.error _, _) => none

section
variable {overrides : Entries}

/-- Loads in sessions that adopt the files of variables alike, but for the variables of overridden
fields, give the same settings or fail for the same reason exactly when they find the same fault, or
none, in the variable for the number of jobs. -/
theorem load_eq_iff (h : AlikeBut (overriddenVariables overrides) around adoptEnvFiles s t) :
    (perform (load overrides) around s).1 = (perform (load overrides) around t).1 ↔
      foundFault? around s = foundFault? around t := by
  unfold AlikeBut at h
  unfold foundFault?
  rw [perform_load, perform_load]
  generalize perform adoptEnvFiles around s = p at h ⊢
  generalize perform adoptEnvFiles around t = q at h ⊢
  cases h with
  | ok hst =>
      obtain ⟨-, _, _, rfl, he, _⟩ := hst
      exact ofEnvironment_eq_iff he around.processors
  | error hst => exact iff_of_true rfl rfl

/-- They find the same fault if the number of jobs is not overridden. -/
theorem foundFault?_congr (h : AlikeBut (overriddenVariables overrides) around adoptEnvFiles s t)
    (hjobs : given? overrides "build_jobs" = none) :
    foundFault? around s = foundFault? around t := by
  unfold AlikeBut at h
  unfold foundFault?
  generalize perform adoptEnvFiles around s = p at h ⊢
  generalize perform adoptEnvFiles around t = q at h ⊢
  cases h with
  | ok hst =>
      obtain ⟨-, _, _, rfl, he, _⟩ := hst
      exact jobsFault?_congr he hjobs
  | error hst => rfl

/-- Loads that give the same leave sessions that still differ in the same variables at most. -/
theorem alikeBut_load (h : AlikeBut (overriddenVariables overrides) around adoptEnvFiles s t)
    (hfault : foundFault? around s = foundFault? around t) :
    AlikeBut (overriddenVariables overrides) around (load overrides) s t := by
  have hsame := (load_eq_iff h).mpr hfault
  unfold AlikeBut at h ⊢
  rw [perform_load, perform_load] at hsame ⊢
  generalize perform adoptEnvFiles around s = p at h hsame ⊢
  generalize perform adoptEnvFiles around t = q at h hsame ⊢
  cases h with
  | error hst => exact .error hst
  | ok hst =>
      obtain ⟨-, hst⟩ := hst
      dsimp only at hsame ⊢
      rw [← hsame]
      cases ofEnvironment around.processors _ overrides with
      | ok x => exact .ok ⟨rfl, hst⟩
      | error e => exact .error hst

end
end Settings
end Vendoring
