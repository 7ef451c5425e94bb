import Mathlib.Data.Set.List
import Vendoring.Proofs.Provenance.Storage
import Vendoring.Proofs.Settings.Processes

/-!
# Emitting a record

The command that emits the record of a description prints the record's document, or writes it to a
file if a directory is given. Both ways have the same document, which the record is read back from,
and both refuse a description with a word that is no tag before they do anything. Every description
is asked for by the words of its options, which may stand in any order.
-/

namespace Vendoring.CommandLine

open Vendoring.Text Vendoring.Data Vendoring.Files Vendoring.Instrumentation Vendoring.Provenance
open Vendoring.Build
open Vendoring.Action

/-! ### Words that name tags -/

/-- The tag that a word names. -/
def tagOfWord (word : String) : Except UsageError Tag :=
  match Tag.ofName? word with
  | some t => .ok t
  | none => .error (.unknownTag word)

/-- Words are looked up one after the other. -/
theorem tagsOfWords_eq (words : List String) :
    tagsOfWords words = TagSet.ofList <$> words.mapM tagOfWord := rfl

/-- The tags that names give come before those of the words that follow. -/
theorem mapM_tagOfWord_names (tags : List Tag) (words : List String) :
    (tags.map Tag.name ++ words).mapM tagOfWord = (tags ++ ·) <$> words.mapM tagOfWord := by
  induction tags with
  | nil =>
      rw [List.map_nil, List.nil_append]
      cases words.mapM tagOfWord <;> rfl
  | cons t tags ih =>
      rw [List.map_cons, List.cons_append, List.mapM_cons, ih, tagOfWord, Tag.ofName?_name]
      cases words.mapM tagOfWord <;> rfl

/-- Names of tags give the set of these tags. -/
theorem tagsOfWords_names (tags : List Tag) :
    tagsOfWords (tags.map Tag.name) = .ok (.ofList tags) := by
  have hnames := mapM_tagOfWord_names tags []
  rw [List.append_nil, List.mapM_nil] at hnames
  rw [tagsOfWords_eq, hnames]
  show Except.ok (TagSet.ofList (tags ++ [])) = _
  rw [List.append_nil]

/-- After names of tags, the first word that names none is refused. -/
theorem tagsOfWords_unknown (tags : List Tag) {word : String} (h : word ∉ Tag.names)
    (after : List String) :
    tagsOfWords (tags.map Tag.name ++ word :: after) = .error (.unknownTag word) := by
  have hnone : Tag.ofName? word = none := by
    rw [Option.eq_none_iff_forall_ne_some]
    intro t ht
    rw [Tag.ofName?_eq_some_iff] at ht
    exact h (ht ▸ List.mem_map_of_mem (Tag.mem_all t))
  rw [tagsOfWords_eq, mapM_tagOfWord_names, List.mapM_cons, tagOfWord, hnone]
  rfl

/-- Words that all name tags are the names of some tags. -/
theorem exists_tags {words : List String} (h : ∀ word ∈ words, word ∈ Tag.names) :
    ∃ tags : List Tag, words = tags.map Tag.name := by
  have hrange : words ∈ Set.range (List.map Tag.name) := by
    rw [Set.range_list_map]
    intro word hword
    obtain ⟨t, _, ht⟩ := List.mem_map.mp (h word hword)
    exact ⟨t, ht⟩
  obtain ⟨tags, htags⟩ := hrange
  exact ⟨tags, htags.symm⟩

/-! ### Words that ask for a description -/

/-- Options with their values, as the words of a command line. -/
def optionWords (given : List (OptionSpec × String)) : List String :=
  given.flatMap fun (o, value) ↦ [o.long, value]

/-- The values given to an option, in order. -/
def valuesGiven (o : OptionSpec) (given : List (OptionSpec × String)) : List String :=
  given.filterMap fun (p, value) ↦ if p = o then some value else none

/-- Options give a description: the last library name and the last version count, and the words for
tags and the identifiers stand in the order in which they are given. -/
structure Description.GivenBy (d : Description) (given : List (OptionSpec × String)) : Prop where
  options : ∀ o ∈ given, o.1 ∈ descriptionOptions
  libname : (valuesGiven Options.libname given).getLast? = some d.libname
  version : (valuesGiven Options.version given).getLast? = some d.version
  tags : valuesGiven Options.instrumentation given = d.tags
  known : valuesGiven Options.known given = d.known
  fixed : valuesGiven Options.fixed given = d.fixed

/-- The options of a description, one after the other. -/
def Description.options (d : Description) : List (OptionSpec × String) :=
  [(Options.libname, [d.libname]), (Options.version, [d.version]),
    (Options.instrumentation, d.tags), (Options.known, d.known), (Options.fixed, d.fixed)].flatMap
      fun (o, values) ↦ values.map (o, ·)

section
variable {given given' : List (OptionSpec × String)} {o p : OptionSpec} {d : Description}

private theorem valuesGiven_append :
    valuesGiven o (given ++ given') = valuesGiven o given ++ valuesGiven o given' :=
  List.filterMap_append

private theorem valuesGiven_map (values : List String) :
    valuesGiven o (values.map (p, ·)) = if p = o then values else [] := by
  unfold valuesGiven
  rw [List.filterMap_map]
  by_cases h : p = o
  · simp [h]
  · simp [h]

/-- Every description is given by its options. -/
theorem Description.givenBy_options (d : Description) : d.GivenBy d.options := by
  have hvalues (o : OptionSpec) : valuesGiven o d.options =
      (if Options.libname = o then [d.libname] else []) ++
        ((if Options.version = o then [d.version] else []) ++
          ((if Options.instrumentation = o then d.tags else []) ++
            ((if Options.known = o then d.known else []) ++
              if Options.fixed = o then d.fixed else []))) := by
    simp only [options, List.flatMap_cons, List.flatMap_nil, List.append_nil, valuesGiven_append,
      valuesGiven_map]
  constructor
  case options =>
    intro o ho
    obtain ⟨⟨p, values⟩, hp, hvalue⟩ := List.mem_flatMap.mp ho
    obtain ⟨value, _, rfl⟩ := List.mem_map.mp hvalue
    exact List.mem_map_of_mem (f := Prod.fst) hp
  case libname => simp +decide [hvalues]
  case version => simp +decide [hvalues]
  case tags => simp +decide [hvalues]
  case known => simp +decide [hvalues]
  case fixed => simp +decide [hvalues]

/-- Options of descriptions are read with the values that follow them, whatever these are. -/
theorem readWords_optionWords (h : ∀ o ∈ given, o.1 ∈ descriptionOptions) {rest : List String}
    {items : List Item} (hrest : readWords descriptionOptions rest = .ok items) :
    readWords descriptionOptions (optionWords given ++ rest) =
      .ok ((given.map fun (o, value) ↦ Item.value o value) ++ items) := by
  have hopen : ∀ o ∈ descriptionOptions, o.long ≠ "--" ∧ o.takesValue = true ∧
      opening? descriptionOptions o.long = some ⟨o.long, none, some o⟩ := by
    decide +kernel
  induction given with
  | nil => exact hrest
  | cons first given ih =>
      obtain ⟨o, value⟩ := first
      obtain ⟨hdashes, hvalue, hopening⟩ := hopen o (h _ List.mem_cons_self)
      have ih := ih fun o ho ↦ h o (List.mem_cons_of_mem _ ho)
      show readWords descriptionOptions (o.long :: value :: (optionWords given ++ rest)) = _
      rw [readWords, if_neg hdashes, hopening]
      dsimp only
      rw [if_pos hvalue, ih]
      rfl

/-- What options with their values and plain words after them mean. -/
def itemsOf (given : List (OptionSpec × String)) (words : List String) : List Item :=
  (given.map fun (o, value) ↦ .value o value) ++ words.map .plain

private theorem valuesOf_itemsOf (o : OptionSpec) (words : List String) :
    valuesOf o (itemsOf given words) = valuesGiven o given := by
  have hplain : valuesOf o (words.map .plain) = [] := by
    unfold valuesOf
    rw [List.filterMap_map, List.filterMap_eq_nil_iff]
    intro _ _
    rfl
  unfold valuesOf itemsOf at *
  rw [List.filterMap_append, hplain, List.append_nil, List.filterMap_map]
  rfl

private theorem plainWords_itemsOf (words : List String) :
    plainWords (itemsOf given words) = words := by
  unfold plainWords itemsOf
  rw [List.filterMap_append, List.filterMap_map, List.filterMap_map,
    List.filterMap_eq_nil_iff.mpr, List.nil_append]
  · exact List.filterMap_some
  · intro _ _
    rfl

/-- The description that options give is read from them. -/
theorem description_itemsOf (h : d.GivenBy given) (words : List String) :
    description (itemsOf given words) = .ok d := by
  unfold description requiredValue valueOf?
  simp only [valuesOf_itemsOf, h.libname, h.version, h.tags, h.known, h.fixed]
  rfl

/-- The words of options that give a description ask for its record to be printed, and with a
directory after two dashes for its record to be written there. -/
theorem read_metadata (integers : String → Checked Int) (h : d.GivenBy given) :
    Command.read integers ("metadata" :: optionWords given) = .ok (.metadata none d) ∧
      ∀ directory, Command.read integers ("metadata" :: (optionWords given ++ ["--", directory])) =
        .ok (.metadata (some (.ofString directory)) d) := by
  have hread (rest words : List String)
      (hrest : readWords descriptionOptions rest = .ok (words.map .plain))
      (hone : words.drop 1 = []) :
      Command.read integers ("metadata" :: (optionWords given ++ rest)) =
        .ok (.metadata (words.head?.map Path.ofString) d) := by
    have hwords : readWords descriptionOptions (optionWords given ++ rest) =
        .ok (itemsOf given words) := readWords_optionWords h.options hrest
    show readMetadata (optionWords given ++ rest) = _
    unfold readMetadata noMoreThan
    rw [hwords]
    dsimp only [bind, Except.bind]
    rw [description_itemsOf h, plainWords_itemsOf, hone]
    rfl
  constructor
  · have hnone := hread [] [] rfl rfl
    rwa [List.append_nil] at hnone
  · intro directory
    exact hread ["--", directory] [directory] rfl rfl

end

/-! ### Loading the settings -/

/-- Loading settings leaves the standard output as it is. -/
theorem within_load (overrides : Entries) : Within .sameOutput (Settings.load overrides) := by
  have hfile (p : Path) : Within .sameOutput (Settings.adoptEnvFile p) := by
    intro around s
    rw [Settings.perform_adoptEnvFile]
    repeat' split
    all_goals rfl
  refine Within.bind ?_ fun _ ↦ Within.get.bind fun _ ↦ ?_
  · refine Within.get.bind fun s ↦ ?_
    split
    · exact .pure _
    · refine Within.read.bind fun _ ↦ (Within.ofExcept _ _).bind fun _ ↦ ?_
      refine Within.bind (.forIn (fun p _ ↦ (hfile p).bind fun _ ↦ .pure _) _ _) fun _ ↦ ?_
      exact fun _ _ ↦ rfl
  · exact (Within.ofExcept _ _).bind fun _ ↦ Within.read.bind fun _ ↦ .ofExcept _ _

/-- Settings that are loaded without overrides name the default file for records. -/
theorem metadataFilename_of_load {around : Surroundings} {s t : Session} {settings : Settings}
    (h : perform (settingsWith []) around s = (.ok settings, t)) :
    settings.metadataFilename = "vendor.toml" := by
  obtain ⟨_, fields, _, hfields, hread⟩ := Settings.load_eq_ok.mp h
  exact (Settings.decides_of_ofEntries hfields hread).metadataFilename

/-! ### The two ways to emit a record -/

/-- A description stands for a record: its words name the record's tags. -/
structure Description.Describes (d : Description) (r : Record) : Prop where
  libname : r.libname = d.libname
  version : r.version = d.version
  tags : ∀ t : Tag, t ∈ r.instrumentation ↔ t.name ∈ d.tags
  known : r.knownVulnerabilities = d.known
  fixed : r.fixedVulnerabilities = d.fixed

section
variable {around : Surroundings} {s t : Session} {d : Description}

/-- The settings can be loaded, and a text can then be written to the file for records in a
directory. -/
def CanWrite (around : Surroundings) (s : Session) (directory : Path) (text : String) : Prop :=
  ∃ settings loaded made written,
    perform (settingsWith []) around s = (.ok settings, loaded) ∧
    perform (makeDirectories directory) around loaded = (.ok (), made) ∧
    perform (writeText (directory.below settings.metadataFilename) text) around made =
      (.ok (), written)

/-- A text has been emitted into a directory, if it could be written there, and nothing has been
printed. The only thing that may then fail is to tell where the file is. -/
structure EmitsInto (around : Surroundings) (s : Session) (directory : Path) (text : String)
    (result : Except Failure Nat) (t : Session) : Prop where
  output : t.output = s.output
  canWrite : result = .ok 0 → CanWrite around s directory text
  content : CanWrite around s directory text →
    t.files.content? (directory.below "vendor.toml") = some (Utf8.encode text)
  completes : CanWrite around s directory text →
    result = .ok 0 ∨ ∃ e, result = .error (.markup e)

/-- Words that are read as a command run it. -/
theorem perform_run_of_read {words : List String} {c : Command}
    (h : Command.read around.integers words = .ok c) :
    perform (run words) around s = perform c.run around s := by
  rw [perform_run, h]

private theorem perform_discard_bind {α β : Type} (a : Action α) (f : Unit → Action β) :
    perform (discard a >>= f) around s = perform (a >>= fun _ ↦ f ()) around s := by
  have hdiscard : perform (discard a) around s = _ := perform_map (fun _ ↦ ()) a around s
  rw [perform_bind, perform_bind, hdiscard]
  rcases perform a around s with ⟨e | x, u⟩ <;> rfl

/-- With words that name tags, the record is written with the settings that are loaded. -/
theorem perform_runMetadata {tags : TagSet} (htags : tagsOfWords d.tags = .ok tags)
    (directory : Path) :
    perform (runMetadata (some directory) d) around s = perform (do
      let settings ← settingsWith []
      let _ ← writeRecord settings directory ⟨d.libname, d.version, tags, d.known, d.fixed⟩
      return 0) around s := by
  unfold runMetadata
  rw [perform_bind, perform_ofExcept, htags]
  dsimp only [Except.mapError]
  rw [perform_bind, perform_bind]
  rcases perform (settingsWith []) around s with ⟨e | settings, loaded⟩
  · rfl
  · exact perform_discard_bind _ _

/-- A record that can be written is written, and then told about. -/
theorem written_of_canWrite {directory : Path} {r : Record}
    (h : CanWrite around s directory r.render) :
    ∃ written, written.files.content? (directory.below "vendor.toml") =
        some (Utf8.encode r.render) ∧
      perform (do
        let settings ← settingsWith []
        let _ ← writeRecord settings directory r
        return 0) around s = perform (do
          say ("  [dim]Vendor metadata written: " ++ (directory.below "vendor.toml").text ++ "[/]")
          return 0) around written := by
  obtain ⟨settings, loaded, made, written, hload, hmade, hwritten⟩ := h
  rw [metadataFilename_of_load hload] at hwritten
  refine ⟨written, content?_writeText hwritten, ?_⟩
  rw [perform_bind, hload]
  dsimp only
  unfold writeRecord
  rw [bind_assoc, perform_bind, hmade]
  dsimp only
  rw [bind_assoc, metadataFilename_of_load hload, perform_bind, hwritten]
  dsimp only
  rw [bind_assoc]
  rfl

/-- The record of a description is emitted into the directory given. -/
theorem emitsInto_runMetadata {tags : TagSet} (htags : tagsOfWords d.tags = .ok tags)
    {directory : Path} {result : Except Failure Nat}
    (h : perform (runMetadata (some directory) d) around s = (result, t)) :
    EmitsInto around s directory (Record.render ⟨d.libname, d.version, tags, d.known, d.fixed⟩)
      result t := by
  rw [perform_runMetadata htags] at h
  constructor
  case output =>
    refine Within.holds (F := .sameOutput) ?_ h
    refine Within.bind (within_load _) fun settings ↦ ?_
    exact (within_writeRecord Frame.leavesTreeOpen_sameOutput _ _).bind fun _ ↦ .pure _
  case canWrite =>
    rintro rfl
    obtain ⟨settings, loaded, hload, h⟩ := perform_bind_eq_ok.mp h
    obtain ⟨_, _, hwrite, _⟩ := perform_bind_eq_ok.mp h
    obtain ⟨_, made, hmade, hwrite⟩ := perform_bind_eq_ok.mp hwrite
    obtain ⟨_, written, hwritten, _⟩ := perform_bind_eq_ok.mp hwrite
    exact ⟨settings, loaded, made, written, hload, hmade, hwritten⟩
  case content =>
    intro hwrite
    obtain ⟨written, hcontent, hsaid⟩ := written_of_canWrite hwrite
    rw [hsaid] at h
    have hfiles : t.files = written.files :=
      Within.holds (F := .sameFiles) ((Within.say _).bind fun _ ↦ .pure 0) h
    rw [hfiles]
    exact hcontent
  case completes =>
    intro hwrite
    obtain ⟨written, _, hsaid⟩ := written_of_canWrite hwrite
    rw [hsaid, perform_bind, perform_say] at h
    split at h
    · next hshown =>
        split at hshown
        · exact .inl (congrArg Prod.fst h).symm
        · cases hshown
    · next hshown =>
        split at hshown
        · cases hshown
        · cases hshown
          exact .inr ⟨_, (congrArg Prod.fst h).symm⟩

/-- Whoever asks for the record of a description, in whatever words, gets its document: printed, or
in the file if a directory is given and can be written to. The document holds the record, with the
tags that the words name and the identifiers in their order. If a word names no tag, the first such
word is refused either way, and the session stays as it is. -/
theorem emissions_agree (d : Description) (around : Surroundings) (s : Session) :
    ((∀ word ∈ d.tags, word ∈ Tag.names) →
      ∃ r : Record, d.Describes r ∧ Record.parse r.render = .ok r ∧
        (∀ words, Command.read around.integers words = .ok (.metadata none d) →
          perform (run words) around s = (.ok 0, { s with output := s.output ++ r.render })) ∧
        ∀ words directory,
          Command.read around.integers words = .ok (.metadata (some directory) d) →
          ∀ result t, perform (run words) around s = (result, t) →
            EmitsInto around s directory r.render result t) ∧
    (∀ before word after, d.tags = before ++ word :: after → (∀ w ∈ before, w ∈ Tag.names) →
      word ∉ Tag.names → ∀ words destination,
        Command.read around.integers words = .ok (.metadata destination d) →
        perform (run words) around s = (.error (.usage (.unknownTag word)), s)) ∧
    ∀ given, d.GivenBy given →
      Command.read around.integers ("metadata" :: optionWords given) = .ok (.metadata none d) ∧
        ∀ directory,
          Command.read around.integers ("metadata" :: (optionWords given ++ ["--", directory])) =
            .ok (.metadata (some (.ofString directory)) d) := by
  refine ⟨?_, ?_, fun given hgiven ↦ read_metadata _ hgiven⟩
  · intro hnames
    obtain ⟨tags, hwords⟩ := exists_tags hnames
    have htags : tagsOfWords d.tags = .ok (.ofList tags) := by
      rw [hwords]
      exact tagsOfWords_names tags
    refine ⟨⟨d.libname, d.version, .ofList tags, d.known, d.fixed⟩, ?_, Record.parse_render _, ?_,
      ?_⟩
    · refine ⟨rfl, rfl, fun t ↦ ?_, rfl, rfl⟩
      rw [hwords, TagSet.mem_ofList, List.mem_map]
      simp only [Tag.name_inj, exists_eq_right]
    · intro words hread
      rw [perform_run_of_read hread]
      show perform (runMetadata none d) around s = _
      unfold runMetadata
      rw [perform_bind, perform_ofExcept, htags]
      rfl
    · intro words directory hread result t h
      rw [perform_run_of_read hread] at h
      exact emitsInto_runMetadata htags h
  · intro before word after hsplit hbefore hword words destination hread
    obtain ⟨tags, rfl⟩ := exists_tags hbefore
    rw [perform_run_of_read hread]
    show perform (runMetadata destination d) around s = _
    unfold runMetadata
    rw [perform_bind, perform_ofExcept, hsplit, tagsOfWords_unknown tags hword]
    rfl

end

/-- A description whose words name one of its two tags twice, and not in canonical order. -/
def sampleDescription : Description :=
  ⟨"openssl", "3.0.13", ["claimer", "sancov", "claimer"], ["CVE-2", "CVE-1"], []⟩

/-- The document of the sample description is printed without a directory and stands in the file if
there is one, and with a word that names no tag neither happens. -/
theorem sample_emissions_agree :
    ∃ (r : Record) (t : Session), sampleDescription.Describes r ∧
      r.render = "libname = \"openssl\"\nversion = \"3.0.13\"\n" ++
        "instrumentation = [\"sancov\", \"claimer\"]\n" ++
        "known_vulnerabilities = [\"CVE-2\", \"CVE-1\"]\nfixed_vulnerabilities = []\n" ∧
      perform (run ("metadata" :: (optionWords sampleDescription.options ++ ["--", "out"])))
        Settings.sampleSurroundings Settings.sampleSession = (.ok 0, t) ∧
      t.files.content? ((Path.ofString "out").below "vendor.toml") =
        some (Utf8.encode r.render) ∧
      perform (run ["metadata", "--libname", "a", "--version", "1", "-i", "asan", "-i", "tsan"])
        Settings.sampleSurroundings Settings.sampleSession =
          (.error (.usage (.unknownTag "tsan")), Settings.sampleSession) := by
  obtain ⟨hemits, _, hwords⟩ :=
    emissions_agree sampleDescription Settings.sampleSurroundings Settings.sampleSession
  obtain ⟨r, hr, _, hprinted, hwritten⟩ := hemits (by decide)
  obtain ⟨hprint, hwrite⟩ := hwords _ sampleDescription.givenBy_options
  have hrun : ∃ t, perform (run ("metadata" ::
      (optionWords sampleDescription.options ++ ["--", "out"])))
      Settings.sampleSurroundings Settings.sampleSession = (.ok 0, t) :=
    exists_of_toOption (by decide +kernel)
  obtain ⟨t, hrun⟩ := hrun
  have hshown := congrArg (·.2.output) (hprinted _ hprint)
  have hinto := hwritten _ _ (hwrite "out") _ _ hrun
  obtain ⟨_, hrefused, _⟩ := emissions_agree ⟨"a", "1", ["asan", "tsan"], [], []⟩
    Settings.sampleSurroundings Settings.sampleSession
  refine ⟨r, t, hr, ?_, hrun, hinto.content (hinto.canWrite rfl), ?_⟩
  · refine Eq.trans ?_ (hshown.symm.trans (by decide +kernel))
    exact (String.empty_append).symm
  · exact hrefused ["asan"] "tsan" [] rfl (by decide) (by decide) _ none (by decide +kernel)

end Vendoring.CommandLine
