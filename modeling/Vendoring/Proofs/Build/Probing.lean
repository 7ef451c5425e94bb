import Vendoring.Proofs.Build.Runs
import Vendoring.Proofs.Build.Scanning

/-!
# The account of a scan

A scan runs the symbol tool once on each archive of a directory in order, up to and including the
first for which the tool is not there, and its result accounts for every archive that it has run the
tool on: the archive was matched, or could not be listed, or was listed without the marker. A scan
ends without a result when the directory is refused, and then nothing is run, or with a run that
cannot even be tried or waited for, and then nothing is run after it.
-/

namespace Vendoring.Build

open Vendoring.Text Vendoring.Files Vendoring.Tool
open Vendoring.Action

/-! ### What is to be told -/

/-- What a scan tells of an archive that could not be listed. -/
def faultNote (settings : Settings) (archive : Path) : ScanFault → String
  | .notStarted _ .notFound => settings.nmTool ++ " not found"
  | fault => archive.name ++ ": " ++ fault.message

section Account

variable (settings : Settings) (around : Surroundings) (w : Workspace)

/-- The position of the first archive of a list for which the symbol tool is not there. -/
def missingAt? (archives : List Path) : Option Nat :=
  archives.findIdx? fun archive ↦ listed settings around w archive = .notStarted .notFound

/-- The archives of a list up to and including the first for which the symbol tool is not there. -/
def scannedIn (archives : List Path) : List Path :=
  match missingAt? settings around w archives with
  | some k => archives.take (k + 1)
  | none => archives

/-- Why the symbols of an archive could not be listed, if they could not. -/
def faultOf? (archive : Path) : Option ScanFault :=
  match listed settings around w archive with
  | .exited status _ _ =>
    if status = 0 then none else some (.failed (listing settings archive).words status)
  | .notStarted fault => some (.notStarted settings.nmTool fault)
  | .timedOut => some (.timedOut (listing settings archive).words settings.probeTimeout)
  | _ => none

/-- What stops a scan at an archive: a run that is not tried, or one that cannot be waited for. -/
def stopOf? (archive : Path) : Option Failure :=
  match listed settings around w archive with
  | .refused => some .nullByte
  | .unwaitable wording => some (.integer (.outOfRange wording))
  | _ => none

/-- Whether the listing of an archive exits with zero and does not hold the marker. -/
def lacksMarker (archive : Path) : Bool :=
  match listed settings around w archive with
  | .exited status output _ => status = 0 && !isInfixOf (Utf8.encode settings.claimerMarker) output
  | _ => false

/-- What a scan tells once it has run the symbol tool on an archive. -/
def Probe.tell (p : Probe) (archive : Path) : Probe :=
  { p with
    archivesScanned := p.archivesScanned ++ [archive.text]
    archivesMatched := p.archivesMatched ++
      if carriesMarker settings around w archive then [archive.text] else []
    toolAvailable := p.toolAvailable && listed settings around w archive ≠ .notStarted .notFound
    errors := p.errors ++
      ((faultOf? settings around w archive).map (faultNote settings archive)).toList }

/-- Exactly one part of an account is the place of each archive at which a scan does not stop. -/
theorem finding_cases {archive : Path} (h : stopOf? settings around w archive = none) :
    (carriesMarker settings around w archive = true ∧ faultOf? settings around w archive = none ∧
      lacksMarker settings around w archive = false) ∨
    (carriesMarker settings around w archive = false ∧
      (faultOf? settings around w archive).isSome = true ∧
      lacksMarker settings around w archive = false) ∨
    (carriesMarker settings around w archive = false ∧ faultOf? settings around w archive = none ∧
      lacksMarker settings around w archive = true) := by
  unfold stopOf? at h
  unfold carriesMarker faultOf? lacksMarker
  cases hlisted : listed settings around w archive with
  | exited status output errors =>
      dsimp only
      by_cases hstatus : status = 0
      · cases isInfixOf (Utf8.encode settings.claimerMarker) output with
        | true => simp [hstatus]
        | false => simp [hstatus]
      · simp [hstatus]
  | notStarted fault => simp
  | timedOut => simp
  | refused =>
      rw [hlisted] at h
      cases h
  | unwaitable wording =>
      rw [hlisted] at h
      cases h

end Account

/-! ### Scanning one archive after the other -/

section Scan

variable {settings : Settings} {around : Surroundings} {s : Session} {p : Probe} {archive : Path}
  {rest : List Path}

/-- A scan ends with a run that stops it. -/
theorem perform_scanFrom_of_stop {e : Failure}
    (h : stopOf? settings around s.files archive = some e) :
    perform (scanFrom settings p (archive :: rest)) around s =
      (.error e, { s with calls := s.calls ++ [listing settings archive] }) := by
  rw [scanFrom, perform_bind, perform_listSymbols]
  unfold stopOf? at h
  cases hlisted : listed settings around s.files archive with
  | refused =>
      rw [hlisted] at h
      cases h
      rfl
  | unwaitable wording =>
      rw [hlisted] at h
      cases h
      rfl
  | exited status output errors =>
      rw [hlisted] at h
      cases h
  | notStarted fault =>
      rw [hlisted] at h
      cases h
  | timedOut =>
      rw [hlisted] at h
      cases h

/-- A scan ends with the first archive for which the symbol tool is not there. -/
theorem perform_scanFrom_of_missing
    (h : listed settings around s.files archive = .notStarted .notFound) :
    ∃ console, perform (scanFrom settings p (archive :: rest)) around s =
      (.ok (p.tell settings around s.files archive),
        { s with calls := s.calls ++ [listing settings archive], console }) := by
  have htell : p.tell settings around s.files archive =
      { p with
        archivesScanned := p.archivesScanned ++ [archive.text]
        toolAvailable := false
        errors := p.errors ++ [settings.nmTool ++ " not found"] } := by
    simp [Probe.tell, carriesMarker, faultOf?, h, faultNote]
  rw [scanFrom, perform_bind, perform_listSymbols, h, htell]
  exact perform_debug_bind ..

/-- After any other run a scan goes on with the rest. -/
theorem perform_scanFrom_cons (rest : List Path) (hmarker : p.marker = settings.claimerMarker)
    (hgoes : stopOf? settings around s.files archive = none)
    (hmissing : listed settings around s.files archive ≠ .notStarted .notFound) :
    ∃ console, perform (scanFrom settings p (archive :: rest)) around s =
      perform (scanFrom settings (p.tell settings around s.files archive) rest) around
        { s with calls := s.calls ++ [listing settings archive], console } := by
  have htell : p.tell settings around s.files archive =
      { p with
        archivesScanned := p.archivesScanned ++ [archive.text]
        archivesMatched := p.archivesMatched ++
          if carriesMarker settings around s.files archive then [archive.text] else []
        errors := p.errors ++ ((faultOf? settings around s.files archive).map
          (faultNote settings archive)).toList } := by
    simp [Probe.tell, hmissing]
  rw [scanFrom, perform_bind, perform_listSymbols, htell]
  unfold stopOf? at hgoes
  unfold carriesMarker faultOf?
  cases hlisted : listed settings around s.files archive with
  | exited status output errors =>
      dsimp only
      by_cases hstatus : status = 0
      · rw [if_pos hstatus, if_pos hstatus, ← hmarker]
        refine ⟨s.console, ?_⟩
        by_cases hin : isInfixOf (Utf8.encode p.marker) output = true
        · simp [hin, hstatus]
        · simp [hin]
      · rw [if_neg hstatus, if_neg hstatus]
        simpa [hstatus, faultNote] using perform_debug_bind ..
  | notStarted fault =>
      cases fault with
      | notFound => exact absurd hlisted hmissing
      | notPermitted => simpa [faultNote] using perform_debug_bind ..
      | notExecutable => simpa [faultNote] using perform_debug_bind ..
      | other wording => simpa [faultNote] using perform_debug_bind ..
  | timedOut => simpa [faultNote] using perform_debug_bind ..
  | refused =>
      rw [hlisted] at hgoes
      cases hgoes
  | unwaitable wording =>
      rw [hlisted] at hgoes
      cases hgoes

/-- A scan stops with the first archive that is missing its tool. -/
theorem scannedIn_of_missing {w : Workspace}
    (h : listed settings around w archive = .notStarted .notFound) :
    scannedIn settings around w (archive :: rest) = [archive] := by
  simp [scannedIn, missingAt?, List.findIdx?_cons, h]

/-- A scan goes on behind an archive for which the symbol tool is there. -/
theorem scannedIn_cons {w : Workspace}
    (h : listed settings around w archive ≠ .notStarted .notFound) :
    scannedIn settings around w (archive :: rest) =
      archive :: scannedIn settings around w rest := by
  unfold scannedIn missingAt?
  rw [List.findIdx?_cons, if_neg (by simpa using h)]
  cases rest.findIdx? fun archive ↦ listed settings around w archive = .notStarted .notFound with
  | none => rfl
  | some k => rfl

/-- A scan gets to an archive if the symbol tool is there for each archive before. -/
theorem mem_scannedIn_append_cons {w : Workspace} {before : List Path}
    (h : ∀ other ∈ before, listed settings around w other ≠ .notStarted .notFound) :
    archive ∈ scannedIn settings around w (before ++ archive :: rest) := by
  induction before with
  | nil =>
      by_cases hmissing : listed settings around w archive = .notStarted .notFound
      · rw [List.nil_append, scannedIn_of_missing hmissing]
        exact List.mem_cons_self
      · rw [List.nil_append, scannedIn_cons hmissing]
        exact List.mem_cons_self
  | cons other before ih =>
      rw [List.cons_append, scannedIn_cons (h other List.mem_cons_self)]
      exact List.mem_cons_of_mem _ (ih fun other hother ↦ h other (List.mem_cons_of_mem _ hother))

/-- A scan that no run stops tells of one archive after the other, and has run the symbol
tool once on each of them. -/
theorem perform_scanFrom (archives : List Path) (hmarker : p.marker = settings.claimerMarker)
    (h : ∀ archive ∈ scannedIn settings around s.files archives,
      stopOf? settings around s.files archive = none) :
    ∃ console, perform (scanFrom settings p archives) around s =
      (.ok ((scannedIn settings around s.files archives).foldl
          (Probe.tell settings around s.files) p),
        { s with
          calls := s.calls ++ (scannedIn settings around s.files archives).map (listing settings)
          console }) := by
  induction archives generalizing p s with
  | nil => exact ⟨s.console, by simp [scanFrom, scannedIn, missingAt?]⟩
  | cons archive rest ih =>
      by_cases hmissing : listed settings around s.files archive = .notStarted .notFound
      · rw [scannedIn_of_missing hmissing]
        exact perform_scanFrom_of_missing hmissing
      · rw [scannedIn_cons hmissing] at h ⊢
        obtain ⟨console, hfirst⟩ :=
          perform_scanFrom_cons rest hmarker (h archive List.mem_cons_self) hmissing
        obtain ⟨console', hrest⟩ := ih (p := p.tell settings around s.files archive)
          (s := { s with calls := s.calls ++ [listing settings archive], console }) hmarker
          fun other hother ↦ h other (List.mem_cons_of_mem _ hother)
        refine ⟨console', ?_⟩
        rw [hfirst, hrest]
        simp

/-- A scan that a run stops ends with the first that does, and has run the symbol tool once on each
archive up to it. -/
theorem perform_scanFrom_of_mem_stop (archives : List Path)
    (hmarker : p.marker = settings.claimerMarker)
    (h : ∃ archive ∈ scannedIn settings around s.files archives,
      stopOf? settings around s.files archive ≠ none) :
    ∃ before archive after e console, archives = before ++ archive :: after ∧
      (∀ other ∈ before, stopOf? settings around s.files other = none ∧
        listed settings around s.files other ≠ .notStarted .notFound) ∧
      stopOf? settings around s.files archive = some e ∧
      perform (scanFrom settings p archives) around s =
        (.error e, { s with
          calls := s.calls ++ (before ++ [archive]).map (listing settings)
          console }) := by
  induction archives generalizing p s with
  | nil => simp [scannedIn, missingAt?] at h
  | cons archive rest ih =>
      cases hgoes : stopOf? settings around s.files archive with
      | some e =>
          exact ⟨[], archive, rest, e, s.console, rfl, nofun, hgoes, perform_scanFrom_of_stop hgoes⟩
      | none =>
          by_cases hmissing : listed settings around s.files archive = .notStarted .notFound
          · rw [scannedIn_of_missing hmissing] at h
            obtain ⟨_, hmem, hstop⟩ := h
            rw [List.mem_singleton.mp hmem] at hstop
            exact absurd hgoes hstop
          · rw [scannedIn_cons hmissing] at h
            obtain ⟨console, hfirst⟩ := perform_scanFrom_cons rest hmarker hgoes hmissing
            obtain ⟨before, first, after, e, console', rfl, hbefore, hlast, hrest⟩ :=
              ih (p := p.tell settings around s.files archive)
                (s := { s with calls := s.calls ++ [listing settings archive], console })
                hmarker (by
                  obtain ⟨other, hmem, hstop⟩ := h
                  refine ⟨other, (List.mem_cons.mp hmem).resolve_left ?_, hstop⟩
                  rintro rfl
                  exact hstop hgoes)
            refine ⟨archive :: before, first, after, e, console', rfl, ?_, hlast, ?_⟩
            · intro other hother
              rcases List.mem_cons.mp hother with rfl | hother
              · exact ⟨hgoes, hmissing⟩
              · exact hbefore other hother
            · rw [hfirst, hrest]
              simp

end Scan

/-! ### What a scan has told -/

section Told

variable (settings : Settings) (around : Surroundings) (w : Workspace)

/-- What a scan tells of the archives that could not be listed. -/
def faultNotes (archives : List Path) : List String :=
  archives.filterMap fun archive ↦
    (faultOf? settings around w archive).map (faultNote settings archive)

/-- The first archive comes first in what a scan tells of those that could not be listed. -/
theorem faultNotes_cons (archive : Path) (rest : List Path) :
    faultNotes settings around w (archive :: rest) =
      ((faultOf? settings around w archive).map (faultNote settings archive)).toList ++
        faultNotes settings around w rest := by
  unfold faultNotes
  rw [List.filterMap_cons]
  cases faultOf? settings around w archive <;> rfl

/-- What a scan has told once it has run the symbol tool on some archives. -/
theorem foldl_tell (p : Probe) (archives : List Path) :
    archives.foldl (Probe.tell settings around w) p =
      { p with
        archivesScanned := p.archivesScanned ++ archives.map Path.text
        archivesMatched := p.archivesMatched ++
          (archives.filter (carriesMarker settings around w)).map Path.text
        toolAvailable := p.toolAvailable &&
          archives.all fun archive ↦ listed settings around w archive ≠ .notStarted .notFound
        errors := p.errors ++ faultNotes settings around w archives } := by
  induction archives generalizing p with
  | nil => simp [faultNotes]
  | cons archive rest ih =>
      rw [List.foldl_cons, ih, faultNotes_cons, List.filter_cons]
      unfold Probe.tell
      by_cases hcarries : carriesMarker settings around w archive = true
      · simp [hcarries, Bool.and_assoc]
      · simp [hcarries, Bool.and_assoc]

/-- The symbol tool is there for all archives that are scanned unless there is a first for which it
is not. -/
theorem all_scannedIn (archives : List Path) :
    ((scannedIn settings around w archives).all fun archive ↦
        listed settings around w archive ≠ .notStarted .notFound) =
      (missingAt? settings around w archives).isNone := by
  induction archives with
  | nil => rfl
  | cons archive rest ih =>
      by_cases hmissing : listed settings around w archive = .notStarted .notFound
      · rw [scannedIn_of_missing hmissing]
        simp [missingAt?, List.findIdx?_cons, hmissing]
      · rw [scannedIn_cons hmissing, List.all_cons, ih]
        simp [missingAt?, List.findIdx?_cons, hmissing]

/-- What is scanned of a list is a part of it. -/
theorem scannedIn_sublist (archives : List Path) :
    (scannedIn settings around w archives).Sublist archives := by
  unfold scannedIn
  split
  · exact List.take_sublist _ _
  · exact .refl _

/-- Archives at which a scan does not stop are parted into those that carry the marker, those that
could not be listed, and those that lack the marker. -/
theorem perm_findings {archives : List Path}
    (h : ∀ archive ∈ archives, stopOf? settings around w archive = none) :
    archives.Perm (archives.filter (carriesMarker settings around w) ++
      (archives.filter (fun archive ↦ (faultOf? settings around w archive).isSome) ++
        archives.filter (lacksMarker settings around w))) := by
  induction archives with
  | nil => exact .nil
  | cons archive rest ih =>
      have hrest := (ih fun other hother ↦ h other (List.mem_cons_of_mem _ hother)).cons archive
      rw [List.filter_cons, List.filter_cons, List.filter_cons]
      obtain ⟨hcarries, hfault, hlacks⟩ | ⟨hcarries, hfault, hlacks⟩ | ⟨hcarries, hfault, hlacks⟩ :=
        finding_cases settings around w (h archive List.mem_cons_self)
      · simpa [hcarries, hfault, hlacks] using hrest
      · simpa [hcarries, hfault, hlacks] using hrest.trans List.perm_middle.symm
      · rw [← List.append_assoc] at hrest ⊢
        simpa [hcarries, hfault, hlacks] using hrest.trans List.perm_middle.symm

/-- A probe accounts for the archives of a list: it tells which were scanned, which of these carry
the marker and which could not be listed, each in order, and whether the symbol tool was there; and
each scanned archive is one of those that carry the marker, could not be listed, or lack the
marker. -/
structure Probe.AccountsFor (probe : Probe) (archives : List Path) : Prop where
  marker : probe.marker = settings.claimerMarker
  scanned : probe.archivesScanned = (scannedIn settings around w archives).map Path.text
  matched : probe.archivesMatched =
    ((scannedIn settings around w archives).filter (carriesMarker settings around w)).map Path.text
  errors : probe.errors = faultNotes settings around w (scannedIn settings around w archives)
  available : probe.toolAvailable = false ↔ ∃ k, missingAt? settings around w archives = some k
  parted : (scannedIn settings around w archives).Perm
    ((scannedIn settings around w archives).filter (carriesMarker settings around w) ++
      ((scannedIn settings around w archives).filter
          (fun archive ↦ (faultOf? settings around w archive).isSome) ++
        (scannedIn settings around w archives).filter (lacksMarker settings around w)))
  distinct : probe.archivesScanned.Nodup

end Told

/-! ### Whether the symbol tool is there -/

/-- What a probe finds in a list of archives: the symbol tool is there unless it is not for one of
them, and the marker is present, and the claimer carried, if an archive before the first of these
carries it. -/
structure Probe.FindsIn (settings : Settings) (around : Surroundings) (w : Workspace)
    (archives : List Path) (probe : Probe) : Prop where
  toolAvailable_eq_false_iff : probe.toolAvailable = false ↔
    ∃ archive ∈ archives, listed settings around w archive = .notStarted .notFound
  claimerPresent_iff : probe.claimerPresent = true ↔
    ∃ archive ∈ reached settings around w archives, carriesMarker settings around w archive = true
  claimer_mem_iff : ∀ profile, .claimer ∈ carriedTags profile probe ↔
    ∃ archive ∈ reached settings around w archives, carriesMarker settings around w archive = true

section Finding

variable {settings : Settings} {around : Surroundings} {s t : Session} {p probe : Probe}
  {archives : List Path}

/-- A scan that gives a probe was not stopped by a run. -/
theorem stopOf?_of_scanFrom (hmarker : p.marker = settings.claimerMarker)
    (h : perform (scanFrom settings p archives) around s = (.ok probe, t)) :
    ∀ archive ∈ scannedIn settings around s.files archives,
      stopOf? settings around s.files archive = none := by
  intro archive hmem
  by_contra hstop
  obtain ⟨_, _, _, _, _, _, _, _, hstopped⟩ :=
    perform_scanFrom_of_mem_stop archives hmarker ⟨archive, hmem, hstop⟩
  rw [hstopped] at h
  cases h

/-- A scan of a directory finds what is to be found in its archives, and changes nothing but the
record of the tools run and the lines shown. -/
theorem findsIn_of_scan {directory : Path}
    (h : perform (scan settings directory) around s = (.ok probe, t)) :
    probe.FindsIn settings around s.files (archivesIn s.files directory) ∧
      ∃ calls console, t = { s with calls, console } := by
  replace h := (perform_scan_eq_ok.mp h).2
  generalize archivesIn s.files directory = archives at h ⊢
  have hmatched : probe.archivesMatched =
      (matchedIn settings around s.files archives).map Path.text := (scanFrom_eq rfl h).2
  obtain ⟨console, hgiven⟩ :=
    perform_scanFrom (p := .start settings.claimerMarker) archives rfl (stopOf?_of_scanFrom rfl h)
  rw [hgiven, foldl_tell] at h
  have hpresent : probe.claimerPresent = true ↔
      ∃ archive ∈ reached settings around s.files archives,
        carriesMarker settings around s.files archive = true := by
    simp [Probe.claimerPresent, hmatched, matchedIn]
  refine ⟨⟨?_, hpresent, fun _ ↦ claimer_mem_carriedTags.trans hpresent⟩, ?_⟩
  · cases h
    rw [all_scannedIn]
    simp [Probe.start, missingAt?, List.findIdx?_isNone]
  · cases h
    exact ⟨_, _, rfl⟩

end Finding

/-! ### Scanning a directory -/

section
variable {settings : Settings} {around : Surroundings} {s t : Session} {directory : Path}

/-- Unless a run stops it, a scan of the archives of a directory gives an account of them. -/
private theorem perform_scanFrom_accounts
    (h : ∀ archive ∈ scannedIn settings around s.files (archivesIn s.files directory),
      stopOf? settings around s.files archive = none) :
    ∃ probe console,
      perform (scanFrom settings (.start settings.claimerMarker) (archivesIn s.files directory))
          around s = (.ok probe, { s with
        calls := s.calls ++
          (scannedIn settings around s.files (archivesIn s.files directory)).map (listing settings)
        console }) ∧
      probe.AccountsFor settings around s.files (archivesIn s.files directory) := by
  generalize hall : archivesIn s.files directory = archives at h ⊢
  obtain ⟨console, hgiven⟩ := perform_scanFrom (p := .start settings.claimerMarker) archives rfl h
  refine ⟨_, console, hgiven, ?_⟩
  rw [foldl_tell]
  constructor
  case marker => rfl
  case scanned => rfl
  case matched => rfl
  case errors => rfl
  case available =>
    rw [all_scannedIn]
    cases missingAt? settings around s.files archives <;> simp [Probe.start]
  case parted => exact perm_findings settings around s.files h
  case distinct =>
    have hnodup := nodup_text_archivesIn s.files directory
    rw [hall] at hnodup
    exact hnodup.sublist ((scannedIn_sublist settings around s.files archives).map Path.text)

/-- A scan that gives a probe accounts for the archives of the directory. -/
theorem accountsFor_of_scan {probe : Probe}
    (h : perform (scan settings directory) around s = (.ok probe, t)) :
    probe.AccountsFor settings around s.files (archivesIn s.files directory) := by
  replace h := (perform_scan_eq_ok.mp h).2
  obtain ⟨_, _, hgiven, haccounts⟩ := perform_scanFrom_accounts (stopOf?_of_scanFrom rfl h)
  cases hgiven.symm.trans h
  exact haccounts

end

variable (settings : Settings) (around : Surroundings) (s : Session) (directory : Path)

end Vendoring.Build
