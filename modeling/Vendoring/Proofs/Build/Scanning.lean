import Vendoring.Proofs.Build.Archives
import Vendoring.Proofs.Build.Stages

/-!
# What a scan finds

The archives that a scan reaches are those before the first for which the symbol tool is not there,
and the matched ones are those of them whose listing exited with zero and holds the marker. The
detail of the probe stage tells how many there are.
-/

namespace Vendoring.Build

open Vendoring.Text Vendoring.Files Vendoring.Tool
open Vendoring.Action

section

variable (settings : Settings) (around : Surroundings) (w : Workspace)

/-- What listing the symbols of an archive gives. -/
def listed (archive : Path) : Outcome :=
  around.tools.listSymbols (listing settings archive) (w.content? archive)

/-- The archives that a scan of a list reaches. -/
def reached (archives : List Path) : List Path :=
  archives.takeWhile fun archive ↦ listed settings around w archive ≠ .notStarted .notFound

/-- Whether the listing of an archive exits with zero and holds the marker. -/
def carriesMarker (archive : Path) : Bool :=
  match listed settings around w archive with
  | .exited status output _ => status = 0 && isInfixOf (Utf8.encode settings.claimerMarker) output
  | _ => false

/-- The archives that a scan of a list matches. -/
def matchedIn (archives : List Path) : List Path :=
  (reached settings around w archives).filter (carriesMarker settings around w)

/-- Nothing is matched once the symbol tool is not there. -/
theorem matchedIn_of_notFound {archive : Path} (rest : List Path)
    (h : listed settings around w archive = .notStarted .notFound) :
    matchedIn settings around w (archive :: rest) = [] := by
  unfold matchedIn reached
  rw [List.takeWhile_cons_of_neg]
  · rfl
  · rw [h]
    decide

/-- While the symbol tool is there, an archive is matched when it carries the marker. -/
theorem matchedIn_cons {archive : Path} (rest : List Path)
    (h : listed settings around w archive ≠ .notStarted .notFound) :
    matchedIn settings around w (archive :: rest) =
      if carriesMarker settings around w archive then
        archive :: matchedIn settings around w rest
      else matchedIn settings around w rest := by
  unfold matchedIn reached
  rw [List.takeWhile_cons_of_pos, List.filter_cons]
  exact decide_eq_true h

/-- What is matched depends on the content of the archives alone. -/
theorem matchedIn_congr {v : Workspace} {archives : List Path}
    (h : ∀ archive ∈ archives, v.content? archive = w.content? archive) :
    matchedIn settings around v archives = matchedIn settings around w archives := by
  induction archives with
  | nil => rfl
  | cons archive rest ih =>
      have hlisted : listed settings around v archive = listed settings around w archive := by
        unfold listed
        rw [h archive List.mem_cons_self]
      have hrest := ih fun other hother ↦ h other (List.mem_cons_of_mem _ hother)
      by_cases hmissing : listed settings around w archive = .notStarted .notFound
      · rw [matchedIn_of_notFound _ _ _ _ hmissing,
          matchedIn_of_notFound _ _ _ _ (hlisted.trans hmissing)]
      · have hcarries : carriesMarker settings around v archive =
            carriesMarker settings around w archive := by
          unfold carriesMarker
          rw [hlisted]
        rw [matchedIn_cons _ _ _ _ hmissing, matchedIn_cons _ _ _ _ (hlisted ▸ hmissing), hcarries,
          hrest]

/-- The marker is carried when its bytes occur in the output of a listing that exited with zero. -/
theorem carriesMarker_iff (archive : Path) :
    carriesMarker settings around w archive = true ↔
      ∃ output errors, listed settings around w archive = .exited 0 output errors ∧
        Utf8.encode settings.claimerMarker <:+: output := by
  unfold carriesMarker
  cases listed settings around w archive with
  | exited status output errors =>
      dsimp only
      rw [Bool.and_eq_true, decide_eq_true_eq, isInfixOf_iff]
      constructor
      · rintro ⟨rfl, hmarker⟩
        exact ⟨output, errors, rfl, hmarker⟩
      · rintro ⟨_, _, heq, hmarker⟩
        cases heq
        exact ⟨rfl, hmarker⟩
  | notStarted fault => exact ⟨nofun, nofun⟩
  | timedOut => exact ⟨nofun, nofun⟩
  | refused => exact ⟨nofun, nofun⟩
  | unwaitable wording => exact ⟨nofun, nofun⟩

/-- A scan matches something when an archive that it reaches carries the marker. -/
theorem matchedIn_ne_nil_iff (archives : List Path) :
    matchedIn settings around w archives ≠ [] ↔
      ∃ archive ∈ reached settings around w archives, ∃ output errors,
        listed settings around w archive = .exited 0 output errors ∧
          Utf8.encode settings.claimerMarker <:+: output := by
  unfold matchedIn
  rw [Ne, List.filter_eq_nil_iff]
  constructor
  · intro h
    apply Classical.byContradiction
    intro hnone
    apply h
    intro archive hreached hcarries
    exact hnone ⟨archive, hreached, (carriesMarker_iff settings around w archive).mp hcarries⟩
  · rintro ⟨archive, hreached, hcarries⟩ hnone
    exact hnone archive hreached ((carriesMarker_iff settings around w archive).mpr hcarries)

end

variable {settings : Settings} {around : Surroundings} {s t : Session}

/-- Listing an archive records the run and gives what the tool wrote, or the fault of the run, or
stops because of a command line or a time limit that no run can have. -/
theorem perform_listSymbols (archive : Path) :
    perform (listSymbols settings archive) around s =
      (match listed settings around s.files archive with
        | .exited status output _ => .ok (if status = 0 then .ok output
            else .error (.failed (listing settings archive).words status))
        | .notStarted fault => .ok (.error (.notStarted settings.nmTool fault))
        | .timedOut => .ok (.error (.timedOut (listing settings archive).words
            settings.probeTimeout))
        | .refused => .error .nullByte
        | .unwaitable wording => .error (.integer (.outOfRange wording)),
        { s with calls := s.calls ++ [listing settings archive] }) := by
  unfold listSymbols listed listing
  rw [perform_bind, perform_runLister]
  cases around.tools.listSymbols _ (s.files.content? archive) <;> rfl

/-- Listing an archive gives what it writes, or tells that the tool is not there, or tells another
fault of an archive that does not count as matched. -/
private theorem listSymbols_cases {archive : Path} {result : Except ScanFault (List UInt8)}
    (h : perform (listSymbols settings archive) around s = (.ok result, t)) :
    t.files = s.files ∧
      ((∃ output, result = .ok output ∧
          listed settings around s.files archive ≠ .notStarted .notFound ∧
          carriesMarker settings around s.files archive =
            isInfixOf (Utf8.encode settings.claimerMarker) output) ∨
        (result = .error (.notStarted settings.nmTool .notFound) ∧
          listed settings around s.files archive = .notStarted .notFound) ∨
        (∃ fault, result = .error fault ∧ (∀ tool, fault ≠ .notStarted tool .notFound) ∧
          listed settings around s.files archive ≠ .notStarted .notFound ∧
          carriesMarker settings around s.files archive = false)) := by
  rw [perform_listSymbols] at h
  obtain ⟨hresult, hleft⟩ := Prod.mk.inj h
  refine ⟨by rw [← hleft], ?_⟩
  unfold carriesMarker
  cases hlisted : listed settings around s.files archive with
  | exited status output errors =>
      rw [hlisted] at hresult
      dsimp only at hresult
      by_cases hstatus : status = 0
      · rw [if_pos hstatus] at hresult
        cases hresult
        refine .inl ⟨output, rfl, nofun, ?_⟩
        simp only [hstatus, decide_true, Bool.true_and]
      · rw [if_neg hstatus] at hresult
        cases hresult
        refine .inr (.inr ⟨_, rfl, nofun, nofun, ?_⟩)
        simp only [hstatus, decide_false, Bool.false_and]
  | notStarted fault =>
      rw [hlisted] at hresult
      cases hresult
      by_cases hfault : fault = .notFound
      · subst hfault
        exact .inr (.inl ⟨rfl, rfl⟩)
      · refine .inr (.inr ⟨_, rfl, ?_, ?_, rfl⟩)
        · intro tool heq
          cases heq
          exact hfault rfl
        · intro heq
          cases heq
          exact hfault rfl
  | timedOut =>
      rw [hlisted] at hresult
      cases hresult
      exact .inr (.inr ⟨_, rfl, nofun, nofun, rfl⟩)
  | refused =>
      rw [hlisted] at hresult
      cases hresult
  | unwaitable wording =>
      rw [hlisted] at hresult
      cases hresult

/-- A scan keeps its marker and adds the archives that it matches. -/
theorem scanFrom_eq {p probe : Probe} {archives : List Path}
    (hmarker : p.marker = settings.claimerMarker)
    (h : perform (scanFrom settings p archives) around s = (.ok probe, t)) :
    probe.marker = settings.claimerMarker ∧ probe.archivesMatched =
      p.archivesMatched ++ (matchedIn settings around s.files archives).map Path.text := by
  -- The session varies along the induction, but its files do not: a listing only records its run.
  induction archives generalizing p s with
  | nil =>
      cases h
      exact ⟨hmarker, (List.append_nil _).symm⟩
  | cons archive rest ih =>
      obtain ⟨result, u, hlist, h⟩ := perform_bind_eq_ok.mp h
      obtain ⟨hfiles, ⟨output, rfl, hfound, hcarries⟩ | ⟨rfl, hmissing⟩ |
        ⟨fault, rfl, hother, hfound, hcarries⟩⟩ := listSymbols_cases hlist
      · rw [matchedIn_cons settings around s.files rest hfound, hcarries, ← hfiles]
        dsimp only at h
        rw [hmarker] at h
        split at h
        · next hin =>
            obtain ⟨hm, hmatched⟩ := ih rfl h
            refine ⟨hm, ?_⟩
            rw [hmatched, if_pos hin, List.append_assoc]
            rfl
        · next hout =>
            obtain ⟨hm, hmatched⟩ := ih rfl h
            refine ⟨hm, ?_⟩
            rw [hmatched, if_neg hout]
      · rw [matchedIn_of_notFound settings around s.files rest hmissing]
        obtain ⟨_, v, _, h⟩ := perform_bind_eq_ok.mp h
        cases h
        exact ⟨hmarker, (List.append_nil _).symm⟩
      · rw [matchedIn_cons settings around s.files rest hfound, hcarries, ← hfiles]
        split at h
        · next heq => cases heq
        · next tool heq =>
            cases heq
            exact absurd rfl (hother tool)
        · next heq =>
            obtain ⟨_, v, hdebug, h⟩ := perform_bind_eq_ok.mp h
            have hv : v.files = u.files := (Within.debug (F := .sameFiles) _ _ _).holds hdebug
            rw [← hv]
            obtain ⟨hm, hmatched⟩ := ih (by exact hmarker) h
            exact ⟨hm, hmatched⟩

/-- A scan of a directory that is refused stops before any run. -/
theorem perform_scan_of_refuses {directory : Path} (h : s.files.refuses directory = true) :
    perform (scan settings directory) around s =
      (.error (.file (.system .nameTooLong directory.text)), s) := by
  rw [scan, perform_bind, perform_get]
  dsimp only
  rw [perform_bind, perform_ofExcept, listArchives_eq, if_pos h]
  rfl

/-- A scan of any other directory is one of its archives. -/
theorem perform_scan {directory : Path} (h : s.files.refuses directory = false) :
    perform (scan settings directory) around s =
      perform (scanFrom settings (.start settings.claimerMarker) (archivesIn s.files directory))
        around s := by
  rw [scan, perform_bind, perform_get]
  dsimp only
  rw [perform_bind, perform_ofExcept, listArchives_eq, h]
  rfl

/-- A scan gives a probe exactly when the directory is not refused and the scan of its archives
gives the probe. -/
theorem perform_scan_eq_ok {directory : Path} {probe : Probe} :
    perform (scan settings directory) around s = (.ok probe, t) ↔
      s.files.refuses directory = false ∧
      perform (scanFrom settings (.start settings.claimerMarker) (archivesIn s.files directory))
        around s = (.ok probe, t) := by
  cases hrefuses : s.files.refuses directory with
  | true =>
      rw [perform_scan_of_refuses hrefuses]
      exact ⟨nofun, nofun⟩
  | false =>
      rw [perform_scan hrefuses]
      exact (and_iff_right rfl).symm

/-- The probe stage matches the archives that it reaches and that carry the marker, and tells how
many there are. -/
theorem probeStage_eq {r : Request} {probe : Probe} {detail : String}
    (h : perform (probeStage settings r) around s = (.ok (probe, detail), t)) :
    let matched := matchedIn settings around s.files
      (archivesIn s.files (libraryDirectory r.destination))
    probe.archivesMatched = matched.map Path.text ∧
      detail = settings.claimerMarker ++ if matched = [] then " not found"
        else " found in " ++ toString matched.length ++ " archive(s)" := by
  intro matched
  obtain ⟨probe', u, hscan, h⟩ := perform_bind_eq_ok.mp h
  rw [perform_pure] at h
  cases h
  obtain ⟨_, hscan⟩ := perform_scan_eq_ok.mp hscan
  obtain ⟨hmarker, hmatched⟩ := scanFrom_eq rfl hscan
  have heq : probe.archivesMatched = matched.map Path.text := hmatched
  refine ⟨heq, ?_⟩
  unfold Probe.claimerPresent
  rw [hmarker, heq, List.length_map, List.isEmpty_map]
  cases matched with
  | nil => rfl
  | cons archive rest => rfl

private theorem found_ne_notFound (marker count : String) :
    marker ++ (" found in " ++ count ++ " archive(s)") ≠ marker ++ " not found" := by
  intro h
  have hlists := congrArg String.toList h
  rw [String.toList_append, String.toList_append (s := marker) (t := " not found"),
    List.append_cancel_left_eq, String.toList_append, String.toList_append] at hlists
  simp at hlists

variable {marker detail : String} {matched : List Path}

/-- The detail of a scan counts archives exactly when some were matched. -/
theorem matched_ne_nil_iff_detail (h : detail = marker ++ if matched = [] then " not found"
      else " found in " ++ toString matched.length ++ " archive(s)") :
    matched ≠ [] ↔
      ∃ k : Nat, 1 ≤ k ∧ detail = marker ++ (" found in " ++ toString k ++ " archive(s)") := by
  constructor
  · intro hsome
    rw [if_neg hsome] at h
    exact ⟨matched.length, List.length_pos_iff.mpr hsome, h⟩
  · rintro ⟨k, _, hfound⟩ hnone
    rw [if_pos hnone, hfound] at h
    exact found_ne_notFound _ _ h

/-- The detail of a scan says that the marker was not found exactly when nothing was matched. -/
theorem matched_eq_nil_iff_detail (h : detail = marker ++ if matched = [] then " not found"
      else " found in " ++ toString matched.length ++ " archive(s)") :
    matched = [] ↔ detail = marker ++ " not found" := by
  by_cases hnone : matched = []
  · rw [if_pos hnone] at h
    exact ⟨fun _ ↦ h, fun _ ↦ hnone⟩
  · rw [if_neg hnone] at h
    refine ⟨fun hnil ↦ absurd hnil hnone, ?_⟩
    intro hmissing
    rw [h] at hmissing
    exact absurd hmissing (found_ne_notFound _ _)

end Vendoring.Build
