import Vendoring.Proofs.Build.Pairs
import Vendoring.Proofs.Build.Runs
import Vendoring.Proofs.Instrumentation.Variants
import Vendoring.Proofs.Text.Markup

/-!
# Asking for the claimer

Asking for the claimer has no influence on a build. It asks for no compiler flag, the scan alone
decides whether the tag is carried, and the variant's name is only told. So two runs of a build that
differ in nothing else do the same work, whatever the clocks show: they end with the same outcome
but for the times of the stages, run the same tools, and leave the same files but for the report,
which names the request.
-/

namespace Vendoring.Build

open Vendoring.Text Vendoring.Files Vendoring.Tool Vendoring.Instrumentation
open Vendoring.Action

/-! ### Profiles -/

/-- Whether the claimer is asked for makes no difference to the other tags. -/
theorem requests_with_claimer (p : Profile) (claimer : Bool) {t : Tag} (ht : t ≠ .claimer) :
    Profile.requests { p with claimer } t = p.requests t := by
  cases t with
  | claimer => exact absurd rfl ht
  | _ => rfl

/-- The flags of a profile are those of all tags that it requests. -/
theorem compilerFlags_eq (p : Profile) :
    p.compilerFlags = Tag.all.flatMap fun t ↦ if p.requests t then t.compilerFlags else [] := by
  show (Tag.all.filter p.requests).flatMap Tag.compilerFlags = _
  induction Tag.all with
  | nil => rfl
  | cons t tags ih =>
      rw [List.filter_cons, List.flatMap_cons, ← ih]
      split
      · rw [List.flatMap_cons]
      · rw [List.nil_append]

/-- The claimer asks for no flag. -/
theorem compilerFlags_with_claimer (p : Profile) (claimer : Bool) :
    Profile.compilerFlags { p with claimer } = p.compilerFlags := by
  rw [compilerFlags_eq, compilerFlags_eq]
  congr 1
  funext t
  by_cases ht : t = .claimer
  · subst ht
    simp [Tag.compilerFlags]
  · rw [requests_with_claimer p claimer ht]

/-- The tags carried do not depend on whether the claimer was asked for. -/
theorem carriedTags_with_claimer (p : Profile) (claimer : Bool) (probe : Probe) :
    carriedTags { p with claimer } probe = carriedTags p probe := by
  ext t
  by_cases ht : t = .claimer
  · subst ht
    rw [claimer_mem_carriedTags, claimer_mem_carriedTags]
  · rw [mem_carriedTags_of_ne ht, mem_carriedTags_of_ne ht, requests_with_claimer p claimer ht]

/-- The line that tells what is configured can be shown. -/
theorem exists_render_configuringLine {source : Path} (hsource : '/' ∉ source.name.toList)
    (p : Profile) : ∃ shown, Markup.render (configuringLine source p) = .ok shown := by
  have hvariant := p.slash_notMem_variantName
  unfold configuringLine
  generalize p.variantName = variant at hvariant ⊢
  generalize source.name = name at hsource ⊢
  have htext : '/' ∉ ("Configuring " ++ name ++ " (" ++ variant ++ ")…").toList := by
    simp [String.toList_append, hsource, hvariant]
  have hline : "  [dim]Configuring " ++ name ++ " (" ++ variant ++ ")…[/]" =
      "  [dim]" ++ ("Configuring " ++ name ++ " (" ++ variant ++ ")…") ++ "[/]" := by
    apply String.toList_inj.mp
    simp [String.toList_append]
  rw [hline]
  exact Markup.exists_render_dim htext

/-- A library is built alike whether the claimer is asked for or not. -/
theorem buildsAlike_with_claimer {source : Path} (hsource : '/' ∉ source.name.toList)
    (p : Profile) (claimer : Bool) : BuildsAlike source p { p with claimer } where
  flags := (compilerFlags_with_claimer p claimer).symm
  carried probe := (carriedTags_with_claimer p claimer probe).symm
  told := by
    obtain ⟨_, hshown⟩ := exists_render_configuringLine hsource p
    obtain ⟨_, hshown'⟩ := exists_render_configuringLine hsource { p with claimer }
    rw [hshown, hshown']
    rfl

/-! ### Runs from one session -/

/-- Two runs of a build from one session go alike: each operation finds the same files. -/
theorem goesAlike_eq (settings : Settings) (r : Request) (around : Surroundings) (times : Times) :
    GoesAlike settings r around (around.showing times) .work Eq Eq where
  weaken _ _ h := h
  listSymbols := rfl
  runs run _ := by
    rintro s _ ⟨hfiles, files, _, _, rfl⟩
    obtain rfl : s.files = files := hfiles
    exact .ok ⟨rfl, rfl, _, _, _, rfl⟩
  source _ _ h := h ▸ rfl
  makeBuild := .rfl _
  makeLibrary := .rfl _
  makePrograms := .rfl _
  collected _ _ h := h ▸ rfl
  copyArchive _ _ _ _ _ _ _ := .rfl _
  headers _ _ h := h ▸ rfl
  copyHeaders := .rfl _
  listed _ _ h := h ▸ rfl
  content _ _ _ _ _ _ _ h := h ▸ rfl
  makeDestination := .rfl _
  resolve _ _ h _ _ := h ▸ ⟨rfl, fun _ _ ↦ rfl⟩
  written _ _ _ _ h _ _ := h ▸ rfl

/-- Files that are the same but for the reports differ at most where these are. -/
theorem ButForReports.find?_eq_or {around around' : Surroundings} {r : Request}
    {profile : Profile} {w v : Workspace} (h : ButForReports around around' r profile Eq w v) :
    v.here = w.here ∧ ∀ l, v.tree.find? l = w.tree.find? l ∨
      ReportedAt around around' r profile w v l := by
  obtain ⟨u, _, rfl, hw, hv, hplaces⟩ := h.exists_related
  refine ⟨hv.trans hw.symm, fun l ↦ ?_⟩
  obtain ⟨hleft, hright⟩ | hreported := hplaces l
  · exact .inl (hright.trans hleft.symm)
  · exact .inr hreported

/-- What the file of a report holds when the tags of its record are listed in a given way. -/
def listedReportBytes (now : String) (listed : TagSet → List Tag) (result : Result) :
    List UInt8 :=
  Utf8.encode (Json.indented (report now result listed))

/-- Two results that tell the same, but for the times of their stages and for the profile that
their requests name, are reported at one place, with the tags of their records listed alike. -/
def EchoedAt (listed : TagSet → List Tag) (now now' : String) (r : Request) (profile : Profile)
    (w v : Workspace) (l : Location) : Prop :=
  l = w.place (r.destination.below reportFileName) ∧ ∃ result result' : Result,
    result.request = r ∧ result'.untimed = { result.untimed with request := { r with profile } } ∧
    w.tree.find? l = some (.file (listedReportBytes now listed result)) ∧
    v.tree.find? l = some (.file (listedReportBytes now' listed result'))

/-- Reports of one host are echoes of each other when it lists the tags alike for both profiles. -/
theorem ReportedAt.echoedAt {around : Surroundings} {times : Times} {r : Request}
    {profile : Profile} {w v : Workspace} {l : Location}
    (h : ReportedAt around (around.showing times) r profile w v l)
    (hlisted : around.listing.tags profile = around.listing.tags r.profile) :
    EchoedAt (around.listing.tags r.profile) around.now times.now r profile w v l := by
  obtain ⟨hl, result, result', hresult, hsame, hleft, hright⟩ := h
  have hrequest : result'.request = { r with profile } := congrArg Result.request hsame
  refine ⟨hl, result, result', hresult, hsame, ?_, ?_⟩
  · rw [hleft, reportBytes, reportIn, hresult]
    rfl
  · rw [hright, reportBytes, reportIn, hrequest]
    show some (Entry.file (listedReportBytes times.now (around.listing.tags profile) result')) = _
    rw [hlisted]

end Vendoring.Build
