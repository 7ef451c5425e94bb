import Vendoring.Build.VendorBuild
import Vendoring.Proofs.Build.Archives
import Vendoring.Proofs.Session.Pairs

/-!
# Pairs of builds

Two runs of a build, with profiles that may differ, are compared stage by stage. Two relations
between their files say what the runs have in common, one throughout and one as long as the
destination is known to be there; when every operation on files that a build makes goes alike under
them, then so does the build: it ends with the same outcome but for the times that stages took, and
leaves related files, but for what its report tells.
-/

namespace Vendoring.Build

open Vendoring.Text Vendoring.Files Vendoring.Tool Vendoring.Instrumentation Vendoring.Provenance
open Vendoring.Action

/-! ### Results without times -/

/-- A stage without the time that it took. -/
def Stage.untimed (stage : Stage) : Stage := { stage with duration := .zero }

/-- A result without the times that its stages took. -/
def Result.untimed (result : Result) : Result :=
  { result with stages := result.stages.map Stage.untimed }

/-- A progress without the times that its stages took. -/
def Progress.untimed {α : Type} (p : Progress α) : Progress α :=
  { p with stages := p.stages.map Stage.untimed }

/-! ### What two runs of a build have in common -/

/-- The line that tells what is configured. -/
def configuringLine (source : Path) (profile : Profile) : String :=
  "  [dim]Configuring " ++ source.name ++ " (" ++ profile.variantName ++ ")…[/]"

/-- Two profiles for which the library of a source is built alike: they ask for the same flags, the
same tags are carried whatever is found, and the lines that tell of them can both be shown or are
refused alike. -/
structure BuildsAlike (source : Path) (p q : Profile) : Prop where
  flags : p.compilerFlags = q.compilerFlags
  carried : ∀ probe, carriedTags p probe = carriedTags q probe
  told : (Markup.render (configuringLine source p)).map (fun _ ↦ ()) =
    (Markup.render (configuringLine source q)).map (fun _ ↦ ())

/-- Building alike is the same for equal profiles. -/
theorem BuildsAlike.refl (source : Path) (p : Profile) : BuildsAlike source p p :=
  ⟨rfl, fun _ ↦ rfl, rfl⟩

/-- A run of the build tool that compiles what a request asks for. -/
inductive Compiles (settings : Settings) (r : Request) : Invocation → Prop
  | configure (environment : Settings.Environment) : Compiles settings r
    ⟨configureCommand r.source.text r.build.text r.profile settings, settings.compileTimeout,
      some environment⟩
  | build (environment : Settings.Environment) : Compiles settings r
    ⟨buildCommand r.build.text settings, settings.compileTimeout, some environment⟩

/-- Two runs of a build that go alike wherever they work on files. Their files are related by `W`
throughout, and by `W'` as long as the destination is known to be there. -/
structure GoesAlike (settings : Settings) (r : Request) (around around' : Surroundings)
    (B : Backdrop) (W W' : Workspace → Workspace → Prop) : Prop where
  weaken : ∀ w v, W' w v → W w v
  listSymbols : around.tools.listSymbols = around'.tools.listSymbols
  runs : ∀ run, Compiles settings r run → Action.Paired around around' (B.Over W)
    (Same (B.Over W)) (B.Over W) (runBuilder run) (runBuilder run)
  source : ∀ w v, W w v → w.lookUp r.source = v.lookUp r.source
  makeBuild : Attempt.Paired W (Same W) W (Workspace.makeDirectories r.build)
    (Workspace.makeDirectories r.build)
  makeLibrary : Attempt.Paired W (Same W') W
    (Workspace.makeDirectories (libraryDirectory r.destination))
    (Workspace.makeDirectories (libraryDirectory r.destination))
  makePrograms : Attempt.Paired W' (Same W') W
    (Workspace.makeDirectories (programDirectory r.destination))
    (Workspace.makeDirectories (programDirectory r.destination))
  collected : ∀ w v, W' w v → collectArchives w r.build settings.archiveSubdirs =
    collectArchives v r.build settings.archiveSubdirs
  copyArchive : ∀ w v archives, W' w v →
    collectArchives w r.build settings.archiveSubdirs = .ok archives →
    ∀ archive ∈ archives,
      let target := (libraryDirectory r.destination).entry archive.name
      Attempt.Paired W' (Same W') W' (Workspace.copyFile (.ofPath archive) (.ofPath target))
        (Workspace.copyFile (.ofPath archive) (.ofPath target))
  headers : ∀ w v, W' w v → w.lookUp (r.source.below settings.headerDir) =
    v.lookUp (r.source.below settings.headerDir)
  copyHeaders :
    let headers := r.source.below settings.headerDir
    let target := r.destination.below headers.name
    Attempt.Paired W' (Same W') W' (Workspace.copyTree headers.text target.text)
      (Workspace.copyTree headers.text target.text)
  listed : ∀ w v, W w v → listArchives w (libraryDirectory r.destination) =
    listArchives v (libraryDirectory r.destination)
  content : ∀ w v archive, W w v → archive ∈ archivesIn w (libraryDirectory r.destination) →
    ∀ w' v', W w' v' → w'.content? archive = v'.content? archive
  makeDestination : Attempt.Paired W (Same W') W (Workspace.makeDirectories r.destination)
    (Workspace.makeDirectories r.destination)
  resolve : ∀ w v, W' w v → ∀ name ∈ [settings.metadataFilename, reportFileName],
    w.resolve (r.destination.below name) = v.resolve (r.destination.below name) ∧
    ∀ l, w.resolve (r.destination.below name) = .ok l → w.tree.find? l = v.tree.find? l
  written : ∀ w v l bytes, W' w v →
    w.resolve (r.destination.below settings.metadataFilename) = .ok l →
    w.tree.find? l ≠ some .directory →
    W' { w with tree := w.tree.put l (.file bytes) } { v with tree := v.tree.put l (.file bytes) }

/-- What the file of a report holds. -/
def reportBytes (around : Surroundings) (result : Result) : List UInt8 :=
  Utf8.encode (Json.indented (reportIn around result))

/-- The files are related, but for the reports of two results that differ in nothing but the times
of their stages and in the profile that their requests name. -/
def ButForReports (around around' : Surroundings) (r : Request) (profile : Profile)
    (W : Workspace → Workspace → Prop) (w v : Workspace) : Prop :=
  W w v ∨ ∃ w₀ v₀ l result result', W w₀ v₀ ∧
    w₀.resolve (r.destination.below reportFileName) = .ok l ∧
    w₀.tree.find? l ≠ some .directory ∧ result.request = r ∧
    result'.untimed = { result.untimed with request := { r with profile } } ∧
    w = { w₀ with tree := w₀.tree.put l (.file (reportBytes around result)) } ∧
    v = { v₀ with tree := v₀.tree.put l (.file (reportBytes around' result')) }

/-- Two results of requests that differ in the profile, which tell the same but for the times of
their stages, are reported at one place. -/
def ReportedAt (around around' : Surroundings) (r : Request) (profile : Profile)
    (w v : Workspace) (l : Location) : Prop :=
  l = w.place (r.destination.below reportFileName) ∧ ∃ result result' : Result,
    result.request = r ∧ result'.untimed = { result.untimed with request := { r with profile } } ∧
    w.tree.find? l = some (.file (reportBytes around result)) ∧
    v.tree.find? l = some (.file (reportBytes around' result'))

/-- Files that are related but for the reports are those of related files, except where a report
is. -/
theorem ButForReports.exists_related {around around' : Surroundings} {r : Request}
    {profile : Profile} {W : Workspace → Workspace → Prop} {w v : Workspace}
    (h : ButForReports around around' r profile W w v) :
    ∃ w₀ v₀, W w₀ v₀ ∧ w.here = w₀.here ∧ v.here = v₀.here ∧
      ∀ l, (w.tree.find? l = w₀.tree.find? l ∧ v.tree.find? l = v₀.tree.find? l) ∨
        ReportedAt around around' r profile w v l := by
  obtain hkept | ⟨w₀, v₀, m, result, result', hkept, hlead, hfree, hresult, hsame, rfl, rfl⟩ := h
  · exact ⟨w, v, hkept, rfl, rfl, fun _ ↦ .inl ⟨rfl, rfl⟩⟩
  · refine ⟨w₀, v₀, hkept, rfl, rfl, fun l ↦ ?_⟩
    by_cases hl : l = m
    · subst hl
      have hroot := Workspace.ne_nil_of_find?_ne hfree
      refine .inr ⟨(Workspace.place_of_resolve hlead).symm, result, result', hresult, hsame, ?_, ?_⟩
      · exact Tree.find?_put_self w₀.tree hroot _
      · exact Tree.find?_put_self v₀.tree hroot _
    · left
      dsimp only
      rw [Tree.find?_put_of_ne w₀.tree hl, Tree.find?_put_of_ne v₀.tree hl]
      exact ⟨rfl, rfl⟩

/-! ### Stages -/

section Stages

variable {settings : Settings} {r : Request} {profile : Profile} {around around' : Surroundings}
  {B : Backdrop} {W W' : Workspace → Workspace → Prop}

private theorem paired_runStep (words : List String)
    (hruns : ∀ environment, Paired around around' (B.Over W) (Same (B.Over W)) (B.Over W)
      (runBuilder ⟨words, settings.compileTimeout, some environment⟩)
      (runBuilder ⟨words, settings.compileTimeout, some environment⟩)) :
    Paired around around' (B.Over W) (Same (B.Over W)) (B.Over W) (runStep words settings)
      (runStep words settings) := by
  refine (Paired.debug _ _ _).bindSame fun _ ↦ ?_
  refine Paired.getBind fun s t hst ↦ ?_
  rw [B.environment hst.2]
  refine (hruns _).bindSame fun outcome ↦ ?_
  cases outcome with
  | exited status output errors =>
      refine (Paired.decoded _).bindSame fun _ ↦ ?_
      exact (Paired.decoded _).bindSame fun _ ↦ .pureSame _
  | notStarted fault => exact .pureSame _
  | timedOut => exact .pureSame _
  | refused => exact .throw _ fun _ _ hst ↦ hst
  | unwaitable wording => exact .throw _ fun _ _ hst ↦ hst

private theorem paired_compile (h : GoesAlike settings r around around' B W W')
    (hp : BuildsAlike r.source r.profile profile) :
    Paired around around' (B.Over W) (Same (B.Over W)) (B.Over W)
      (compile settings r.source r.build r.profile)
      (compile settings r.source r.build profile) := by
  refine (Paired.lookUp h.source).bindSame fun found ↦ ?_
  split
  · exact .pureSame _
  refine (Paired.makeDirectories h.makeBuild).bindSame fun _ ↦ ?_
  refine (Paired.say hp.told).bindSame fun _ ↦ ?_
  have hwords : configureCommand r.source.text r.build.text profile settings =
      configureCommand r.source.text r.build.text r.profile settings := by
    unfold configureCommand
    rw [hp.flags]
  rw [hwords]
  refine (paired_runStep _ fun e ↦ h.runs _ (.configure e)).bindSame fun configured ↦ ?_
  cases configured with
  | error fault => exact .pureSame _
  | ok _ =>
      refine (Paired.say rfl).bindSame fun _ ↦ ?_
      refine (Paired.writable _).bindSame fun _ ↦ ?_
      refine (paired_runStep _ fun e ↦ h.runs _ (.build e)).bindSame fun built ↦ ?_
      cases built with
      | error fault => exact .pureSame _
      | ok _ => exact .pureSame _

/-- Two compile stages go alike. -/
theorem paired_compileStage (h : GoesAlike settings r around around' B W W')
    (hp : BuildsAlike r.source r.profile profile) :
    Paired around around' (B.Over W) (Same (B.Over W)) (B.Over W) (compileStage settings r)
      (compileStage settings { r with profile }) := by
  unfold compileStage
  dsimp only
  split
  · exact .pureSame _
  refine (paired_compile h hp).bindSame fun compiled ↦ ?_
  cases compiled with
  | error e => exact .throw _ fun _ _ hst ↦ hst
  | ok _ =>
      rw [hp.flags]
      exact .pureSame _

private theorem paired_installArchive (h : GoesAlike settings r around around' B W W')
    {w v : Workspace} (hwv : W' w v) {archives : List Path}
    (hcollected : collectArchives w r.build settings.archiveSubdirs = .ok archives)
    {archive : Path} (harchive : archive ∈ archives) :
    Paired around around' (B.Over W') (Same (B.Over W')) (B.Over W')
      (installArchive (libraryDirectory r.destination) archive)
      (installArchive (libraryDirectory r.destination) archive) :=
  (Paired.onFilesElse _ (h.copyArchive w v archives hwv hcollected archive harchive)).bindSame
    fun _ ↦ .pureSame _

private theorem paired_install (h : GoesAlike settings r around around' B W W') :
    let asked : InstallRequest :=
      ⟨r.source, r.build, r.destination, settings.archiveSubdirs, settings.headerDir⟩
    Paired around around' (B.Over W) (Same (B.Over W')) (B.Over W) (install asked)
      (install asked) := by
  intro asked
  have hlayout := h.makeLibrary.bindSame fun _ ↦ h.makePrograms
  refine (Paired.refusedAs _ (Paired.checkPath _)).bindSame fun _ ↦ ?_
  refine (Paired.onFilesElse _ hlayout).bindSame fun _ ↦ ?_
  -- From the layout on the destination is there, and it is not lost any more.
  refine Paired.monoError (E := B.Over W') ?_ fun _ _ hst ↦ hst.mono h.weaken
  refine Paired.getBind fun s t hst ↦ ?_
  dsimp only
  rw [← h.collected _ _ hst.1]
  cases hfound : collectArchives s.files r.build settings.archiveSubdirs with
  | error e =>
      refine (Paired.throw (Q := Same fun _ _ ↦ False) _ fun _ _ hst ↦ hst).bindSame fun _ ↦ ?_
      exact fun _ _ hfalse ↦ hfalse.elim
  | ok archives =>
      show Paired _ _ _ _ _ (pure archives >>= _) (pure archives >>= _)
      rw [pure_bind]
      refine (Paired.mapM archives fun archive harchive ↦ ?_).bindSame fun installed ↦ ?_
      · exact paired_installArchive h hst.1 hfound harchive
      refine (Paired.say rfl).bindSame fun _ ↦ ?_
      refine (Paired.lookUp h.headers).bindSame fun found ↦ ?_
      split
      · refine (Paired.throw (Q := Same (B.Over W')) _ fun _ _ hst ↦ hst).bindSame fun _ ↦ ?_
        exact (Paired.onFilesElse _ h.copyHeaders).bindSame fun _ ↦ .pureSame _
      · exact (Paired.onFilesElse _ h.copyHeaders).bindSame fun _ ↦ .pureSame _

/-- Two install stages go alike. -/
theorem paired_installStage (h : GoesAlike settings r around around' B W W') (profile : Profile) :
    Paired around around' (B.Over W) (Same (B.Over W)) (B.Over W) (installStage settings r)
      (installStage settings { r with profile }) :=
  (paired_install h).bindSame fun _ ↦ .pure fun _ _ hst ↦ ⟨rfl, hst.mono h.weaken⟩

private theorem paired_listSymbols (h : GoesAlike settings r around around' B W W')
    {archive : Path} (hcontent : ∀ w v, W w v → w.content? archive = v.content? archive) :
    Paired around around' (B.Over W) (Same (B.Over W)) (B.Over W) (listSymbols settings archive)
      (listSymbols settings archive) := by
  refine (Paired.runLister _ h.listSymbols hcontent).bindSame fun outcome ↦ ?_
  cases outcome with
  | exited status output errors => exact .pureSame _
  | notStarted fault => exact .pureSame _
  | timedOut => exact .pureSame _
  | refused => exact .throw _ fun _ _ hst ↦ hst
  | unwaitable wording => exact .throw _ fun _ _ hst ↦ hst

private theorem paired_scanFrom (h : GoesAlike settings r around around' B W W') (p : Probe)
    (archives : List Path)
    (hcontent : ∀ archive ∈ archives, ∀ w v, W w v → w.content? archive = v.content? archive) :
    Paired around around' (B.Over W) (Same (B.Over W)) (B.Over W) (scanFrom settings p archives)
      (scanFrom settings p archives) := by
  induction archives generalizing p with
  | nil => exact .pureSame p
  | cons archive rest ih =>
      have hrest := fun p ↦ ih p fun a ha ↦ hcontent a (List.mem_cons_of_mem _ ha)
      refine (paired_listSymbols h (hcontent archive List.mem_cons_self)).bindSame fun listed ↦ ?_
      split
      · split
        · exact hrest _
        · exact hrest _
      · exact (Paired.debug _ _ _).bindSame fun _ ↦ .pureSame _
      · exact (Paired.debug _ _ _).bindSame fun _ ↦ hrest _

/-- Two scans of the installed archives go alike. -/
theorem paired_scan (h : GoesAlike settings r around around' B W W') :
    Paired around around' (B.Over W) (Same (B.Over W)) (B.Over W)
      (scan settings (libraryDirectory r.destination))
      (scan settings (libraryDirectory r.destination)) := by
  refine Paired.getBind fun s t hst ↦ ?_
  rw [← h.listed _ _ hst.1]
  cases hlisted : listArchives s.files (libraryDirectory r.destination) with
  | error e =>
      exact (Paired.throw (Q := Same fun _ _ ↦ False) _ fun _ _ hst ↦ hst).bindSame fun _ ↦
        fun _ _ hfalse ↦ hfalse.elim
  | ok archives =>
      refine (paired_scanFrom h _ archives fun archive harchive ↦ ?_)
      exact h.content _ _ archive hst.1 (eq_archivesIn_of_listArchives hlisted ▸ harchive)

/-- Two probe stages go alike. -/
theorem paired_probeStage (h : GoesAlike settings r around around' B W W') (profile : Profile) :
    Paired around around' (B.Over W) (Same (B.Over W)) (B.Over W) (probeStage settings r)
      (probeStage settings { r with profile }) :=
  (paired_scan h).bindSame fun _ ↦ .pureSame _

/-- Two texts are written in pairs to a file that the settings or the report name. -/
theorem paired_writeText (h : GoesAlike settings r around around' B W W') {name : String}
    (hname : name ∈ [settings.metadataFilename, reportFileName]) (text text' : String)
    {S : Workspace → Workspace → Prop} (hput : ∀ w v l, W' w v →
      w.resolve (r.destination.below name) = .ok l → w.tree.find? l ≠ some .directory →
      S { w with tree := w.tree.put l (.file (Utf8.encode text)) }
        { v with tree := v.tree.put l (.file (Utf8.encode text')) }) :
    Paired around around' (B.Over W') (Same (B.Over S)) (B.Over W')
      (writeText (r.destination.below name) text)
      (writeText (r.destination.below name) text') := by
  refine (Paired.checkPath _).bindSame fun _ ↦ Paired.onFiles (Attempt.Paired.named ?_ _)
  intro w v hwv
  obtain ⟨hresolve, hfind⟩ := h.resolve w v hwv name hname
  rw [Workspace.perform_writeFile, Workspace.perform_writeFile, ← hresolve]
  cases hlead : w.resolve (r.destination.below name) with
  | error e => exact .error hwv
  | ok l =>
      dsimp only
      rw [← hfind l hlead]
      split
      · exact .error hwv
      · next hfree => exact .ok ⟨rfl, hput w v l hwv hlead hfree⟩

/-- Two emit stages go alike. -/
theorem paired_emitStage (h : GoesAlike settings r around around' B W W')
    (hp : BuildsAlike r.source r.profile profile) (probe : Probe) :
    Paired around around' (B.Over W) (Same (B.Over W)) (B.Over W) (emitStage settings r probe)
      (emitStage settings { r with profile } probe) := by
  have hrecord : recordOf { r with profile } probe = recordOf r probe := by
    unfold recordOf
    rw [hp.carried probe]
  refine Paired.bindSame (S := B.Over W') ?_ fun path ↦ .pure fun _ _ hst ↦
    ⟨rfl, hst.mono h.weaken⟩
  rw [hrecord]
  refine (Paired.makeDirectories h.makeDestination).bindSame fun _ ↦ ?_
  refine Paired.monoError (E := B.Over W') ?_ fun _ _ hst ↦ hst.mono h.weaken
  refine (paired_writeText h List.mem_cons_self _ _ fun w v l hwv hlead hfree ↦
    h.written w v l _ hwv hlead hfree).bindSame fun _ ↦ ?_
  exact (Paired.say rfl).bindSame fun _ ↦ .pureSame _

end Stages

/-! ### Going on -/

namespace Progress

variable {α β : Type} {around around' : Surroundings} {B : Backdrop}
  {W : Workspace → Workspace → Prop} {name : String}

/-- Two stages whose actions go alike become the same, but for the time that they took, and hand on
the same. -/
theorem paired_runStage {a b : Action (β × String)}
    (h : Paired around around' (B.Over W) (Same (B.Over W)) (B.Over W) a b) :
    Paired around around' (B.Over W)
      (fun x y s t ↦ (x.1.untimed = y.1.untimed ∧ x.2 = y.2) ∧ B.Over W s t) (B.Over W)
      (runStage name a) (runStage name b) := by
  refine (Paired.say rfl).bindSame fun _ ↦ ?_
  refine Paired.readClock.bind fun started started' ↦ ?_
  refine h.outcome.bindSame fun outcome ↦ ?_
  refine Paired.readClock.bind fun ended ended' ↦ ?_
  cases outcome with
  | ok x => exact .pure fun _ _ hst ↦ ⟨⟨rfl, rfl⟩, hst⟩
  | error e => exact (Paired.say rfl).bindSame fun _ ↦ .pure fun _ _ hst ↦ ⟨⟨rfl, rfl⟩, hst⟩

/-- Going on to two stages whose actions go alike, after progresses that are the same but for the
times of their stages. -/
theorem paired_next (name : String) {p q : Progress α} (hpq : p.untimed = q.untimed)
    {f g : α → Action (β × String)}
    (h : ∀ x, Paired around around' (B.Over W) (Same (B.Over W)) (B.Over W) (f x) (g x)) :
    Paired around around' (B.Over W) (fun p q s t ↦ p.untimed = q.untimed ∧ B.Over W s t)
      (B.Over W) (p.next name f) (q.next name g) := by
  obtain ⟨stages, carried⟩ := p
  obtain ⟨stages', carried'⟩ := q
  simp only [untimed, Progress.mk.injEq] at hpq
  obtain ⟨hstages, rfl⟩ := hpq
  cases carried with
  | none =>
      refine .pure fun _ _ hst ↦ ⟨?_, hst⟩
      simp only [untimed, List.map_append, hstages]
  | some x =>
      refine (paired_runStage (h x)).bindWith fun y z ⟨hstage, hcarried⟩ ↦ ?_
      refine .pure fun _ _ hst ↦ ⟨?_, hst⟩
      simp only [untimed, List.map_append, List.map_singleton, hstages, hstage, hcarried]

end Progress

/-! ### Builds -/

section Builds

variable {settings : Settings} {r : Request} {profile : Profile} {around around' : Surroundings}
  {B : Backdrop} {W W' : Workspace → Workspace → Prop}

/-- Two reports of results that differ in nothing but times and the profile are saved alike. -/
theorem paired_saveReport (h : GoesAlike settings r around around' B W W')
    {result result' : Result} (hresult : result.request = r)
    (hsame : result'.untimed = { result.untimed with request := { r with profile } }) :
    let S := B.Over (ButForReports around around' r profile W)
    Paired around around' (B.Over W) (Same S) S (saveReport result r.destination)
      (saveReport result' r.destination) := by
  intro S
  have hkept : ∀ s t, B.Over W s t → S s t := fun _ _ hst ↦ hst.mono fun _ _ ↦ .inl
  refine ((Paired.makeDirectories h.makeDestination).monoError hkept).bindSame fun _ ↦ ?_
  refine Paired.readBind ?_
  refine Paired.bindSame (S := S) ?_ fun _ ↦ ?_
  · refine (paired_writeText h (List.mem_cons_of_mem _ List.mem_cons_self) _ _ ?_).monoError
      fun _ _ hst ↦ hkept _ _ (hst.mono h.weaken)
    intro w v l hwv hlead hfree
    exact .inr ⟨w, v, l, result, result', h.weaken w v hwv, hlead, hfree, hresult, hsame, rfl, rfl⟩
  · exact (Paired.say rfl).bindSame fun _ ↦ .pureSame _

/-- Two results that differ in nothing but times and the profile are reported alike. -/
theorem paired_reportResult (h : GoesAlike settings r around around' B W W')
    {result result' : Result} (hresult : result.request = r)
    (hsame : result'.untimed = { result.untimed with request := { r with profile } }) :
    let S := B.Over (ButForReports around around' r profile W)
    Paired around around' (B.Over W) (Same S) S (reportResult result) (reportResult result') := by
  intro S
  have hrequest : result'.request = { r with profile } := congrArg Result.request hsame
  unfold reportResult
  rw [hresult, hrequest]
  refine Paired.tryCatch (S := S) ?_ fun e ↦ ?_
  · exact (paired_saveReport h hresult hsame).bindSame fun _ ↦ .pureSame _
  · split
    · exact Paired.say rfl
    · exact .throw _ fun _ _ hst ↦ hst

/-- Two runs of a build that go alike end with the same outcome, but for the times of stages, and
leave related files, but for their reports. -/
theorem paired_runBuild (h : GoesAlike settings r around around' B W W')
    (hp : BuildsAlike r.source r.profile profile) :
    let S := B.Over (ButForReports around around' r profile W)
    Paired around around' (B.Over W)
      (fun result result' s t ↦ result.request = r ∧
        result'.untimed = { result.untimed with request := { r with profile } } ∧ S s t) S
      (runBuild settings r) (runBuild settings { r with profile }) := by
  intro S
  have hkept : ∀ s t, B.Over W s t → S s t := fun _ _ hst ↦ hst.mono fun _ _ ↦ .inl
  have hnext {α β : Type} (name : String) {p q : Progress α} {f g : α → Action (β × String)}
      (hfg : ∀ x, Paired around around' (B.Over W) (Same (B.Over W)) (B.Over W) (f x) (g x))
      (hpq : p.untimed = q.untimed) :=
    (Progress.paired_next name hpq hfg).monoError hkept
  refine (hnext _ (fun _ ↦ paired_compileStage h hp) rfl).bindWith fun _ _ hcompiled ↦ ?_
  refine (hnext _ (fun _ ↦ paired_installStage h _) hcompiled).bindWith fun _ _ hinstalled ↦ ?_
  refine (hnext _ (fun _ ↦ paired_probeStage h _) hinstalled).bindWith fun p p' hprobed ↦ ?_
  refine (hnext _ (paired_emitStage h hp) hprobed).bindWith fun q q' hemitted ↦ ?_
  have hrecord : recordOf { r with profile } = recordOf r := by
    funext probe
    unfold recordOf
    rw [hp.carried probe]
  have hcarried : p'.carried = p.carried := (congrArg Progress.carried hprobed.symm :)
  have hpath : q'.carried = q.carried := (congrArg Progress.carried hemitted.symm :)
  have hstages : q'.stages.map Stage.untimed = q.stages.map Stage.untimed :=
    (congrArg Progress.stages hemitted.symm :)
  dsimp only
  have hsame : Result.untimed ⟨{ r with profile }, q'.stages,
      p'.carried.map (recordOf { r with profile }), q'.carried⟩ =
      { Result.untimed ⟨r, q.stages, p.carried.map (recordOf r), q.carried⟩ with
        request := { r with profile } } := by
    simp only [Result.untimed, hrecord, hcarried, hpath, hstages]
  refine (paired_reportResult h rfl hsame).bindSame fun _ ↦ ?_
  exact .pure fun _ _ hst ↦ ⟨rfl, hsame, hst⟩

end Builds
end Vendoring.Build
