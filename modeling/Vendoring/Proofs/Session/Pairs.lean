import Vendoring.Proofs.Files.Pairs
import Vendoring.Proofs.Session.Frames

/-!
# Pairs of actions

Two actions, performed in two sessions and in surroundings of their own, are compared by how they
end, as attempts on files are. What two sessions have in common is a relation between their files
over a backdrop: what they agree on beside the files. Neither says anything about the console and
the number of clock readings.
-/

namespace Vendoring

open Vendoring.Text Vendoring.Data Vendoring.Files Vendoring.Tool

/-- What the clocks show. -/
structure Times where
  /-- The reading of the clock in seconds, from the number of readings before. -/
  clock : Nat → Decimal
  /-- The date and time, as reports show it. -/
  now : String

/-- The same surroundings at other times. -/
def Surroundings.showing (around : Surroundings) (times : Times) : Surroundings :=
  { around with clock := times.clock, now := times.now }

/-- What two sessions agree on beside their files: always the environment, never the console or the
number of clock readings. It is kept when both sessions list symbols in the same way. -/
structure Backdrop where
  Holds : Session → Session → Prop
  environment : ∀ {s t}, Holds s t → s.environment = t.environment
  shows : ∀ {s t} files files' console console' readings readings', Holds s t →
    Holds { s with files, console, readings }
      { t with files := files', console := console', readings := readings' }
  lists : ∀ {s t} run, Holds s t →
    Holds { s with calls := s.calls ++ [run] } { t with calls := t.calls ++ [run] }

namespace Backdrop

/-- Two sessions with related files before a backdrop. -/
def Over (B : Backdrop) (W : Workspace → Workspace → Prop) (s t : Session) : Prop :=
  W s.files t.files ∧ B.Holds s t

/-- Sessions with related files have files that are related by every weaker relation. -/
theorem Over.mono {B : Backdrop} {W W' : Workspace → Workspace → Prop} {s t : Session}
    (h : B.Over W s t) (hW : ∀ w v, W w v → W' w v) : B.Over W' s t := ⟨hW _ _ h.1, h.2⟩

/-- Neither the console nor the number of clock readings matters. -/
theorem Over.shows {B : Backdrop} {W : Workspace → Workspace → Prop} {s t : Session}
    (h : B.Over W s t) (console console' : List String) (readings readings' : Nat) :
    B.Over W { s with console, readings }
      { t with console := console', readings := readings' } :=
  ⟨h.1, B.shows s.files t.files console console' readings readings' h.2⟩

/-- The sessions agree on everything. -/
def work : Backdrop where
  Holds s t := ∃ files console readings, t = { s with files, console, readings }
  environment := by
    rintro s _ ⟨_, _, _, rfl⟩
    rfl
  shows := by
    rintro s _ _ files _ console _ readings ⟨_, _, _, rfl⟩
    exact ⟨files, console, readings, rfl⟩
  lists := by
    rintro s _ run ⟨files, console, readings, rfl⟩
    exact ⟨files, console, readings, rfl⟩

/-- The sessions have an environment in common. -/
def within (environment : Settings.Environment) : Backdrop where
  Holds s t := s.environment = environment ∧ t.environment = environment
  environment h := h.1.trans h.2.symm
  shows _ _ _ _ _ _ h := h
  lists _ h := h

end Backdrop

namespace Action

variable {α α' β β' ε : Type} {around around' : Surroundings}

/-- Two actions, performed in related sessions, end alike. -/
def Paired (around around' : Surroundings) (R : Session → Session → Prop)
    (Q : α → β → Session → Session → Prop) (E : Session → Session → Prop) (a : Action α)
    (b : Action β) : Prop :=
  ∀ s t, R s t → EndsAlike Q E (perform a around s) (perform b around' t)

namespace Paired

variable {R R' S E E' : Session → Session → Prop} {Q Q' : α → β → Session → Session → Prop}
  {Q₂ : α' → β' → Session → Session → Prop} {B : Backdrop}
  {W W' W₂ : Workspace → Workspace → Prop}

/-- A pair stays one when more is known before and less is asked after. -/
theorem mono {a : Action α} {b : Action β} (h : Paired around around' R Q E a b)
    (hR : ∀ s t, R' s t → R s t) (hQ : ∀ x y s t, Q x y s t → Q' x y s t)
    (hE : ∀ s t, E s t → E' s t) : Paired around around' R' Q' E' a b :=
  fun s t hst ↦ (h s t (hR s t hst)).mono hQ hE

/-- A pair stays one when less is asked of what failures leave. -/
theorem monoError {a : Action α} {b : Action β} (h : Paired around around' R Q E a b)
    (hE : ∀ s t, E s t → E' s t) : Paired around around' R Q E' a b :=
  h.mono (fun _ _ hst ↦ hst) (fun _ _ _ _ hst ↦ hst) hE

/-- Giving values that are related. -/
theorem pure {x : α} {y : β} (h : ∀ s t, R s t → Q x y s t) :
    Paired around around' R Q E (Pure.pure x) (Pure.pure y) :=
  fun s t hst ↦ .ok (h s t hst)

/-- Giving one value. -/
theorem pureSame (x : α) :
    Paired around around' R (Same R) E (Pure.pure x) (Pure.pure x) :=
  pure fun _ _ hst ↦ ⟨rfl, hst⟩

/-- Failing with one error. -/
theorem throw (e : Failure) (h : ∀ s t, R s t → E s t) :
    Paired around around' R Q E (MonadExcept.throw e) (MonadExcept.throw e) :=
  fun s t hst ↦ .error (h s t hst)

/-- Refusing with one error, or giving one value. -/
theorem ofExcept (failure : ε → Failure) (r : Except ε α) :
    Paired around around' R (Same R) R (ofExcept failure r) (ofExcept failure r) := by
  intro s t hst
  rw [perform_ofExcept, perform_ofExcept]
  cases r with
  | ok x => exact .ok ⟨rfl, hst⟩
  | error e => exact .error hst

/-- Pairs one after the other. -/
theorem bind {a : Action α} {b : Action β} {f : α → Action α'} {g : β → Action β'}
    (hab : Paired around around' R Q E a b)
    (hfg : ∀ x y, Paired around around' (Q x y) Q₂ E (f x) (g y)) :
    Paired around around' R Q₂ E (a >>= f) (b >>= g) := by
  intro s t hst
  have hfirst := hab s t hst
  rw [perform_bind, perform_bind]
  generalize perform a around s = p at hfirst ⊢
  generalize perform b around' t = q at hfirst ⊢
  cases hfirst with
  | ok h => exact hfg _ _ _ _ h
  | error h => exact .error h

/-- A pair after one that gives related values. -/
theorem bindWith {P : α → β → Prop} {a : Action α} {b : Action β} {f : α → Action α'}
    {g : β → Action β'} (hab : Paired around around' R (fun x y s t ↦ P x y ∧ S s t) E a b)
    (hfg : ∀ x y, P x y → Paired around around' S Q₂ E (f x) (g y)) :
    Paired around around' R Q₂ E (a >>= f) (b >>= g) :=
  hab.bind fun x y s t hst ↦ hfg x y hst.1 s t hst.2

/-- A pair after one that gives the same values. -/
theorem bindSame {a b : Action α} {f : α → Action α'} {g : α → Action β'}
    (hab : Paired around around' R (Same S) E a b)
    (hfg : ∀ x, Paired around around' S Q₂ E (f x) (g x)) :
    Paired around around' R Q₂ E (a >>= f) (b >>= g) := by
  refine hab.bindWith fun x y hxy ↦ ?_
  cases hxy
  exact hfg x

/-- Refusing with one error, or going on with the one value that there is. -/
theorem ofExceptBind {f : α → Action α'} {g : α → Action β'} (failure : ε → Failure)
    (r : Except ε α) (hR : ∀ s t, R s t → E s t)
    (hfg : ∀ x, r = .ok x → Paired around around' R Q₂ E (f x) (g x)) :
    Paired around around' R Q₂ E (Action.ofExcept failure r >>= f)
      (Action.ofExcept failure r >>= g) := by
  intro s t hst
  rw [perform_bind, perform_bind, perform_ofExcept, perform_ofExcept]
  cases r with
  | ok x => exact hfg x rfl s t hst
  | error e => exact .error (hR s t hst)

/-- Going on with the sessions as they are. -/
theorem getBind {f : Session → Action α} {g : Session → Action β}
    (h : ∀ s t, R s t → Paired around around' R Q E (f s) (g t)) :
    Paired around around' R Q E (MonadState.get >>= f) (MonadState.get >>= g) := by
  intro s t hst
  rw [perform_bind, perform_bind, perform_get, perform_get]
  exact h s t hst s t hst

/-- Going on in the two surroundings. -/
theorem readBind {f : Surroundings → Action α} {g : Surroundings → Action β}
    (h : Paired around around' R Q E (f around) (g around')) :
    Paired around around' R Q E (MonadReader.read >>= f) (MonadReader.read >>= g) := by
  intro s t hst
  rw [perform_bind, perform_bind, perform_read, perform_read]
  exact h s t hst

/-- Failures are handled in pairs. -/
theorem tryCatch {a : Action α} {b : Action β} {f : Failure → Action α} {g : Failure → Action β}
    (hab : Paired around around' R Q S a b)
    (hfg : ∀ e, Paired around around' S Q E (f e) (g e)) :
    Paired around around' R Q E (MonadExcept.tryCatch a f) (MonadExcept.tryCatch b g) := by
  intro s t hst
  have hfirst := hab s t hst
  rw [perform_tryCatch, perform_tryCatch]
  generalize perform a around s = p at hfirst ⊢
  generalize perform b around' t = q at hfirst ⊢
  cases hfirst with
  | ok h => exact .ok h
  | error h => exact hfg _ _ _ h

/-- The outcomes of a pair that gives the same values are the same. -/
theorem outcome {a b : Action α} (hab : Paired around around' R (Same S) S a b) :
    Paired around around' R (Same S) E (outcome a) (outcome b) := by
  intro s t hst
  have hends := hab s t hst
  rw [perform_outcome, perform_outcome]
  generalize perform a around s = p at hends ⊢
  generalize perform b around' t = q at hends ⊢
  cases hends with
  | ok h => exact .ok ⟨congrArg Except.ok h.1, h.2⟩
  | error h => exact .ok ⟨rfl, h⟩

/-- Pairs made for each element of a list in turn. -/
theorem mapM {f : α' → Action α} {g : α' → Action α} (l : List α')
    (hfg : ∀ x ∈ l, Paired around around' R (Same R) E (f x) (g x)) :
    Paired around around' R (Same R) E (l.mapM f) (l.mapM g) := by
  induction l with
  | nil => exact pureSame []
  | cons x l ih =>
      rw [List.mapM_cons, List.mapM_cons]
      refine (hfg x List.mem_cons_self).bindSame fun y ↦ ?_
      refine (ih fun z hz ↦ hfg z (List.mem_cons_of_mem _ hz)).bindSame fun ys ↦ ?_
      exact pureSame _

/-- Loops over a list whose turns are pairs. -/
theorem forIn {f g : α' → α → Action (ForInStep α)} (l : List α') (x : α)
    (hfg : ∀ y ∈ l, ∀ x, Paired around around' R (Same R) E (f y x) (g y x)) :
    Paired around around' R (Same R) E (ForIn.forIn l x f) (ForIn.forIn l x g) := by
  induction l generalizing x with
  | nil => exact pureSame x
  | cons y l ih =>
      rw [List.forIn_cons, List.forIn_cons]
      refine (hfg y List.mem_cons_self x).bindSame fun turn ↦ ?_
      cases turn with
      | done x => exact pureSame x
      | yield x => exact ih x fun z hz ↦ hfg z (List.mem_cons_of_mem _ hz)

/-- Showing two texts that both can be shown, or that are refused alike. -/
theorem say {text text' : String} (h : (Markup.render text).map (fun _ ↦ ()) =
      (Markup.render text').map (fun _ ↦ ())) :
    Paired around around' (B.Over W) (Same (B.Over W)) (B.Over W) (say text) (say text') := by
  intro s t hst
  rw [perform_say, perform_say]
  generalize Markup.render text = shown at h ⊢
  generalize Markup.render text' = shown' at h ⊢
  cases shown with
  | ok x =>
      cases shown' with
      | ok y => exact .ok ⟨rfl, hst.shows _ _ _ _⟩
      | error e => cases h
  | error e =>
      cases shown' with
      | ok y => cases h
      | error e' =>
          cases h
          exact .error hst

/-- Showing a line about a part of the program. -/
theorem debug (enabled : Bool) (part text : String) :
    Paired around around' (B.Over W) (Same (B.Over W)) E (debug enabled part text)
      (debug enabled part text) := by
  intro s t hst
  cases enabled with
  | false => exact .ok ⟨rfl, hst⟩
  | true => exact .ok ⟨rfl, hst.shows _ _ _ _⟩

/-- Reading the two clocks. -/
theorem readClock :
    Paired around around' (B.Over W) (fun _ _ ↦ B.Over W) E readClock readClock := by
  intro s t hst
  rw [perform_readClock, perform_readClock]
  exact .ok (hst.shows _ _ _ _)

/-- Working on the files in pairs. -/
theorem onFiles {a b : Attempt FileError α} (h : Attempt.Paired W (Same W') W₂ a b) :
    Paired around around' (B.Over W) (Same (B.Over W')) (B.Over W₂) (onFiles a) (onFiles b) := by
  intro s t hst
  have hends := h s.files t.files hst.1
  rw [perform_onFiles, perform_onFiles]
  generalize Attempt.perform a s.files = p at hends ⊢
  generalize Attempt.perform b t.files = q at hends ⊢
  have hshows := fun files files' ↦
    B.shows files files' s.console t.console s.readings t.readings hst.2
  cases hends with
  | ok h => exact .ok ⟨h.1, h.2, hshows _ _⟩
  | error h => exact .error ⟨h, hshows _ _⟩

/-- Working on the files in pairs, with a failure of one's own. -/
theorem onFilesElse (failure : FileError → Failure) {a b : Attempt FileError α}
    (h : Attempt.Paired W (Same W') W₂ a b) :
    Paired around around' (B.Over W) (Same (B.Over W')) (B.Over W₂) (onFilesElse failure a)
      (onFilesElse failure b) := by
  refine (onFiles h).tryCatch fun e ↦ ?_
  cases e <;> exact throw _ fun _ _ hst ↦ hst

/-- Failures of the file system are given one cause in pairs. -/
theorem refusedAs (failure : FileError → Failure) {a : Action α} {b : Action β}
    (hab : Paired around around' R Q S a b) :
    Paired around around' R Q S (refusedAs failure a) (refusedAs failure b) :=
  hab.tryCatch fun e ↦ by cases e <;> exact throw _ fun _ _ hst ↦ hst

/-- Refusing one path. -/
theorem checkPath (p : Path) :
    Paired around around' R (Same R) R (checkPath p) (checkPath p) := by
  unfold Action.checkPath
  split
  · exact throw _ fun _ _ hst ↦ hst
  · exact pureSame _

/-- Looking up a path that leads to the same on both sides. -/
theorem lookUp {p : Path} (h : ∀ w v, W w v → w.lookUp p = v.lookUp p) :
    Paired around around' (B.Over W) (Same (B.Over W)) (B.Over W) (lookUp p) (lookUp p) := by
  refine getBind fun s t hst ↦ ?_
  rw [h _ _ hst.1]
  exact ofExcept _ _

/-- Bytes that have to be text. -/
theorem decoded (bytes : List UInt8) :
    Paired around around' R (Same R) R (decoded bytes) (decoded bytes) :=
  (ofExcept _ _).bindSame fun _ ↦ pureSame _

/-- An integer that has to be written. -/
theorem writable (n : Int) :
    Paired around around' R (Same R) R (writable n) (writable n) :=
  (ofExcept _ _).bindSame fun _ ↦ pureSame _

/-- Making directories in pairs. -/
theorem makeDirectories {p : Path}
    (h : Attempt.Paired W (Same W') W (Workspace.makeDirectories p)
      (Workspace.makeDirectories p)) :
    Paired around around' (B.Over W) (Same (B.Over W')) (B.Over W) (makeDirectories p)
      (makeDirectories p) :=
  (checkPath p).bindSame fun _ ↦ onFiles h

/-- Listing the symbols of an archive that has the same content on both sides. -/
theorem runLister (run : Invocation) {archive : Path}
    (htools : around.tools.listSymbols = around'.tools.listSymbols)
    (h : ∀ w v, W w v → w.content? archive = v.content? archive) :
    Paired around around' (B.Over W) (Same (B.Over W)) E (runLister run archive)
      (runLister run archive) := by
  intro s t hst
  rw [perform_runLister, perform_runLister, htools, h _ _ hst.1]
  exact .ok ⟨rfl, hst.1, B.lists run hst.2⟩

end Paired
end Action
end Vendoring
