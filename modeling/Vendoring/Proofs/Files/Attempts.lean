import Vendoring.Files.Copy

/-!
# Attempts on files

What an attempt gives and how it leaves the workspace, for each way of putting attempts together
and for each operation on files. An operation is described by the place that its path leads to. A
property of workspaces that operations preserve is preserved by attempts put together of them.
-/

namespace Vendoring.Files

namespace Attempt

variable {ε α β : Type}

/-- Make an attempt on a workspace. -/
def perform (a : Attempt ε α) (w : Workspace) : Except ε α × Workspace := a.run.run w

/-- Giving a value leaves the workspace as it is. -/
@[simp]
theorem perform_pure (a : α) (w : Workspace) :
    perform (pure a : Attempt ε α) w = (.ok a, w) := rfl

/-- A failure leaves the workspace as it is. -/
@[simp]
theorem perform_throw (e : ε) (w : Workspace) :
    perform (throw e : Attempt ε α) w = (.error e, w) := rfl

/-- Looking at the workspace leaves it as it is. -/
@[simp]
theorem perform_get (w : Workspace) :
    perform (get : Attempt ε Workspace) w = (.ok w, w) := rfl

/-- A result that is known leaves the workspace as it is. -/
@[simp]
theorem perform_liftM (r : Except ε α) (w : Workspace) :
    perform (liftM r : Attempt ε α) w = (r, w) := by
  cases r <;> rfl

/-- An attempt after another works on what the first one leaves, unless that fails. -/
theorem perform_bind (a : Attempt ε α) (f : α → Attempt ε β) (w : Workspace) :
    perform (a >>= f) w = match perform a w with
      | (.ok x, v) => perform (f x) v
      | (.error e, v) => (.error e, v) := by
  show (match (a w : Except ε α × Workspace) with
    | (x, v) => ExceptT.bindCont (m := StateM Workspace) f x v) =
    match (a w : Except ε α × Workspace) with
    | (.ok x, v) => f x v
    | (.error e, v) => (.error e, v)
  rcases (a w : Except ε α × Workspace) with ⟨_ | _, _⟩ <;> rfl

/-- Two attempts give a value exactly when both do, one after the other. -/
theorem perform_bind_eq_ok {a : Attempt ε α} {f : α → Attempt ε β} {b : β} {w v : Workspace} :
    perform (a >>= f) w = (.ok b, v) ↔
      ∃ x u, perform a w = (.ok x, u) ∧ perform (f x) u = (.ok b, v) := by
  rw [perform_bind]
  rcases perform a w with ⟨e | x, u⟩
  · constructor
    · rintro ⟨⟩
    · rintro ⟨x, u, ⟨⟩, _⟩
  · constructor
    · exact fun h ↦ ⟨x, u, rfl, h⟩
    · rintro ⟨x', u', hx, h⟩
      cases hx
      exact h

/-- A failure is handled in what the attempt that failed leaves. -/
theorem perform_tryCatch (a : Attempt ε α) (f : ε → Attempt ε α) (w : Workspace) :
    perform (tryCatch a f) w = match perform a w with
      | (.ok x, v) => (.ok x, v)
      | (.error e, v) => perform (f e) v := by
  simp only [perform, tryCatch, tryCatchThe, MonadExceptOf.tryCatch, ExceptT.tryCatch,
    ExceptT.run, ExceptT.mk, StateT.run, bind, StateT.bind]
  rcases (a w : Except ε α × Workspace) with ⟨_ | _, _⟩ <;> rfl

/-- A value given stays when errors are renamed. -/
@[simp]
theorem mapError_ok {ε' : Type} (f : ε → ε') (a : α) :
    (Except.ok a : Except ε α).mapError f = .ok a := rfl

/-- An error is renamed. -/
@[simp]
theorem mapError_error {ε' : Type} (f : ε → ε') (e : ε) :
    (Except.error e : Except ε α).mapError f = .error (f e) := rfl

/-- Naming the path of an attempt changes its error alone. -/
theorem perform_named (path : String) (a : Attempt Cause α) (w : Workspace) :
    perform (Workspace.named path a) w =
      ((perform a w).1.mapError (.system · path), (perform a w).2) := by
  show (match (a w : Except Cause α × Workspace) with
    | (x, v) => ((x.mapError fun c ↦ FileError.system c path : Except FileError α), v)) = _
  rfl

/-- A named attempt gives a value exactly when the attempt does. -/
theorem perform_named_eq_ok {path : String} {a : Attempt Cause α} {x : α} {w v : Workspace} :
    perform (Workspace.named path a) w = (.ok x, v) ↔ perform a w = (.ok x, v) := by
  rw [perform_named]
  rcases perform a w with ⟨e | y, u⟩
  · simp
  · simp

end Attempt

namespace Workspace

open Attempt

/-- A directory is made where nothing is yet. -/
theorem perform_makeDirectory (p : Path) (w : Workspace) :
    perform (makeDirectory p) w = match w.resolve p with
      | .error e => (.error e, w)
      | .ok l => match w.tree.find? l with
        | some _ => (.error .alreadyExists, w)
        | none => (.ok (), { w with tree := w.tree.put l .directory }) := by
  simp only [makeDirectory, perform_bind, perform_get, perform_liftM]
  cases w.resolve p with
  | error e => rfl
  | ok l =>
      dsimp only
      cases w.tree.find? l with
      | none => rfl
      | some e => rfl

/-- A file is written where no directory is. -/
theorem perform_writeFile (p : Path) (bytes : List UInt8) (w : Workspace) :
    perform (writeFile p bytes) w = match w.resolve p with
      | .error e => (.error e, w)
      | .ok l => match w.tree.find? l with
        | some .directory => (.error .isDirectory, w)
        | _ => (.ok (), { w with tree := w.tree.put l (.file bytes) }) := by
  simp only [writeFile, perform_bind, perform_get, perform_liftM]
  cases w.resolve p with
  | error e => rfl
  | ok l =>
      dsimp only
      rcases w.tree.find? l with _ | (_ | _)
      · rfl
      · rfl
      · rfl

/-- The content of a file is read without changing the workspace. -/
theorem perform_readFile (p : Path) (w : Workspace) :
    perform (readFile p) w = match w.resolve p with
      | .error e => (.error e, w)
      | .ok l => match w.tree.find? l with
        | some (.file bytes) => (.ok bytes, w)
        | some .directory => (.error .isDirectory, w)
        | none => (.error .noEntry, w) := by
  simp only [readFile, perform_bind, perform_get, perform_liftM]
  cases w.resolve p with
  | error e => rfl
  | ok l =>
      dsimp only
      rcases w.tree.find? l with _ | (_ | _)
      · rfl
      · rfl
      · rfl

/-- The issues that a part of a tree copy ends with. -/
def issuesOf (source target : String) : Except FileError Unit → List CopyIssue
  | .ok _ => []
  | .error (.tree issues) => issues
  | .error (.sameFile s t) => (FileError.sameFile s t).message.toList.map .character
  | .error (.system cause path) => [.failed source target (FileError.system cause path).message]

/-- Collecting the issues of a part does what the part does. -/
theorem perform_collect (source target : String) (part : Attempt FileError Unit)
    (w : Workspace) :
    perform (liftM (collect source target part) : Attempt FileError (List CopyIssue)) w =
      (.ok (issuesOf source target (perform part w).1), (perform part w).2) := by
  have hlift (x : StateM Workspace (List CopyIssue)) :
      perform (liftM x : Attempt FileError (List CopyIssue)) w = (.ok (x.run w).1, (x.run w).2) :=
    rfl
  rw [hlift, collect, StateT.run_bind]
  unfold perform
  generalize part.run.run w = result
  rcases result with ⟨(_ | _ | _) | _, v⟩
  all_goals rfl

end Workspace

/-! ### What attempts preserve -/

namespace Attempt

variable {ε α β : Type} {I : Workspace → Prop}

/-- An attempt preserves a property of workspaces, whether it fails or not. -/
def Preserves (I : Workspace → Prop) (a : Attempt ε α) : Prop := ∀ w, I w → I (perform a w).2

namespace Preserves

/-- Giving a value preserves every property. -/
theorem pure (a : α) : Preserves I (Pure.pure a : Attempt ε α) := fun _ hw ↦ hw

/-- A failure preserves every property. -/
theorem throw (e : ε) : Preserves I (MonadExcept.throw e : Attempt ε α) := fun _ hw ↦ hw

/-- Attempts one after the other preserve what each one preserves. -/
theorem bind {a : Attempt ε α} {f : α → Attempt ε β} (ha : Preserves I a)
    (hf : ∀ x, Preserves I (f x)) : Preserves I (a >>= f) := by
  intro w hw
  have hfirst := ha w hw
  rw [perform_bind]
  split
  · next x v hv =>
      rw [hv] at hfirst
      exact hf x v hfirst
  · next e v hv =>
      rw [hv] at hfirst
      exact hfirst

/-- Going on with the workspace as it is. -/
theorem getBind {f : Workspace → Attempt ε α} (hf : ∀ w, I w → Preserves I (f w)) :
    Preserves I (MonadState.get >>= f) := by
  intro w hw
  rw [perform_bind, perform_get]
  exact hf w hw w hw

/-- An attempt and the handling of its failure preserve what each one preserves. -/
theorem tryCatch {a : Attempt ε α} {f : ε → Attempt ε α} (ha : Preserves I a)
    (hf : ∀ e, Preserves I (f e)) : Preserves I (MonadExcept.tryCatch a f) := by
  intro w hw
  have hfirst := ha w hw
  rw [perform_tryCatch]
  split
  · next x v hv =>
      rw [hv] at hfirst
      exact hfirst
  · next e v hv =>
      rw [hv] at hfirst
      exact hf e v hfirst

/-- A choice between attempts preserves what both preserve. -/
theorem ite {c : Prop} [Decidable c] {a b : Attempt ε α} (ha : Preserves I a)
    (hb : Preserves I b) : Preserves I (if c then a else b) := by
  split
  · exact ha
  · exact hb

/-- Naming the path of an attempt preserves what the attempt preserves. -/
theorem named {a : Attempt Cause α} (ha : Preserves I a) (text : String) :
    Preserves I (Workspace.named text a) := by
  intro w hw
  rw [perform_named]
  exact ha w hw

/-- Collecting the issues of an attempt preserves what the attempt preserves. -/
theorem collect {part : Attempt FileError Unit} (hpart : Preserves I part)
    (source target : String) : Preserves I (liftM (Workspace.collect source target part) :
      Attempt FileError (List CopyIssue)) := by
  intro w hw
  rw [Workspace.perform_collect]
  exact hpart w hw

/-- An attempt made for each element of a list in turn preserves what each one preserves. -/
theorem foldlM {f : β → α → Attempt ε β} (l : List α) (hf : ∀ b, ∀ x ∈ l, Preserves I (f b x))
    (b : β) : Preserves I (l.foldlM f b) := by
  induction l generalizing b with
  | nil => exact pure b
  | cons x l ih =>
      rw [List.foldlM_cons]
      exact (hf b x List.mem_cons_self).bind fun c ↦
        ih (fun c y hy ↦ hf c y (List.mem_cons_of_mem _ hy)) c

/-- Reading a file preserves every property. -/
theorem readFile (p : Path) : Preserves I (Workspace.readFile p) := by
  intro w hw
  rw [Workspace.perform_readFile]
  split
  · exact hw
  · split
    · exact hw
    · exact hw
    · exact hw

/-- Copying a file preserves what writing it preserves, to the target or into it. -/
theorem copyFile {source target : Reference}
    (hwrite : ∀ w, I w → ∀ bytes, Preserves I (Workspace.writeFile
      (if w.isDirectory target.path then
        Reference.ofText (Reference.entryText target.text source.path.name)
      else target).path bytes)) : Preserves I (Workspace.copyFile source target) := by
  refine getBind fun w hw ↦ ?_
  have hwritten := hwrite w hw
  dsimp only at hwritten ⊢
  generalize (if w.isDirectory target.path then
    Reference.ofText (Reference.entryText target.text source.path.name) else target) = written
      at hwritten ⊢
  have hcopy : Preserves I (do
      let bytes ← Workspace.named source.text (Workspace.readFile source.path)
      Workspace.named written.text (Workspace.writeFile written.path bytes)) :=
    ((readFile _).named _).bind fun bytes ↦ (hwritten bytes).named _
  split
  · exact (throw _).bind fun _ ↦ hcopy
  · exact hcopy

/-- Copying a tree preserves what making sure of the target and copying each entry preserves, for
sources and targets of which something holds that goes on to hold of their entries. -/
theorem copyTreeUpTo {T : String → String → Prop}
    (hensure : ∀ source target, T source target →
      Preserves I (Workspace.ensureDirectory (.ofString target) target))
    (hentry : ∀ source target, T source target → ∀ w, I w →
      ∀ name ∈ w.names (.ofString source),
        T (Reference.listed source name).text (Reference.entryText target name) ∧
        Preserves I (Workspace.copyFile (Reference.listed source name)
          (.ofText (Reference.entryText target name))))
    (depth : Nat) {source target : String} (h : T source target) :
    Preserves I (Workspace.copyTreeUpTo depth source target) := by
  induction depth generalizing source target with
  | zero => exact throw _
  | succ depth ih =>
      refine getBind fun w hw ↦ ?_
      refine (hensure source target h).bind fun _ ↦ ?_
      refine (foldlM _ ?_ _).bind fun issues ↦ ite (pure _) (throw _)
      intro issues name hname
      obtain ⟨hbelow, hcopy⟩ := hentry source target h w hw name hname
      refine getBind fun _ _ ↦ ?_
      exact (collect (ite (ih hbelow) hcopy) _ _).bind fun more ↦ pure _

end Preserves

/-! ### What attempts fail with -/

/-- Whatever an attempt fails with has a property. -/
def FailsWith (E : ε → Prop) (a : Attempt ε α) : Prop :=
  ∀ w e v, perform a w = (.error e, v) → E e

namespace FailsWith

variable {E : ε → Prop}

/-- Giving a value does not fail. -/
theorem pure (a : α) : FailsWith E (Pure.pure a : Attempt ε α) := by
  rintro w e v ⟨⟩

/-- A failure is with the error given. -/
theorem throw {e : ε} (he : E e) : FailsWith E (MonadExcept.throw e : Attempt ε α) := by
  rintro w _ v ⟨⟩
  exact he

/-- Attempts one after the other fail with what either fails with. -/
theorem bind {a : Attempt ε α} {f : α → Attempt ε β} (ha : FailsWith E a)
    (hf : ∀ x, FailsWith E (f x)) : FailsWith E (a >>= f) := by
  intro w e v h
  rw [perform_bind] at h
  split at h
  · next x u hu => exact hf x u e v h
  · next hu =>
      cases h
      exact ha w _ _ hu

/-- Looking at the workspace does not fail. -/
theorem get : FailsWith E (MonadState.get : Attempt ε Workspace) := by
  rintro w e v ⟨⟩

/-- A choice between attempts fails with what either fails with. -/
theorem ite {c : Prop} [Decidable c] {a b : Attempt ε α} (ha : FailsWith E a)
    (hb : FailsWith E b) : FailsWith E (if c then a else b) := by
  split
  · exact ha
  · exact hb

/-- An attempt made for each element of a list in turn fails with what one of them fails with. -/
theorem foldlM {f : β → α → Attempt ε β} (l : List α) (hf : ∀ b x, FailsWith E (f b x)) (b : β) :
    FailsWith E (l.foldlM f b) := by
  induction l generalizing b with
  | nil => exact pure b
  | cons x l ih =>
      rw [List.foldlM_cons]
      exact (hf b x).bind ih

section Files

variable {E : FileError → Prop} (hE : ∀ cause path, E (.system cause path))
include hE

/-- A named attempt is refused by the file system. -/
theorem named (a : Attempt Cause α) (text : String) : FailsWith E (Workspace.named text a) := by
  intro w e v h
  rw [perform_named] at h
  cases hmade : (perform a w).1 with
  | ok x =>
      rw [hmade] at h
      cases h
  | error cause =>
      rw [hmade] at h
      cases h
      exact hE cause text

/-- Making sure of a directory is refused by the file system. -/
theorem ensureDirectory (p : Path) (text : String) :
    FailsWith E (Workspace.ensureDirectory p text) := by
  intro w e v h
  unfold Workspace.ensureDirectory at h
  rw [perform_tryCatch] at h
  split at h
  · cases h
  · next e' u hu =>
      have he := named hE _ _ _ _ _ hu
      exact get.bind (fun _ ↦ .ite (.pure _) (.throw he)) u e v h

/-- Copying a file is refused by the file system or because the file is its own target. -/
theorem copyFile (hsame : ∀ source target, E (.sameFile source target))
    (source target : Reference) : FailsWith E (Workspace.copyFile source target) := by
  have hcopy (written : Reference) : FailsWith E (do
      let bytes ← Workspace.named source.text (Workspace.readFile source.path)
      Workspace.named written.text (Workspace.writeFile written.path bytes)) :=
    (named hE _ _).bind fun _ ↦ named hE _ _
  refine get.bind fun w ↦ ?_
  dsimp only
  generalize (if w.isDirectory target.path then
    Reference.ofText (Reference.entryText target.text source.path.name) else target) = written
  exact .ite ((FailsWith.throw (hsame _ _)).bind fun _ ↦ hcopy written) (hcopy written)

end Files

/-- Collecting issues does not fail. -/
theorem collect {E : FileError → Prop} (source target : String) (part : Attempt FileError Unit) :
    FailsWith E (liftM (Workspace.collect source target part) :
      Attempt FileError (List CopyIssue)) := by
  intro w e v h
  rw [Workspace.perform_collect] at h
  cases h

/-- Copying a tree that fails has an account, which is not empty. -/
theorem copyTreeUpTo (depth : Nat) (source target : String) :
    FailsWith (· ≠ .tree []) (Workspace.copyTreeUpTo depth source target) := by
  cases depth with
  | zero => exact .throw nofun
  | succ depth =>
      refine get.bind fun w ↦ (ensureDirectory (fun _ _ ↦ nofun) _ _).bind fun _ ↦ ?_
      refine (foldlM _ (fun issues name ↦ ?_) _).bind fun issues ↦ ?_
      · exact get.bind fun _ ↦ (collect _ _ _).bind fun _ ↦ .pure _
      · split
        · exact .pure _
        · next hissues =>
            refine .throw fun htree ↦ hissues ?_
            cases htree
            rfl

end FailsWith
end Attempt

end Vendoring.Files
