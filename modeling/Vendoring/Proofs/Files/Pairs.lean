import Vendoring.Proofs.Files.Attempts

/-!
# Pairs of attempts

Two attempts, made on two workspaces, are compared by how they end: both give values that are
related, or both fail with the same error. A pair of attempts is described by a relation between the
workspaces before, one between the values and the workspaces after, and one between the workspaces
that failures leave. The laws here put pairs together in the ways in which attempts are put
together.
-/

namespace Vendoring.Files

/-- Two performances end alike: with related values, or with one and the same error. -/
inductive EndsAlike {ε α β σ : Type} (Q : α → β → σ → σ → Prop) (E : σ → σ → Prop) :
    Except ε α × σ → Except ε β × σ → Prop
  | ok {x : α} {y : β} {s t : σ} (h : Q x y s t) : EndsAlike Q E (.ok x, s) (.ok y, t)
  | error {e : ε} {s t : σ} (h : E s t) : EndsAlike Q E (.error e, s) (.error e, t)

/-- The values are the same, and what is left is related. -/
def Same {α σ : Type} (S : σ → σ → Prop) (x y : α) (s t : σ) : Prop := x = y ∧ S s t

namespace EndsAlike

variable {ε ε' α α' β β' σ : Type} {Q Q' : α → β → σ → σ → Prop} {E E' : σ → σ → Prop}

/-- Performances that end alike still do when less is asked of them. -/
theorem mono {p : Except ε α × σ} {q : Except ε β × σ} (h : EndsAlike Q E p q)
    (hQ : ∀ x y s t, Q x y s t → Q' x y s t) (hE : ∀ s t, E s t → E' s t) :
    EndsAlike Q' E' p q := by
  cases h with
  | ok h => exact ok (hQ _ _ _ _ h)
  | error h => exact error (hE _ _ h)

/-- Renaming the errors keeps the ends alike. -/
theorem mapError (f : ε → ε') {p : Except ε α × σ} {q : Except ε β × σ}
    (h : EndsAlike Q E p q) :
    EndsAlike Q E (p.1.mapError f, p.2) (q.1.mapError f, q.2) := by
  cases h with
  | ok h => exact ok h
  | error h => exact error h

end EndsAlike

namespace Attempt

variable {ε α α' β β' : Type}

/-- Two attempts, made on related workspaces, end alike. -/
def Paired (R : Workspace → Workspace → Prop) (Q : α → β → Workspace → Workspace → Prop)
    (E : Workspace → Workspace → Prop) (a : Attempt ε α) (b : Attempt ε β) : Prop :=
  ∀ w v, R w v → EndsAlike Q E (perform a w) (perform b v)

namespace Paired

variable {R R' S E E' : Workspace → Workspace → Prop}
  {Q Q' : α → β → Workspace → Workspace → Prop} {Q₂ : α' → β' → Workspace → Workspace → Prop}

/-- Every attempt is paired with itself on one and the same workspace. -/
theorem rfl (a : Attempt ε α) : Paired Eq (Same Eq) Eq a a := by
  rintro w _ ⟨⟩
  rcases perform a w with ⟨e | x, v⟩
  · exact .error (Eq.refl v)
  · exact .ok ⟨Eq.refl x, Eq.refl v⟩

/-- A pair stays one when more is known before and less is asked after. -/
theorem mono {a : Attempt ε α} {b : Attempt ε β} (h : Paired R Q E a b)
    (hR : ∀ w v, R' w v → R w v) (hQ : ∀ x y w v, Q x y w v → Q' x y w v)
    (hE : ∀ w v, E w v → E' w v) : Paired R' Q' E' a b :=
  fun w v hwv ↦ (h w v (hR w v hwv)).mono hQ hE

/-- Giving values that are related. -/
theorem pure {x : α} {y : β} (h : ∀ w v, R w v → Q x y w v) :
    Paired R Q E (Pure.pure x : Attempt ε α) (Pure.pure y) :=
  fun w v hwv ↦ .ok (h w v hwv)

/-- Failing with one error. -/
theorem throw (e : ε) (h : ∀ w v, R w v → E w v) :
    Paired R Q E (MonadExcept.throw e : Attempt ε α) (MonadExcept.throw e : Attempt ε β) :=
  fun w v hwv ↦ .error (h w v hwv)

/-- Pairs one after the other. -/
theorem bind {a : Attempt ε α} {b : Attempt ε β} {f : α → Attempt ε α'} {g : β → Attempt ε β'}
    (hab : Paired R Q E a b) (hfg : ∀ x y, Paired (Q x y) Q₂ E (f x) (g y)) :
    Paired R Q₂ E (a >>= f) (b >>= g) := by
  intro w v hwv
  have hfirst := hab w v hwv
  rw [perform_bind, perform_bind]
  generalize perform a w = p at hfirst ⊢
  generalize perform b v = q at hfirst ⊢
  cases hfirst with
  | ok h => exact hfg _ _ _ _ h
  | error h => exact .error h

/-- A pair after one that gives the same values. -/
theorem bindSame {a b : Attempt ε α} {f : α → Attempt ε α'} {g : α → Attempt ε β'}
    (hab : Paired R (Same S) E a b) (hfg : ∀ x, Paired S Q₂ E (f x) (g x)) :
    Paired R Q₂ E (a >>= f) (b >>= g) := by
  refine hab.bind fun x y ↦ ?_
  rintro w v ⟨rfl, hwv⟩
  exact hfg x w v hwv

/-- Going on with the workspaces as they are. -/
theorem getBind {f : Workspace → Attempt ε α} {g : Workspace → Attempt ε β}
    (h : ∀ w v, R w v → Paired R Q E (f w) (g v)) :
    Paired R Q E (MonadState.get >>= f) (MonadState.get >>= g) := by
  intro w v hwv
  rw [perform_bind, perform_bind, perform_get, perform_get]
  exact h w v hwv w v hwv

/-- Failures are handled in pairs. -/
theorem tryCatch {a : Attempt ε α} {b : Attempt ε β} {f : ε → Attempt ε α} {g : ε → Attempt ε β}
    (hab : Paired R Q S a b) (hfg : ∀ e, Paired S Q E (f e) (g e)) :
    Paired R Q E (MonadExcept.tryCatch a f) (MonadExcept.tryCatch b g) := by
  intro w v hwv
  have hfirst := hab w v hwv
  rw [perform_tryCatch, perform_tryCatch]
  generalize perform a w = p at hfirst ⊢
  generalize perform b v = q at hfirst ⊢
  cases hfirst with
  | ok h => exact .ok h
  | error h => exact hfg _ _ _ h

/-- Pairs made for each element of a list in turn. -/
theorem foldlM {f g : β → α → Attempt ε β} (l : List α)
    (hfg : ∀ b, ∀ x ∈ l, Paired R (Same R) E (f b x) (g b x)) (b : β) :
    Paired R (Same R) E (l.foldlM f b) (l.foldlM g b) := by
  induction l generalizing b with
  | nil => exact pure fun _ _ hwv ↦ ⟨Eq.refl b, hwv⟩
  | cons x l ih =>
      rw [List.foldlM_cons, List.foldlM_cons]
      exact (hfg b x List.mem_cons_self).bindSame fun c ↦
        ih (fun c y hy ↦ hfg c y (List.mem_cons_of_mem _ hy)) c

/-- Naming one path for both attempts keeps them paired. -/
theorem named {a : Attempt Cause α} {b : Attempt Cause β} (h : Paired R Q E a b)
    (path : String) : Paired R Q E (Workspace.named path a) (Workspace.named path b) := by
  intro w v hwv
  rw [perform_named, perform_named]
  exact (h w v hwv).mapError _

end Paired
end Attempt
end Vendoring.Files
