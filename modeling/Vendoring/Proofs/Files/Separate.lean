import Vendoring.Proofs.Files.Alike

/-!
# Operations that keep apart

Two footprints are separate when neither writes at, above or below where the other one begins. What
operations with the one leave then looks to operations with the other as it did before; only missing
directories above both may have been made, which they do not notice. So it makes no difference which
of them are performed first.
-/

namespace Vendoring.Files

instance (l m : Location) : Decidable (Apart l m) := inferInstanceAs (Decidable (_ ∧ _))

/-- Nothing is below two places that are apart. -/
theorem Apart.not_suffix {d e l : Location} (h : Apart d e) (hd : d <:+ l) : ¬e <:+ l := by
  intro he
  rcases List.suffix_or_suffix_of_suffix hd he with hde | hed
  · exact h.1 hde
  · exact h.2 hed

namespace Footprint

/-- Neither of two footprints writes at, above or below where the other one begins. -/
structure Separate (F G : Footprint) : Prop where
  left : ∀ d ∈ F.writes, ∀ root ∈ G.roots, Apart d root
  right : ∀ d ∈ G.writes, ∀ root ∈ F.roots, Apart d root

namespace Separate

variable {F G : Footprint} {l : Location}

/-- Being separate does not depend on an order. -/
theorem symm (h : F.Separate G) : G.Separate F := ⟨h.right, h.left⟩

/-- What the one covers the other one does not write. -/
theorem not_writes (h : F.Separate G) (hl : G.Covers l) : ¬F.Writes l := by
  obtain ⟨root, hroot, hrl⟩ := hl
  rintro ⟨d, hd, hdl⟩
  exact (h.left d hd root hroot).not_suffix hdl hrl

/-- What is on the way to where the one begins the other one does not write. -/
theorem not_writes_of_suffix (h : F.Separate G) {root : Location} (hroot : root ∈ G.roots)
    (hl : l <:+ root) : ¬F.Writes l := by
  rintro ⟨d, hd, hdl⟩
  exact (h.left d hd root hroot).1 (hdl.trans hl)

/-- What the one covers is not on the way to where the other one writes. -/
theorem not_onWay (h : F.Separate G) (hl : G.Covers l) : ¬F.OnWay l := by
  obtain ⟨root, hroot, hrl⟩ := hl
  rintro ⟨d, hd, hld⟩
  exact (h.left d hd root hroot).2 (hrl.trans hld)

end Separate
end Footprint

namespace Workspace

/-- A workspace looks like itself. -/
theorem Alike.refl {F : Footprint} {w : Workspace} (hw : w.Sound) : Alike F w w w w where
  start := ⟨hw, hw, rfl, fun _ _ ↦ rfl, fun _ _ _ _ _ ↦ Iff.rfl⟩
  left := hw
  right := hw
  leftHere := rfl
  rightHere := rfl
  within _ _ := rfl
  outside _ _ := .inl ⟨rfl, rfl⟩

/-- What operations leave of two workspaces that look alike to them. What they have written is the
same, except where it is exempt, and elsewhere nothing has changed but that directories are there in
both on the way to what is written. -/
structure Leaves (F : Footprint) (exempt : Location → Prop) (w₀ v₀ w v : Workspace) : Prop where
  left : w.Sound
  right : v.Sound
  leftHere : w.here = w₀.here
  rightHere : v.here = w₀.here
  within : ∀ l, F.Writes l → w.tree.find? l = v.tree.find? l ∨ exempt l
  outside : ∀ l, ¬F.Writes l →
    (w.tree.find? l = w₀.tree.find? l ∧ v.tree.find? l = v₀.tree.find? l) ∨
    (F.OnWay l ∧ w₀.NoFileAt l ∧ v₀.NoFileAt l ∧
      w.tree.find? l = some .directory ∧ v.tree.find? l = some .directory)

/-- Workspaces that still look alike are left. -/
theorem Alike.leaves {F : Footprint} {w₀ v₀ w v : Workspace} (h : Alike F w₀ v₀ w v)
    (exempt : Location → Prop) : Leaves F exempt w₀ v₀ w v where
  left := h.left
  right := h.right
  leftHere := h.leftHere
  rightHere := h.rightHere
  within l hl := .inl (h.within l hl)
  outside := h.outside

namespace Leaves

variable {F G : Footprint} {exempt exempt' : Location → Prop} {w₀ v₀ w v : Workspace}

/-- What operations leave looks, to operations that are separate from them, as it did before. -/
theorem alike (h : Leaves F exempt w₀ v₀ w v) (hsep : F.Separate G) (hw₀ : w₀.Sound) :
    Alike G w₀ w w₀ w := by
  have hcovered : ∀ l, G.Covers l → w₀.tree.find? l = w.tree.find? l := by
    intro l hl
    obtain ⟨hw, _⟩ | ⟨hon, _⟩ := h.outside l (hsep.not_writes hl)
    · exact hw.symm
    · exact absurd hon (hsep.not_onWay hl)
  exact {
    start := {
      left := hw₀
      right := h.left
      here := h.leftHere
      reads := fun l hl ↦ hcovered l hl.covers
      files := by
        intro root hroot l hl bytes
        obtain ⟨hw, _⟩ | ⟨_, hfree, _, hw, _⟩ := h.outside l (hsep.not_writes_of_suffix hroot hl)
        · rw [hw]
        · constructor
          · exact fun hfile ↦ absurd hfile (hfree bytes)
          · exact fun hfile ↦ nomatch hw.symm.trans hfile }
    left := hw₀
    right := h.left
    leftHere := rfl
    rightHere := h.leftHere
    within := fun l hl ↦ hcovered l hl.covers
    outside := fun _ _ ↦ .inl ⟨rfl, rfl⟩ }

section Order

variable {afterF afterG afterFG afterGF : Workspace}

private theorem find?_eq_or_of_writes (hsep : F.Separate G)
    (hF : Leaves F exempt w₀ afterG afterF afterGF)
    (hG : Leaves G exempt' w₀ afterF afterG afterFG) {l : Location} (hl : F.Writes l) :
    afterFG.tree.find? l = afterGF.tree.find? l ∨
      exempt l ∧ afterFG.tree.find? l = afterF.tree.find? l := by
  have hkept : afterFG.tree.find? l = afterF.tree.find? l := by
    obtain ⟨_, hkept⟩ | ⟨hon, _⟩ := hG.outside l (hsep.symm.not_writes hl.covers)
    · exact hkept
    · exact absurd hon (hsep.symm.not_onWay hl.covers)
  rcases hF.within l hl with hsame | hexempt
  · exact .inl (hkept.trans hsame)
  · exact .inr ⟨hexempt, hkept⟩

/-- It makes no difference which of two separate operations is performed first, except where what
they write is exempt: there the one performed last has left what the other one had written. -/
theorem find?_eq_or (hsep : F.Separate G) (hF : Leaves F exempt w₀ afterG afterF afterGF)
    (hG : Leaves G exempt' w₀ afterF afterG afterFG) (l : Location) :
    afterFG.tree.find? l = afterGF.tree.find? l ∨
      (exempt l ∧ afterFG.tree.find? l = afterF.tree.find? l) ∨
      (exempt' l ∧ afterGF.tree.find? l = afterG.tree.find? l) := by
  by_cases hwrites : F.Writes l
  · exact (find?_eq_or_of_writes hsep hF hG hwrites).imp_right .inl
  by_cases hwrites' : G.Writes l
  · exact (find?_eq_or_of_writes hsep.symm hG hF hwrites').imp Eq.symm .inr
  left
  -- Where neither writes, a directory that either has made is there in the end.
  obtain ⟨hafterF, hafterGF⟩ | ⟨_, _, _, hafterF, hafterGF⟩ := hF.outside l hwrites
  · obtain ⟨hafterG, hafterFG⟩ | ⟨_, _, _, hafterG, hafterFG⟩ := hG.outside l hwrites'
    · rw [hafterFG, hafterF, hafterGF, hafterG]
    · rw [hafterFG, hafterGF, hafterG]
  · obtain ⟨_, hafterFG⟩ | ⟨_, _, _, _, hafterFG⟩ := hG.outside l hwrites'
    · rw [hafterFG, hafterF, hafterGF]
    · rw [hafterFG, hafterGF]

end Order
end Leaves
end Workspace
end Vendoring.Files
