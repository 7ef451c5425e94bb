import Mathlib.Data.List.Nodup
import Vendoring.Settings.Environment

/-!
# Layers of variables

The environment and the files of variables as layers: a variable has the value of the first layer
that assigns it at all, be it an empty one. `get?_adoptFile` says that adopting a file adds it as
one more layer below the environment.
-/

namespace Vendoring.Settings

/-! ### What a file assigns -/

namespace EnvFile

variable {value? : String → Option String}

/-- The value that a file's text assigns to a name, given the values that its references stand
for. A name that stands alone assigns none. -/
def assigned? (value? : String → Option String) (text name : String) : Option String :=
  ((expand value? (parse text)).lookup name).join

private theorem mem_names_setBinding {bindings : List Binding} {name other : String}
    {value : Option String} (h : other ∈ (setBinding bindings name value).map Prod.fst) :
    other = name ∨ other ∈ bindings.map Prod.fst := by
  induction bindings with
  | nil =>
      left
      simpa [setBinding] using h
  | cons b rest ih =>
      obtain ⟨n, v⟩ := b
      by_cases hn : n = name
      · rw [setBinding, if_pos hn] at h
        rcases List.mem_cons.mp h with h | h
        · exact .inl h
        · exact .inr (List.mem_cons_of_mem _ h)
      · rw [setBinding, if_neg hn] at h
        rcases List.mem_cons.mp h with h | h
        · exact .inr (h ▸ List.mem_cons_self)
        · rcases ih h with h | h
          · exact .inl h
          · exact .inr (List.mem_cons_of_mem _ h)

/-- Setting the value of a name keeps the names distinct. -/
theorem nodup_setBinding {bindings : List Binding} (h : (bindings.map Prod.fst).Nodup)
    (name : String) (value : Option String) :
    ((setBinding bindings name value).map Prod.fst).Nodup := by
  induction bindings with
  | nil => exact List.nodup_singleton name
  | cons b rest ih =>
      obtain ⟨n, v⟩ := b
      obtain ⟨hnot, hrest⟩ := List.nodup_cons.mp h
      by_cases hn : n = name
      · rw [setBinding, if_pos hn]
        exact List.nodup_cons.mpr ⟨hn ▸ hnot, hrest⟩
      · rw [setBinding, if_neg hn]
        refine List.nodup_cons.mpr ⟨fun hmem ↦ ?_, ih hrest⟩
        rcases mem_names_setBinding hmem with h | h
        · exact hn h
        · exact hnot h

/-- Every name is bound once when references are replaced. -/
theorem nodup_expand (value? : String → Option String) (bindings : List Binding) :
    ((expand value? bindings).map Prod.fst).Nodup := by
  refine List.foldlRecOn
    (motive := fun before : List Binding ↦ (before.map Prod.fst).Nodup) bindings _
    List.nodup_nil ?_
  rintro before hbefore ⟨name, value⟩ -
  exact nodup_setBinding hbefore name _

end EnvFile

/-! ### Adoption -/

namespace Environment

/-- Bindings of distinct names that are adopted without a fault assign the variables that are not
set yet. -/
theorem get?_adopt {bindings : List EnvFile.Binding} (hnames : (bindings.map Prod.fst).Nodup)
    {e e' : Environment} (h : adopt bindings e = (.ok (), e')) (name : String) :
    e'.get? name = (e.get? name).or (bindings.lookup name).join := by
  fun_induction adopt bindings e with
  | case1 e =>
      cases h
      simp
  | case2 n rest e ih =>
      obtain ⟨hn, hrest⟩ := List.nodup_cons.mp hnames
      rw [ih hrest h, List.lookup_cons]
      split
      · next heq =>
          have hnone : rest.lookup name = none := by
            rw [List.lookup_eq_none_iff]
            rintro ⟨k, v⟩ hk
            rw [beq_iff_eq.mp heq]
            simpa using fun hkn : n = k ↦ hn (hkn ▸ List.mem_map.mpr ⟨(k, v), hk, rfl⟩)
          rw [hnone]
          rfl
      · rfl
  | case3 n value rest e hset ih =>
      obtain ⟨_, hrest⟩ := List.nodup_cons.mp hnames
      rw [ih hrest h, List.lookup_cons]
      split
      · next heq =>
          obtain ⟨v, hv⟩ := Option.isSome_iff_exists.mp hset
          rw [beq_iff_eq.mp heq, hv]
          rfl
      · rfl
  | case4 => cases h
  | case5 n value rest e hset hfault ih =>
      obtain ⟨_, hrest⟩ := List.nodup_cons.mp hnames
      rw [ih hrest h, List.lookup_cons]
      split
      · next heq =>
          have hnone : e.get? n = none := Option.not_isSome_iff_eq_none.mp hset
          rw [beq_iff_eq.mp heq, get?_set_self, hnone]
          rfl
      · next hne =>
          rw [get?_set_of_ne e value (by simpa using hne)]

/-- A file adopted without a fault assigns the variables that are not set yet. -/
theorem get?_adoptFile {text : String} {e e' : Environment}
    (h : adoptFile text e = (.ok (), e')) (name : String) :
    e'.get? name = (e.get? name).or (EnvFile.assigned? e.get? text name) :=
  get?_adopt (EnvFile.nodup_expand e.get? _) h name

end Environment

/-! ### The layers -/

/-- What each text of a file of variables assigns, the first one below the given values and each of
the others below all before it. -/
def fileLayers (value? : String → Option String) : List String → List (String → Option String)
  | [] => []
  | text :: rest =>
    let assigned := EnvFile.assigned? value? text
    assigned :: fileLayers (fun name ↦ (value? name).or (assigned name)) rest

/-- The value of a variable in the first of some layers that assigns it at all. -/
def firstAssigned (layers : List (String → Option String)) (name : String) : Option String :=
  layers.findSome? (· name)

/-- Two layers with nothing between them are like one. -/
theorem firstAssigned_or (upper lower : String → Option String)
    (layers : List (String → Option String)) :
    firstAssigned ((fun name ↦ (upper name).or (lower name)) :: layers) =
      firstAssigned (upper :: lower :: layers) := by
  funext name
  simp only [firstAssigned, List.findSome?_cons]
  cases upper name <;> rfl

end Vendoring.Settings
