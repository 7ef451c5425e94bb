import Vendoring.Data.Validation

/-!
# Tables and lists that are read

What it takes that a field, a list or a result of reading is valid. A key that a table does not have
yet is added at its end, and a list is read as the list of what its items are read as. What is not
valid has issues, and those of a record lie in its fields.
-/

namespace Vendoring.Data

/-- Changing valid content is all that changes an outcome into valid content. -/
theorem Checked.map_eq_valid_iff {α β : Type} {f : α → β} {c : Checked α} {b : β} :
    f <$> c = .valid b ↔ ∃ a, c = .valid a ∧ f a = b := by
  cases c <;> simp [Functor.map, Checked.map]

section Fields

variable {α : Type} {entries : Entries} {field : String} {reader : Reader α} {default x : α}

/-- A field that has to be present is read exactly when it has a value that is. -/
theorem Entries.required_eq_valid_iff :
    entries.required field reader = .valid x ↔
      ∃ value, entries.get? field = some value ∧ reader value = .valid x := by
  unfold Entries.required
  cases entries.get? field with
  | none => simp
  | some value => simp [Checked.under_eq_valid_iff]

/-- A field that has a default is read exactly when it is decided by its value, or is the
default. -/
theorem Entries.withDefault_eq_valid_iff :
    entries.withDefault field reader default = .valid x ↔
      match entries.get? field with
      | some value => reader value = .valid x
      | none => x = default := by
  unfold Entries.withDefault
  cases entries.get? field with
  | none => simp [eq_comm]
  | some value => exact Checked.under_eq_valid_iff

end Fields

/-- Setting a new key adds it at the end. -/
theorem Entries.set_of_get?_eq_none {entries : Entries} {name : String} (v : Value)
    (h : entries.get? name = none) : entries.set name v = entries ++ [(name, v)] := by
  induction entries with
  | nil => rfl
  | cons e entries ih =>
    obtain ⟨k, x⟩ := e
    rw [Entries.get?, List.lookup_cons] at h
    split at h
    · cases h
    · next hk =>
      have hk : name ≠ k := by simpa using hk
      rw [Entries.set, if_neg (Ne.symm hk), ih h]
      rfl

/-- A key that a table holds once is none of those before it. -/
theorem Entries.get?_eq_none_of_nodup {before after : Entries} {name : String} {v : Value}
    (h : ((before ++ (name, v) :: after).map Prod.fst).Nodup) : before.get? name = none := by
  rw [Entries.get?, List.lookup_eq_none_iff]
  intro e he
  rw [List.map_append, List.nodup_append] at h
  exact bne_iff_ne.mpr (Ne.symm
    (h.2.2 e.1 (List.mem_map_of_mem he) name (List.mem_map_of_mem List.mem_cons_self)))

section Items

variable {α : Type} {reader : Reader α}

private theorem itemsFrom_map (value : α → Value) (h : ∀ a, reader (value a) = .valid a) (i : Nat)
    (items : List α) : Reader.itemsFrom reader i (items.map value) = .valid items := by
  induction items generalizing i with
  | nil => rfl
  | cons a items ih =>
    rw [List.map_cons, Reader.itemsFrom, h, ih]
    rfl

/-- A list of values, each of which is read as the item it was made from, is read as the list of
these items. -/
theorem Reader.items_map (problem : Problem) (value : α → Value)
    (h : ∀ a, reader (value a) = .valid a) (items : List α) :
    Reader.items problem reader (.list (items.map value)) = .valid items :=
  itemsFrom_map value h 0 items

private theorem itemsFrom_eq_valid_iff {value : α → Value}
    (h : ∀ v a, reader v = .valid a ↔ v = value a) {i : Nat} {vs : List Value} {items : List α} :
    Reader.itemsFrom reader i vs = .valid items ↔ vs = items.map value := by
  induction vs generalizing i items with
  | nil =>
      cases items with
      | nil => simp [Reader.itemsFrom]
      | cons a items => simp [Reader.itemsFrom]
  | cons v vs ih =>
      rw [Reader.itemsFrom, Checked.seq_eq_valid_iff]
      constructor
      · rintro ⟨_, rest, hhead, hrest, rfl⟩
        obtain ⟨a, ha, rfl⟩ := Checked.map_eq_valid_iff.mp hhead
        rw [Checked.under_eq_valid_iff, h] at ha
        rw [ih] at hrest
        rw [ha, hrest, List.map_cons]
      · intro hvs
        cases items with
        | nil => cases hvs
        | cons a items =>
            obtain ⟨rfl, rfl⟩ := List.cons.inj hvs
            exact ⟨_, items, Checked.map_eq_valid_iff.mpr
              ⟨a, Checked.under_eq_valid_iff.mpr ((h _ a).mpr rfl), rfl⟩, ih.mpr rfl, rfl⟩

/-- When a reader accepts just the values made from items, a list of items is read just from the
list of their values. -/
theorem Reader.items_eq_valid_iff {problem : Problem} {value : α → Value}
    (h : ∀ v a, reader v = .valid a ↔ v = value a) {v : Value} {items : List α} :
    Reader.items problem reader v = .valid items ↔ v = .list (items.map value) := by
  cases v with
  | list vs => simp [Reader.items, itemsFrom_eq_valid_iff h]
  | _ => simp [Reader.items, Checked.fail]

/-- A field of items that may be absent is read just from the list of their values, an absent one as
the empty list. -/
theorem Entries.withDefault_items_eq_valid_iff {entries : Entries} {field : String}
    {problem : Problem} {value : α → Value} (h : ∀ v a, reader v = .valid a ↔ v = value a)
    {items : List α} :
    entries.withDefault field (Reader.items problem reader) [] = .valid items ↔
      (entries.get? field).getD (.list []) = .list (items.map value) := by
  rw [Entries.withDefault_eq_valid_iff]
  cases entries.get? field with
  | none => simp
  | some v => exact Reader.items_eq_valid_iff h

end Items

section Issues

namespace Checked

variable {α β : Type}

/-- An outcome that is not valid has issues. -/
def Tells (c : Checked α) : Prop := c.issues = [] → ∃ a, c = .valid a

/-- An outcome that is not valid has issues, and all of them lie in some of the given fields. -/
structure TellsOf (fields : List String) (c : Checked α) : Prop where
  tells : c.Tells
  lies : ∀ issue ∈ c.issues, ∃ field ∈ fields, issue.path.head? = some (.field field)

/-- Valid content tells of nothing. -/
theorem tells_valid (a : α) : (valid a).Tells := fun _ ↦ ⟨a, rfl⟩

/-- A problem is an issue. -/
theorem tells_fail (problem : Problem) : (fail problem : Checked α).Tells := nofun

/-- The issues of two outcomes are those of the first and then those of the second. -/
theorem issues_seq (f : Checked (α → β)) (a : Checked α) :
    (f.seq a).issues = f.issues ++ a.issues := by
  cases f <;> cases a <;> rfl

/-- Two outcomes tell together what they tell apart. -/
theorem Tells.seq {f : Checked (α → β)} {a : Checked α} (hf : f.Tells) (ha : a.Tells) :
    (f.seq a).Tells := by
  intro hnone
  rw [issues_seq, List.append_eq_nil_iff] at hnone
  obtain ⟨g, rfl⟩ := hf hnone.1
  obtain ⟨x, rfl⟩ := ha hnone.2
  exact ⟨g x, rfl⟩

/-- Changing valid content leaves the issues. -/
theorem Tells.map {c : Checked α} (h : c.Tells) (f : α → β) : (c.map f).Tells := by
  cases c with
  | valid a => exact tells_valid _
  | invalid issues =>
      intro hnone
      obtain ⟨_, ha⟩ := h hnone
      cases ha

/-- Moving issues below a step leaves as many. -/
theorem Tells.under {c : Checked α} (h : c.Tells) (step : Step) : (c.under step).Tells := by
  cases c with
  | valid a => exact tells_valid _
  | invalid issues =>
      intro hnone
      obtain ⟨_, ha⟩ := h (List.map_eq_nil_iff.mp hnone)
      cases ha

/-- Changing valid content leaves the issues in their fields. -/
theorem TellsOf.map {fields : List String} {c : Checked α} (h : c.TellsOf fields) (f : α → β) :
    (c.map f).TellsOf fields where
  tells := h.tells.map f
  lies := by
    cases c with
    | valid a => exact nofun
    | invalid issues => exact h.lies

/-- The issues of two outcomes lie in the fields of both. -/
theorem TellsOf.seq {fields fields' : List String} {f : Checked (α → β)} {a : Checked α}
    (hf : f.TellsOf fields) (ha : a.TellsOf fields') : (f.seq a).TellsOf (fields ++ fields') where
  tells := hf.tells.seq ha.tells
  lies issue hissue := by
    rw [issues_seq, List.mem_append] at hissue
    rcases hissue with hissue | hissue
    · obtain ⟨field, hfield, hhead⟩ := hf.lies issue hissue
      exact ⟨field, List.mem_append_left _ hfield, hhead⟩
    · obtain ⟨field, hfield, hhead⟩ := ha.lies issue hissue
      exact ⟨field, List.mem_append_right _ hfield, hhead⟩

/-- What is told of a field's value lies in the field. -/
theorem Tells.field {c : Checked α} (h : c.Tells) (field : String) :
    (c.under (.field field)).TellsOf [field] where
  tells := h.under _
  lies issue hissue := by
    cases c with
    | valid a => cases hissue
    | invalid issues =>
        obtain ⟨_, _, rfl⟩ := List.mem_map.mp hissue
        exact ⟨field, List.mem_singleton_self _, rfl⟩

end Checked

variable {α : Type} {reader : Reader α}

/-- A list tells of its items. -/
theorem Reader.tells_items (h : ∀ v, (reader v).Tells) (problem : Problem) (v : Value) :
    (Reader.items problem reader v).Tells := by
  cases v with
  | list vs =>
      unfold Reader.items
      generalize 0 = i
      induction vs generalizing i with
      | nil => exact Checked.tells_valid _
      | cons v vs ih => exact (((h v).under _).map _).seq (ih (i + 1))
  | _ => exact Checked.tells_fail _

/-- What is told of a field that has to be present lies in it. -/
theorem Entries.tellsOf_required (h : ∀ v, (reader v).Tells) (entries : Entries) (field : String) :
    (entries.required field reader).TellsOf [field] := by
  unfold Entries.required
  cases entries.get? field with
  | none => exact (Checked.tells_fail (α := α) .missing).field field
  | some v => exact (h v).field field

/-- What is told of a field with a default lies in it. -/
theorem Entries.tellsOf_withDefault (h : ∀ v, (reader v).Tells) (entries : Entries)
    (field : String) (default : α) :
    (entries.withDefault field reader default).TellsOf [field] := by
  unfold Entries.withDefault
  cases entries.get? field with
  | none => exact ⟨Checked.tells_valid _, nofun⟩
  | some v => exact (h v).field field

end Issues

end Vendoring.Data
