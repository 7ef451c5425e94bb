import Vendoring.Instrumentation.Profile

/-!
# Canonical tags

Values are read as tags one after the other, and the first that names none is the one refused. The
tags that are read make a set, of which nothing is left but which tags occur: their canonical list
has each of them once, in the order of declaration. So neither the order of the values nor how often
one is given makes any difference, to the list as to the profile that requests the tags.
-/

namespace Vendoring.Instrumentation

open Vendoring.Data

/-- The value that names a tag. -/
def Tag.value (t : Tag) : Value := .text t.name

/-- Whether a value names a tag. -/
def NamesTag (v : Value) : Prop := ∃ t : Tag, v = t.value

/-- Different tags are named by different values. -/
theorem Tag.value_inj {s t : Tag} : s.value = t.value ↔ s = t := by
  unfold value
  rw [Value.text.injEq, name_inj]

/-! ### Reading tags -/

/-- A value that names a tag is read as that tag. -/
theorem readTags_value_cons (t : Tag) (rest : List Value) :
    readTags (t.value :: rest) = (t :: ·) <$> readTags rest := by
  unfold Tag.value
  simp only [readTags, Tag.ofName?_name]

/-- A value that names no tag is refused. -/
theorem readTags_cons_of_not {v : Value} (hv : ¬ NamesTag v) (rest : List Value) :
    readTags (v :: rest) = .error (.unknown v.shown) := by
  cases v with
  | text s =>
      have hnone : Tag.ofName? s = none := by
        refine Option.eq_none_iff_forall_ne_some.mpr fun t ht ↦ hv ⟨t, ?_⟩
        rw [Tag.value, Tag.ofName?_eq_some_iff.mp ht]
      simp only [readTags, hnone]
  | _ => rfl

/-- Values that name tags are read as these tags, and then it goes on with the rest. -/
theorem readTags_map_value_append (tags : List Tag) (rest : List Value) :
    readTags (tags.map Tag.value ++ rest) = (tags ++ ·) <$> readTags rest := by
  induction tags with
  | nil => cases h : readTags rest <;> simp [h]
  | cons t tags ih =>
      rw [List.map_cons, List.cons_append, readTags_value_cons, ih]
      cases readTags rest <;> rfl

/-- Values that all name tags are read as these tags. -/
theorem readTags_map_value (tags : List Tag) : readTags (tags.map Tag.value) = .ok tags := by
  have hread := readTags_map_value_append tags []
  rw [List.append_nil] at hread
  rw [hread]
  simp [readTags, Functor.map, Except.map]

/-- The first value that names no tag is refused, whatever follows it. -/
theorem readTags_first_not (tags : List Tag) {v : Value} (hv : ¬ NamesTag v) (rest : List Value) :
    readTags (tags.map Tag.value ++ v :: rest) = .error (.unknown v.shown) := by
  rw [readTags_map_value_append, readTags_cons_of_not hv]
  rfl

/-- Values all name tags, or there is a first among them that names none. -/
theorem names_or_first (xs : List Value) :
    (∃ tags : List Tag, xs = tags.map Tag.value) ∨
      ∃ (tags : List Tag) (v : Value) (rest : List Value),
        xs = tags.map Tag.value ++ v :: rest ∧ ¬ NamesTag v := by
  induction xs with
  | nil => exact .inl ⟨[], rfl⟩
  | cons v xs ih =>
      by_cases hv : NamesTag v
      · obtain ⟨t, rfl⟩ := hv
        obtain ⟨tags, rfl⟩ | ⟨tags, u, rest, rfl, hu⟩ := ih
        · exact .inl ⟨t :: tags, rfl⟩
        · exact .inr ⟨t :: tags, u, rest, rfl, hu⟩
      · exact .inr ⟨[], v, xs, rfl, hv⟩

/-- A tag is among tags just when its value is among theirs. -/
theorem value_mem_map_value {tags : List Tag} {t : Tag} :
    t.value ∈ tags.map Tag.value ↔ t ∈ tags := by
  simp [Tag.value_inj]

/-- The values of tags name tags. -/
theorem namesTag_of_mem_map {tags : List Tag} : ∀ v ∈ tags.map Tag.value, NamesTag v := by
  intro v hv
  obtain ⟨t, _, rfl⟩ := List.mem_map.mp hv
  exact ⟨t, rfl⟩

/-! ### The set of the tags -/

/-- The tags of values that name them are the set of these tags. -/
theorem tagsOf_map_value (tags : List Tag) :
    tagsOf (.list (tags.map Tag.value)) = .ok (.ofList tags) := by
  simp only [tagsOf, Value.iterate?, readTags_map_value]
  rfl

/-- Values have tags just when each of them names one, and these are the tags of the set. -/
theorem tagsOf_eq_ok_iff {xs : List Value} {ts : TagSet} :
    tagsOf (.list xs) = .ok ts ↔
      (∀ v ∈ xs, NamesTag v) ∧ ∀ t : Tag, t ∈ ts ↔ t.value ∈ xs := by
  obtain ⟨tags, rfl⟩ | ⟨tags, v, rest, rfl, hv⟩ := names_or_first xs
  · rw [tagsOf_map_value]
    simp only [value_mem_map_value]
    constructor
    · rintro ⟨⟩
      exact ⟨namesTag_of_mem_map, fun t ↦ TagSet.mem_ofList⟩
    · rintro ⟨_, hmem⟩
      congr 1
      ext t
      rw [TagSet.mem_ofList, hmem]
  · constructor
    · intro h
      simp only [tagsOf, Value.iterate?, readTags_first_not tags hv] at h
      cases h
    · rintro ⟨hnames, _⟩
      exact absurd (hnames v (by simp)) hv

/-- Values have tags just when each of them names one. -/
theorem exists_tagsOf_iff {xs : List Value} :
    (∃ ts, tagsOf (.list xs) = .ok ts) ↔ ∀ v ∈ xs, NamesTag v := by
  constructor
  · rintro ⟨ts, h⟩
    exact (tagsOf_eq_ok_iff.mp h).1
  · intro hnames
    obtain ⟨tags, rfl⟩ | ⟨tags, v, rest, rfl, hv⟩ := names_or_first xs
    · exact ⟨_, tagsOf_map_value tags⟩
    · exact absurd (hnames v (by simp)) hv

/-- Values are refused just when one of them names no tag, and it is the first such value that is
told. -/
theorem tagsOf_eq_error_iff {xs : List Value} {e : TagError} :
    tagsOf (.list xs) = .error e ↔
      ∃ before v after, xs = before ++ v :: after ∧ (∀ u ∈ before, NamesTag u) ∧ ¬ NamesTag v ∧
        e = .unknown v.shown := by
  constructor
  · intro h
    obtain ⟨tags, rfl⟩ | ⟨tags, v, rest, rfl, hv⟩ := names_or_first xs
    · rw [tagsOf_map_value] at h
      cases h
    · simp only [tagsOf, Value.iterate?, readTags_first_not tags hv] at h
      cases h
      exact ⟨_, v, rest, rfl, namesTag_of_mem_map, hv, rfl⟩
  · rintro ⟨before, v, after, rfl, hbefore, hv, rfl⟩
    obtain ⟨tags, rfl⟩ | ⟨tags, u, rest, rfl, hu⟩ := names_or_first before
    · simp only [tagsOf, Value.iterate?, readTags_first_not tags hv]
      rfl
    · exact absurd (hbefore u (by simp)) hu

/-- The list of a set has tags in the order of declaration. -/
theorem TagSet.tags_sublist (ts : TagSet) : ts.tags.Sublist Tag.all := by
  rw [ts.canonical]
  exact List.filter_sublist

/-- Sets are the same when their lists hold the same tags. -/
theorem TagSet.tags_eq_iff {ts us : TagSet} : us.tags = ts.tags ↔ ∀ t, t ∈ us ↔ t ∈ ts := by
  constructor
  · intro h t
    show t ∈ us.tags ↔ t ∈ ts.tags
    rw [h]
  · intro h
    rw [TagSet.ext h]

/-! ### Profiles -/

/-- Profiles made from sets are the same when the lists of these are. -/
theorem Profile.ofTags_eq_iff {ts us : TagSet} :
    Profile.ofTags us = Profile.ofTags ts ↔ us.tags = ts.tags := by
  constructor
  · intro h
    rw [← requestedTags_ofTags us, h, requestedTags_ofTags]
  · intro h
    have hsets : us = ts := TagSet.ext (TagSet.tags_eq_iff.mp h)
    rw [hsets]

/-- Tags are listed canonically for values: each tag that a value names, and no other, once and in
the order of declaration. -/
structure ListedFor (xs : List Value) (tags : List Tag) : Prop where
  mem_iff : ∀ t : Tag, t ∈ tags ↔ t.value ∈ xs
  once : tags.Nodup
  ordered : tags.Sublist Tag.all

/-- Tags are read from any values. The first value that names no tag is refused, if there is one;
otherwise the tags are listed canonically. So the list read back gives the same list; values in
another order or given again give the same list; and two lists or two profiles are the same exactly
when the same tags occur. The profile requests the tags that occur, its variant is named by their
names in the order of the list, and its flags are those of each of them in that order. -/
theorem tagsOf_canonical (xs : List Value) :
    (∀ e, tagsOf (.list xs) = .error e ↔
      ∃ before v after, xs = before ++ v :: after ∧ (∀ u ∈ before, NamesTag u) ∧ ¬ NamesTag v ∧
        e = .unknown v.shown) ∧
    ((∃ ts, tagsOf (.list xs) = .ok ts) ↔ ∀ v ∈ xs, NamesTag v) ∧
    ∀ ts, tagsOf (.list xs) = .ok ts →
      ListedFor xs ts.tags ∧
      tagsOf (.list (ts.tags.map Tag.value)) = .ok ts ∧
      (∀ ys, (∀ v, v ∈ ys ↔ v ∈ xs) → tagsOf (.list ys) = .ok ts) ∧
      (∀ ys us, tagsOf (.list ys) = .ok us →
        (us.tags = ts.tags ↔ ∀ t : Tag, t.value ∈ ys ↔ t.value ∈ xs) ∧
        (Profile.ofTags us = Profile.ofTags ts ↔ ∀ t : Tag, t.value ∈ ys ↔ t.value ∈ xs)) ∧
      (∀ t : Tag, (Profile.ofTags ts).requests t = true ↔ t.value ∈ xs) ∧
      (Profile.ofTags ts).variantName =
        (if ts.tags = [] then "plain" else "-".intercalate (ts.tags.map Tag.name)) ∧
      (Profile.ofTags ts).compilerFlags = ts.tags.flatMap Tag.compilerFlags := by
  refine ⟨fun _ ↦ tagsOf_eq_error_iff, exists_tagsOf_iff, ?_⟩
  intro ts h
  obtain ⟨hnames, hmem⟩ := tagsOf_eq_ok_iff.mp h
  refine ⟨⟨hmem, ?_, ts.tags_sublist⟩, ?_, ?_, ?_, ?_, ?_, ?_⟩
  · exact ts.tags_sublist.nodup (by decide)
  · rw [tagsOf_eq_ok_iff]
    exact ⟨namesTag_of_mem_map, fun t ↦ value_mem_map_value.symm⟩
  · intro ys hsame
    rw [tagsOf_eq_ok_iff]
    exact ⟨fun v hv ↦ hnames v ((hsame v).mp hv), fun t ↦ (hmem t).trans (hsame _).symm⟩
  · intro ys us hys
    have hmem' := (tagsOf_eq_ok_iff.mp hys).2
    have htags : us.tags = ts.tags ↔ ∀ t : Tag, t.value ∈ ys ↔ t.value ∈ xs := by
      rw [TagSet.tags_eq_iff]
      exact forall_congr' fun t ↦ by rw [hmem', hmem]
    exact ⟨htags, Profile.ofTags_eq_iff.trans htags⟩
  · intro t
    rw [Profile.requests_ofTags, decide_eq_true_iff, hmem]
  · unfold Profile.variantName
    rw [Profile.requestedTags_ofTags]
    simp [TagSet.names]
  · unfold Profile.compilerFlags
    rw [Profile.requestedTags_ofTags]

/-- Three values of which two name the same tag give the list of two tags in the order of
declaration. -/
theorem repeated_tagsOf_canonical :
    tagsOf (.list [.text "claimer", .text "asan", .text "claimer"]) =
        .ok (.ofList [.asan, .claimer]) ∧
      tagsOf (.list [.text "asan", .text "claimer"]) = .ok (.ofList [.asan, .claimer]) ∧
      (Profile.ofTags (.ofList [.asan, .claimer])).variantName = "asan-claimer" ∧
      (Profile.ofTags (.ofList [.asan, .claimer])).compilerFlags =
        ["-fsanitize=address", "-fno-omit-frame-pointer"] := by
  have hread : tagsOf (.list [.text "claimer", .text "asan", .text "claimer"]) =
      .ok (.ofList [.asan, .claimer]) := rfl
  obtain ⟨_, hread', _, _, _, hname, hflags⟩ := (tagsOf_canonical _).2.2 _ hread
  exact ⟨hread, hread', hname, hflags⟩

end Vendoring.Instrumentation
