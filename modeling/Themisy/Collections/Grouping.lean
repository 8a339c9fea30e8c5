import Themisy.Collections.GoMap

/-!
# Grouping items in a map of slices

The Go idiom which appends every item to the slice stored under its key, and
records each key when it is met for the first time.
-/

namespace Themisy

/-- Items by key, with the keys as they were met. -/
structure Grouping (Key Item : Type) where
  groups : GoMap Key (List Item) := ∅
  keys : List Key := []

namespace Grouping

variable {Key Item : Type} [DecidableEq Key] (key : Item → Key)

def insert (grouping : Grouping Key Item) (item : Item) : Grouping Key Item where
  groups := grouping.groups.set (key item) (grouping.groups.find (key item) [] ++ [item])
  keys :=
    match grouping.groups.get? (key item) with
    | some _ => grouping.keys
    | none => grouping.keys ++ [key item]

def ofList (items : List Item) : Grouping Key Item :=
  items.foldl (insert key) {}

/-- The groups of the items inserted so far. -/
structure Groups (items : List Item) (grouping : Grouping Key Item) : Prop where
  find_eq : ∀ group, grouping.groups.find group [] = items.filter fun item => key item = group
  isSome_iff : ∀ group, (grouping.groups.get? group).isSome ↔ group ∈ grouping.keys
  distinct : grouping.keys.Nodup
  mem_keys : ∀ group, group ∈ grouping.keys ↔ ∃ item ∈ items, key item = group

variable {key}

variable {items : List Item}

theorem Groups.insert {grouping : Grouping Key Item} (groups : Groups key items grouping)
    (item : Item) : Groups key (items ++ [item]) (grouping.insert key item) := by
  have keysEq : (grouping.insert key item).keys =
      if key item ∈ grouping.keys then grouping.keys else grouping.keys ++ [key item] := by
    have known := groups.isSome_iff (key item)
    simp only [Grouping.insert]
    split
    · next found => rw [if_pos (known.mp (by rw [found]; rfl))]
    · next missing => rw [if_neg fun member => by simpa [missing] using known.mpr member]
  have mem_keysEq : ∀ group, group ∈ (grouping.insert key item).keys ↔
      group ∈ grouping.keys ∨ group = key item := by
    intro group
    rw [keysEq]
    split
    · next known =>
      constructor
      · exact Or.inl
      · rintro (member | rfl)
        · exact member
        · exact known
    · simp
  constructor
  · intro group
    simp only [Grouping.insert, GoMap.find_set, List.filter_append, groups.find_eq]
    by_cases same : group = key item
    · subst same
      simp
    · simp [same, Ne.symm same]
  · intro group
    rw [mem_keysEq, ← groups.isSome_iff]
    simp only [Grouping.insert, GoMap.get?_set]
    split
    · next same => simp [same]
    · next different => simp [different]
  · rw [keysEq]
    split
    · exact groups.distinct
    · next fresh =>
      rw [List.nodup_append]
      refine ⟨groups.distinct, by simp, ?_⟩
      intro left leftMem right rightMem same
      rw [List.mem_singleton.mp rightMem] at same
      exact fresh (same ▸ leftMem)
  · intro group
    rw [mem_keysEq, groups.mem_keys]
    simp [or_comm, eq_comm]

theorem ofList_groups (key : Item → Key) (items : List Item) :
    Groups key items (ofList key items) := by
  induction items using List.reverseRecOn with
  | nil => exact ⟨by simp [ofList], by simp [ofList], by simp [ofList], by simp [ofList]⟩
  | append_singleton items item ih =>
    rw [ofList, List.foldl_append]
    exact ih.insert item

/-- Groups over distinct keys which cover all items partition the items. -/
theorem flatMap_filter_perm {keys : List Key} (distinct : keys.Nodup)
    (covered : ∀ item ∈ items, key item ∈ keys) :
    (keys.flatMap fun group => items.filter fun item => key item = group).Perm items := by
  induction keys generalizing items with
  | nil =>
    cases items with
    | nil => exact List.Perm.refl _
    | cons item rest => exact absurd (covered item List.mem_cons_self) List.not_mem_nil
  | cons group rest ih =>
    obtain ⟨fresh, restDistinct⟩ := List.nodup_cons.mp distinct
    have restCovered : ∀ item ∈ items.filter fun item => ¬key item = group,
        key item ∈ rest := by
      intro item member
      obtain ⟨itemMem, different⟩ := List.mem_filter.mp member
      exact (List.mem_cons.mp (covered item itemMem)).resolve_left (of_decide_eq_true different)
    have same : (rest.flatMap fun other => items.filter fun item => key item = other) =
        rest.flatMap fun other => (items.filter fun item => ¬key item = group).filter
          fun item => key item = other := by
      apply List.flatMap_congr
      intro other member
      rw [List.filter_filter]
      apply List.filter_congr
      intro item _
      by_cases here : key item = other
      · have : other ≠ group := fun eq => fresh (eq ▸ member)
        simp [here, this]
      · simp [here]
    rw [List.flatMap_cons, same]
    refine ((ih restDistinct restCovered).append_left _).trans ?_
    simpa using List.filter_append_perm (fun item => decide (key item = group)) items

end Grouping

theorem find?_key_of_mem {Key Item : Type} [DecidableEq Key] {key : Item → Key}
    {items : List Item} (distinct : (items.map key).Nodup) {item : Item} (member : item ∈ items) :
    (items.find? fun other => key other = key item) = some item := by
  obtain ⟨before, after, rfl⟩ := List.append_of_mem member
  refine List.find?_eq_some_iff_append.mpr ⟨decide_eq_true rfl, before, after, rfl, ?_⟩
  intro other earlier
  rw [List.map_append, List.nodup_append] at distinct
  have different := distinct.2.2 (key other) (List.mem_map_of_mem earlier) (key item) (by simp)
  simp [different]

end Themisy
