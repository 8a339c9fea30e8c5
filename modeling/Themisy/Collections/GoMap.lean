import Mathlib.Data.Finset.Card
import Mathlib.Data.List.AList
import Mathlib.Data.List.Induction

/-!
# Finite maps with the semantics of Go's built-in map

A Go map is an association list without duplicate keys. Reading a missing key yields
the zero value, assignment overwrites, and `delete` ignores a missing key. Mathlib's
`AList` has these operations; this file gives them Go's names.

The order in which `range` visits a Go map is unspecified and may differ from one
statement to the next. `IterationOrder` is the adversary which chooses it.
-/

namespace Themisy

abbrev GoMap (Key Value : Type) := AList fun _ : Key => Value

namespace GoMap

variable {Key Value : Type} [DecidableEq Key]

/-- The Go expression `value, ok := table[key]`. -/
def get? (table : GoMap Key Value) (key : Key) : Option Value :=
  table.lookup key

/-- The Go expression `table[key]`, which reads `zero` when the key is missing. -/
def find (table : GoMap Key Value) (key : Key) (zero : Value) : Value :=
  (table.get? key).getD zero

/-- The Go statement `table[key] = value`. -/
def set (table : GoMap Key Value) (key : Key) (value : Value) : GoMap Key Value :=
  table.insert key value

/-- The Go statement `delete(table, key)`. -/
def delete (table : GoMap Key Value) (key : Key) : GoMap Key Value :=
  table.erase key

/-- The values of a map, in the order of the underlying association list. -/
def values (table : GoMap Key Value) : List Value :=
  table.entries.map fun entry => entry.2

@[simp]
theorem get?_empty (key : Key) : (∅ : GoMap Key Value).get? key = none :=
  AList.lookup_empty key

@[simp]
theorem find_empty (key : Key) (zero : Value) : (∅ : GoMap Key Value).find key zero = zero := by
  simp [find]

omit [DecidableEq Key] in
@[simp]
theorem values_empty : (∅ : GoMap Key Value).values = [] := rfl

theorem get?_set (table : GoMap Key Value) (key other : Key) (value : Value) :
    (table.set key value).get? other = if other = key then some value else table.get? other := by
  split
  · next same =>
    subst same
    exact AList.lookup_insert table
  · next different => exact AList.lookup_insert_ne different

@[simp]
theorem get?_set_self (table : GoMap Key Value) (key : Key) (value : Value) :
    (table.set key value).get? key = some value := by
  simp [get?_set]

theorem get?_delete (table : GoMap Key Value) (key other : Key) :
    (table.delete key).get? other = if other = key then none else table.get? other := by
  split
  · next same =>
    subst same
    exact AList.lookup_erase other table
  · next different => exact AList.lookup_erase_ne different

theorem find_set (table : GoMap Key Value) (key other : Key) (value zero : Value) :
    (table.set key value).find other zero =
      if other = key then value else table.find other zero := by
  unfold find
  rw [get?_set]
  split <;> rfl

theorem find_foldl_set_true {Item : Type} (key : Item → Key) (items : List Item)
    (table : GoMap Key Bool) (query : Key) :
    (items.foldl (fun table item => table.set (key item) true) table).find query false = true ↔
      query ∈ items.map key ∨ table.find query false = true := by
  induction items generalizing table with
  | nil => simp
  | cons item rest ih =>
    rw [List.foldl_cons, ih, find_set]
    by_cases same : query = key item <;> simp [same]

variable {value : Value} {key : Key} {table : GoMap Key Value}

/-- Among assignments to distinct keys, each one is found again. -/
theorem find_foldl_set_of_mem {assignments : List (Key × Value)}
    (distinct : (assignments.map Prod.fst).Nodup) (table : GoMap Key Value)
    (member : (key, value) ∈ assignments) (zero : Value) :
    (assignments.foldl (fun table entry => table.set entry.1 entry.2) table).find key zero =
      value := by
  induction assignments using List.reverseRecOn with
  | nil => cases member
  | append_singleton rest last ih =>
    rw [List.foldl_append, List.foldl_cons, List.foldl_nil, find_set]
    rw [List.map_append, List.nodup_append] at distinct
    rcases List.mem_append.mp member with earlier | final
    · have different : key ≠ last.1 :=
        distinct.2.2 key (List.mem_map_of_mem earlier) last.1 (by simp)
      rw [if_neg different]
      exact ih distinct.1 earlier
    · rw [List.mem_singleton] at final
      subst final
      simp

theorem isSome_get?_iff : (table.get? key).isSome ↔ key ∈ table.keys :=
  AList.lookup_isSome

theorem mem_entries_iff :
    (⟨key, value⟩ : (_ : Key) × Value) ∈ table.entries ↔ table.get? key = some value :=
  AList.mem_lookup_iff.symm

theorem entries_perm_of_get?_eq {first second : GoMap Key Value}
    (same : ∀ key, first.get? key = second.get? key) : first.entries.Perm second.entries := by
  refine List.lookup_ext first.nodupKeys second.nodupKeys fun key value => ?_
  have lookup : first.lookup key = second.lookup key := same key
  exact Eq.to_iff (congrArg (value ∈ ·) lookup)

theorem eq_empty_of_get?_eq_none (missing : ∀ key, table.get? key = none) : table = ∅ := by
  apply AList.ext
  refine List.eq_nil_iff_forall_not_mem.mpr ?_
  rintro ⟨key, value⟩ entry
  have present := mem_entries_iff.mp entry
  rw [missing key] at present
  cases present

theorem mem_values_iff : value ∈ table.values ↔ ∃ key, table.get? key = some value := by
  simp only [values, List.mem_map]
  constructor
  · rintro ⟨⟨key, found⟩, entry, rfl⟩
    exact ⟨key, mem_entries_iff.mp entry⟩
  · rintro ⟨key, found⟩
    exact ⟨⟨key, value⟩, mem_entries_iff.mpr found, rfl⟩

theorem values_perm_delete (found : table.get? key = some value) :
    table.values.Perm (value :: (table.delete key).values) := by
  obtain ⟨stored, before, after, absent, split, erased⟩ :=
    List.exists_of_kerase (List.mem_keys_of_mem (mem_entries_iff.mpr found))
  have same : table.get? key = some stored := mem_entries_iff.mp (by rw [split]; simp)
  rw [found] at same
  cases same
  have erasedEntries : (table.delete key).entries = before ++ after := erased
  simp only [values, split, erasedEntries, List.map_append, List.map_cons]
  exact List.perm_middle

theorem values_delete_of_missing (missing : table.get? key = none) :
    (table.delete key).values = table.values := by
  have absent : key ∉ table.keys := AList.lookup_eq_none.mp missing
  have unchanged : (table.delete key).entries = table.entries :=
    List.kerase_of_notMem_keys absent
  simp only [values, unchanged]

theorem values_set_eq_cons_delete (table : GoMap Key Value) (key : Key) (value : Value) :
    (table.set key value).values = value :: (table.delete key).values := rfl

theorem values_set (missing : table.get? key = none) (value : Value) :
    (table.set key value).values = value :: table.values := by
  rw [values_set_eq_cons_delete, values_delete_of_missing missing]

/-- Accepted values under different keys are counted separately. -/
theorem card_le_countP_values {Item : Type} (items : Finset Item) (key : Item → Key)
    (distinct : Set.InjOn key items) (accepts : Value → Bool)
    (found : ∀ item ∈ items, ∃ value, table.get? (key item) = some value ∧ accepts value = true) :
    items.card ≤ table.values.countP accepts := by
  have keys : ((table.entries.filter fun entry => accepts entry.2).map Sigma.fst).Nodup :=
    table.nodupKeys.sublist List.filter_sublist
  have counted : table.values.countP accepts =
      (table.entries.filter fun entry => accepts entry.2).length := by
    rw [values, List.countP_map, List.countP_eq_length_filter]
    rfl
  rw [counted, ← List.length_map Sigma.fst, ← List.toFinset_card_of_nodup keys]
  refine Finset.card_le_card_of_injOn key ?_ distinct
  intro item member
  obtain ⟨value, get, accepted⟩ := found item member
  have entry : (⟨key item, value⟩ : (_ : Key) × Value) ∈ table.entries := mem_entries_iff.mpr get
  simp only [Finset.mem_coe, List.mem_toFinset, List.mem_map]
  exact ⟨_, List.mem_filter.mpr ⟨entry, accepted⟩, rfl⟩

/-- Every key of the index leads to an entry of the table. -/
def Indexes {Target : Type} [DecidableEq Target] (index : GoMap Key Target)
    (table : GoMap Target Value) : Prop :=
  ∀ key target, index.get? key = some target → (table.get? target).isSome

namespace Indexes

variable {Target : Type} [DecidableEq Target] {index : GoMap Key Target}
  {table : GoMap Target Value}

theorem empty : Indexes (∅ : GoMap Key Target) table := by
  intro key target found
  cases found

theorem set_table (indexes : Indexes index table) (target : Target) (value : Value) :
    Indexes index (table.set target value) := by
  intro key other found
  rw [get?_set]
  split
  · rfl
  · exact indexes key other found

theorem set_both (indexes : Indexes index table) (key : Key) (target : Target) (value : Value) :
    Indexes (index.set key target) (table.set target value) := by
  intro other found eq
  rw [get?_set] at eq
  split at eq
  · cases eq
    simp
  · exact indexes.set_table target value other found eq

end Indexes

end GoMap

/-- The unspecified order in which `range` visits a collection, one
rearrangement for every executed statement. -/
structure IterationOrder (Item : Type) where
  arrange : ℕ → List Item → List Item
  perm : ∀ statement items, (arrange statement items).Perm items

namespace IterationOrder

variable {Item : Type}

/-- The order of the underlying association list itself. -/
def stored : IterationOrder Item where
  arrange _ items := items
  perm _ _ := List.Perm.refl _

@[simp]
theorem mem_arrange (order : IterationOrder Item) (statement : ℕ) (items : List Item)
    (item : Item) : item ∈ order.arrange statement items ↔ item ∈ items :=
  (order.perm statement items).mem_iff

end IterationOrder

end Themisy
