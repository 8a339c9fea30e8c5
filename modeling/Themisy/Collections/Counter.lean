import Mathlib.Data.List.Perm.Basic
import Mathlib.Data.List.Count
import Mathlib.Tactic.Common
import Themisy.Collections.GoMap

/-!
# Counting tables

A counting table maps a key to the number of times it is currently held. An entry is
deleted as soon as it would reach zero.

`Counts` is the abstraction relation: the table stores exactly the multiplicities of
a list of occurrences. Acquiring a list appends it to the occurrences and releasing
it takes it away again, whatever repetitions it contains.
-/

namespace Themisy

/-- A table of held multiplicities. -/
abbrev Counter (Key : Type) := GoMap Key ℤ

namespace Counter

variable {Key : Type} [DecidableEq Key]

/-- `table[key]++`. -/
def increment (table : Counter Key) (key : Key) : Counter Key :=
  table.set key (table.find key 0 + 1)

/-- `table[key]--`, deleting the entry instead of storing zero. -/
def decrement (table : Counter Key) (key : Key) : Counter Key :=
  if table.find key 0 ≤ 1 then table.delete key
  else table.set key (table.find key 0 - 1)

def acquire (table : Counter Key) (keys : List Key) : Counter Key :=
  keys.foldl increment table

def release (table : Counter Key) (keys : List Key) : Counter Key :=
  keys.foldl decrement table

variable {keys : List Key} {key : Key}

theorem find_acquire_of_notMem (absent : key ∉ keys) (table : Counter Key) :
    (table.acquire keys).find key 0 = table.find key 0 := by
  induction keys generalizing table with
  | nil => rfl
  | cons head rest ih =>
    simp only [List.mem_cons, not_or] at absent
    have later := ih absent.2 (table.increment head)
    simpa [acquire, increment, GoMap.find_set, absent.1] using later

theorem find_release_of_notMem (absent : key ∉ keys) (table : Counter Key) :
    (table.release keys).find key 0 = table.find key 0 := by
  induction keys generalizing table with
  | nil => rfl
  | cons head rest ih =>
    simp only [List.mem_cons, not_or] at absent
    have later := ih absent.2 (table.decrement head)
    have kept : (table.decrement head).find key 0 = table.find key 0 := by
      unfold decrement
      split
      · simp [GoMap.find, GoMap.get?_delete, absent.1]
      · simp [GoMap.find_set, absent.1]
    simpa [release, kept] using later

/-- The table stores exactly the multiplicities of `held`. -/
def Counts (table : Counter Key) (held : List Key) : Prop :=
  ∀ key, table.get? key = if key ∈ held then some (held.count key : ℤ) else none

theorem counts_empty : Counts (∅ : Counter Key) [] := by
  intro key
  simp

namespace Counts

variable {table : Counter Key} {held other : List Key}

theorem find_eq (counts : Counts table held) (key : Key) :
    table.find key 0 = held.count key := by
  unfold GoMap.find
  rw [counts key]
  split
  · rfl
  · next absent => simp [List.count_eq_zero_of_not_mem absent]

theorem perm (counts : Counts table held) (same : held.Perm other) : Counts table other := by
  intro key
  rw [counts key, same.count_eq key]
  simp only [same.mem_iff]

theorem eq_empty (counts : Counts table []) : table = ∅ :=
  GoMap.eq_empty_of_get?_eq_none fun key => by simpa using counts key

theorem increment (counts : Counts table held) (key : Key) :
    Counts (table.increment key) (key :: held) := by
  intro query
  unfold Counter.increment
  rw [GoMap.get?_set, counts.find_eq key]
  by_cases same : query = key
  · subst same
    simp
  · simp [same, counts query, List.count_cons_of_ne (Ne.symm same)]

theorem decrement (counts : Counts table (key :: held)) : Counts (table.decrement key) held := by
  intro query
  unfold Counter.decrement
  rw [counts.find_eq key, List.count_cons_self]
  by_cases same : query = key
  · subst same
    by_cases present : query ∈ held
    · have positive : 0 < held.count query := List.count_pos_iff.mpr present
      rw [if_neg (by omega), GoMap.get?_set]
      simp [present]
    · have zero : held.count query = 0 := List.count_eq_zero_of_not_mem present
      rw [if_pos (by omega), GoMap.get?_delete]
      simp [present]
  · have untouched : table.get? query =
        if query ∈ held then some (held.count query : ℤ) else none := by
      rw [counts query]
      simp [same, List.count_cons_of_ne (Ne.symm same)]
    split
    · rw [GoMap.get?_delete, if_neg same, untouched]
    · rw [GoMap.get?_set, if_neg same, untouched]

theorem acquire (counts : Counts table held) (keys : List Key) :
    Counts (table.acquire keys) (keys ++ held) := by
  induction keys generalizing table held with
  | nil => exact counts
  | cons key rest ih => exact (ih (counts.increment key)).perm List.perm_middle

theorem release (counts : Counts table (keys ++ held)) : Counts (table.release keys) held := by
  induction keys generalizing table with
  | nil => exact counts
  | cons key rest ih => exact ih counts.decrement

end Counts

end Counter

end Themisy
