import Mathlib.Data.Fin.Tuple.Sort
import Mathlib.Data.List.Sort

/-!
# Sorting by comparison

`sort.Slice` is not stable: nothing is said about the order of items which compare
alike. It is a function of its input, though, and it sees the items only through their
comparisons. A `SliceSort` is any function with these properties; the insertion sort,
which the library uses for up to twelve items, is one of them.

Such a function gives one arrangement to all orders of a list exactly when no two
different items of the list compare alike.
-/

namespace Themisy

/-- What is known of the function `sort.Slice`. -/
structure SliceSort where
  arrange {Item : Type} (less : Item → Item → Bool) (items : List Item) : List Item
  perm {Item : Type} (less : Item → Item → Bool) (items : List Item) :
    (arrange less items).Perm items
  sorted {Item Key : Type} [LinearOrder Key] (key : Item → Key) {less : Item → Item → Bool}
    (compares : ∀ left right, less left right = true ↔ key left < key right)
    (items : List Item) : (arrange less items).Pairwise fun left right => key left ≤ key right
  /-- The items are seen through their comparisons only. -/
  arrange_map {Item Image : Type} (image : Item → Image) {lessItem : Item → Item → Bool}
    {lessImage : Image → Image → Bool}
    (compares : ∀ left right, lessImage (image left) (image right) = lessItem left right)
    (items : List Item) : arrange lessImage (items.map image) = (arrange lessItem items).map image

namespace SliceSort

def insertion : SliceSort where
  arrange less items := items.insertionSort fun left right => less right left = false
  perm less items := List.perm_insertionSort _ items
  sorted key less compares items := by
    have before : ∀ left right, less right left = false ↔ key left ≤ key right := by
      intro left right
      rw [← not_lt, ← compares, Bool.not_eq_true]
    have total : Std.Total fun left right => less right left = false :=
      ⟨fun left right => by simpa only [before] using le_total (key left) (key right)⟩
    have transitive : IsTrans _ fun left right => less right left = false :=
      ⟨fun left middle right => by simpa only [before] using le_trans⟩
    exact (List.pairwise_insertionSort (fun left right => less right left = false) items).imp
      fun ordered => (before _ _).mp ordered
  arrange_map image lessItem lessImage compares items := by
    refine (List.map_insertionSort _ _ image items ?_).symm
    intro left _ right _
    rw [compares]

variable (sort : SliceSort) {Item Key : Type} [LinearOrder Key] {key : Item → Key}
  {less : Item → Item → Bool}

variable {items : List Item}

theorem mem_arrange {item : Item} : item ∈ sort.arrange less items ↔ item ∈ items :=
  (sort.perm less items).mem_iff

@[simp]
theorem arrange_singleton (item : Item) : sort.arrange less [item] = [item] :=
  List.perm_singleton.mp (sort.perm less [item])

/-- The insertion sort leaves an item at the end which is not less than the others. -/
theorem insertion_concat {last : Item} (after : ∀ item ∈ items, less last item = false) :
    insertion.arrange less (items ++ [last]) = insertion.arrange less items ++ [last] := by
  have insert : ∀ (item : Item) (sorted : List Item), less last item = false →
      (sorted ++ [last]).orderedInsert (fun left right => less right left = false) item =
        sorted.orderedInsert (fun left right => less right left = false) item ++ [last] := by
    intro item sorted before
    induction sorted with
    | nil => simp [before]
    | cons first rest ih =>
      simp only [List.cons_append, List.orderedInsert_cons, ih]
      split
      · rfl
      · rfl
  induction items with
  | nil => rfl
  | cons item rest ih =>
    rw [List.forall_mem_cons] at after
    change List.orderedInsert _ item (insertion.arrange less (rest ++ [last])) = _
    rw [ih after.2]
    exact insert item _ after.1

/-- Items which are told apart by their keys have one arrangement. -/
theorem arrange_eq_of_perm (compares : ∀ left right, less left right = true ↔ key left < key right)
    {first second : List Item} (perm : first.Perm second)
    (separated : ∀ left ∈ first, ∀ right ∈ first, key left = key right → left = right) :
    sort.arrange less first = sort.arrange less second := by
  refine List.Perm.eq_of_pairwise ?_ (sort.sorted key compares first)
    (sort.sorted key compares second)
    ((sort.perm less first).trans (perm.trans (sort.perm less second).symm))
  intro left right leftMem rightMem le ge
  exact separated left (sort.mem_arrange.mp leftMem) right
    (perm.mem_iff.mpr (sort.mem_arrange.mp rightMem)) (le_antisymm le ge)

/-- Lists which compare alike at all places are arranged alike, so that none is lost. -/
theorem eq_of_arrange_ofFn_eq {length : ℕ} {first second : Fin length → Item}
    (alike : ∀ place other, less (first place) (first other) = less (second place) (second other))
    (same : sort.arrange less (List.ofFn first) = sort.arrange less (List.ofFn second)) :
    first = second := by
  rw [List.ofFn_eq_map, List.ofFn_eq_map,
    sort.arrange_map first (fun place other => rfl),
    sort.arrange_map second (fun place other => (alike place other).symm)] at same
  funext place
  exact List.map_inj_left.mp same place (sort.mem_arrange.mpr (List.mem_finRange place))

/-- Exchanging two different items which compare alike changes the arrangement. -/
theorem exists_perm_arrange_ne
    (compares : ∀ left right, less left right = true ↔ key left < key right) {one another : Item}
    (oneMem : one ∈ items) (anotherMem : another ∈ items) (alike : key one = key another)
    (distinct : one ≠ another) :
    ∃ other : List Item, other.Perm items ∧ sort.arrange less other ≠ sort.arrange less items := by
  obtain ⟨here, rfl⟩ := List.get_of_mem oneMem
  obtain ⟨there, rfl⟩ := List.get_of_mem anotherMem
  let exchange := Equiv.swap here there
  have keys : ∀ place, key (items.get (exchange place)) = key (items.get place) := by
    intro place
    by_cases atHere : place = here
    · rw [atHere, Equiv.swap_apply_left, alike]
    · by_cases atThere : place = there
      · rw [atThere, Equiv.swap_apply_right, alike]
      · rw [Equiv.swap_apply_of_ne_of_ne atHere atThere]
  refine ⟨List.ofFn (items.get ∘ exchange), ?_, ?_⟩
  · simpa using Equiv.Perm.ofFn_comp_perm exchange items.get
  · intro same
    have exchanged : items.get ∘ exchange = items.get := by
      have arranged : sort.arrange less (List.ofFn (items.get ∘ exchange)) =
          sort.arrange less (List.ofFn items.get) := by
        rw [same, List.ofFn_get]
      refine sort.eq_of_arrange_ofFn_eq ?_ arranged
      intro place other
      simp only [Bool.eq_iff_iff, compares, Function.comp_apply, keys]
    refine distinct ?_
    have atThere := congrFun exchanged there
    simpa [exchange] using atThere

end SliceSort

end Themisy
