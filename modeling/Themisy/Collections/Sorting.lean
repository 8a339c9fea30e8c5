import Mathlib.Data.List.Sort
import Mathlib.Data.String.Basic

/-!
# Sorting

Go compares strings byte by byte. On valid UTF-8 this is the order of the code
points, which is the order of Lean's `String`, so `sort.Strings` is an
insertion sort by `≤`.

A list whose items are told apart by their sort keys has one sorted arrangement,
whichever order it was in before.
-/

namespace Themisy

theorem insertionSort_eq_of_perm {Item Key : Type} [LinearOrder Key] (key : Item → Key)
    [DecidableRel fun left right : Item => key left ≤ key right] {first second : List Item}
    (perm : first.Perm second)
    (separated : ∀ left ∈ first, ∀ right ∈ first, key left = key right → left = right) :
    (first.insertionSort fun left right => key left ≤ key right) =
      second.insertionSort fun left right => key left ≤ key right := by
  have total : Std.Total fun left right : Item => key left ≤ key right :=
    ⟨fun left right => le_total (key left) (key right)⟩
  have transitive : IsTrans Item fun left right => key left ≤ key right := ⟨fun _ _ _ => le_trans⟩
  have sorted := fun items : List Item =>
    List.pairwise_insertionSort (fun left right : Item => key left ≤ key right) items
  have sortPerm := fun items : List Item =>
    List.perm_insertionSort (fun left right : Item => key left ≤ key right) items
  refine List.Perm.eq_of_pairwise ?_ (sorted first) (sorted second)
    ((sortPerm first).trans (perm.trans (sortPerm second).symm))
  intro left right leftMem rightMem le ge
  exact separated left ((sortPerm first).mem_iff.mp leftMem) right
    (perm.mem_iff.mpr ((sortPerm second).mem_iff.mp rightMem)) (le_antisymm le ge)

/-- `sort.Strings` on a copy of the slice. -/
def sortStrings (values : List String) : List String :=
  values.insertionSort (· ≤ ·)

theorem sortStrings_perm (values : List String) : (sortStrings values).Perm values :=
  List.perm_insertionSort _ values

theorem sortStrings_eq_of_perm {first second : List String} (perm : first.Perm second) :
    sortStrings first = sortStrings second :=
  insertionSort_eq_of_perm id perm fun _ _ _ _ same => same

@[simp]
theorem mem_sortStrings {values : List String} {value : String} :
    value ∈ sortStrings values ↔ value ∈ values :=
  (sortStrings_perm values).mem_iff

end Themisy
