import Mathlib.Data.List.Forall2
import Mathlib.Data.List.Perm.Basic

/-!
# Lists in another order

A list which stands for a set may be written in any order, and so may the lists inside
its items. Two such lists are the same up to a permutation and a relation on the items.
-/

namespace Themisy

/-- A list in another order, with every item replaced by a related one. -/
def Rearranged {Item : Type} (related : Item → Item → Prop) (first second : List Item) : Prop :=
  ∃ middle, first.Perm middle ∧ List.Forall₂ related middle second

namespace Rearranged

variable {Item : Type} {related : Item → Item → Prop} {first second : List Item}

theorem symm (symmetric : ∀ item other, related item other → related other item)
    (rearranged : Rearranged related first second) : Rearranged related second first := by
  obtain ⟨middle, perm, replaced⟩ := rearranged
  have flipped : List.Forall₂ related second middle :=
    (replaced.imp fun item other holds => symmetric item other holds).flip
  have moved : Relation.Comp (List.Forall₂ related) List.Perm second first :=
    ⟨middle, flipped, perm.symm⟩
  rwa [List.forall₂_comp_perm_eq_perm_comp_forall₂] at moved

theorem forth (rearranged : Rearranged related first second) {item : Item}
    (member : item ∈ first) : ∃ other ∈ second, related item other := by
  obtain ⟨middle, perm, replaced⟩ := rearranged
  obtain ⟨index, bound, rfl⟩ := List.mem_iff_getElem.mp (perm.mem_iff.mp member)
  have inside := replaced.length_eq ▸ bound
  exact ⟨second[index], List.getElem_mem inside, replaced.get bound inside⟩

theorem map_perm {Key : Type} (key : Item → Key)
    (kept : ∀ item other, related item other → key item = key other)
    (rearranged : Rearranged related first second) : (first.map key).Perm (second.map key) := by
  obtain ⟨middle, perm, replaced⟩ := rearranged
  refine (perm.map key).trans (List.Perm.of_eq ?_)
  rw [← List.forall₂_eq_eq_eq, List.forall₂_map_left_iff, List.forall₂_map_right_iff]
  exact replaced.imp fun item other holds => kept item other holds

end Rearranged

end Themisy
