import Mathlib.Data.Fintype.Order
import Mathlib.Logic.Relation

/-!
# Acyclic relations

A dependency relation relates a node to the nodes it needs. It is acyclic when
no chain of dependencies returns to its start, self-loops included. On a finite
set of nodes this is the existence of a node without dependencies in the set;
a rank which decreases along every dependency is the converse certificate.
-/

namespace Themisy

variable {Node : Type}

/-- No nonempty chain of the relation returns to its start. -/
def Acyclic (needs : Node → Node → Prop) : Prop :=
  ∀ node, ¬Relation.TransGen needs node node

/-- A chain of dependencies and its length. -/
inductive Chain (needs : Node → Node → Prop) : Node → Node → ℕ → Prop where
  | refl (node : Node) : Chain needs node node 0
  | step {node needed last : Node} {length : ℕ} (edge : needs node needed)
      (chain : Chain needs needed last length) : Chain needs node last (length + 1)

variable {needs : Node → Node → Prop}

theorem acyclic_of_rank (rank : Node → ℤ)
    (decreases : ∀ node needed, needs node needed → rank needed < rank node) : Acyclic needs := by
  have chain : ∀ {first last}, Relation.TransGen needs first last → rank last < rank first := by
    intro first last path
    induction path with
    | single edge => exact decreases _ _ edge
    | tail _ edge ih => exact lt_trans (decreases _ _ edge) ih
  intro node cycle
  exact lt_irrefl _ (chain cycle)

/-- Following the dependencies inside a finite set of nodes comes to an end. -/
theorem Acyclic.wellFounded (acyclic : Acyclic needs) (nodes : List Node) :
    WellFounded fun needed node : { node // node ∈ nodes } =>
      Relation.TransGen needs node.1 needed.1 := by
  have finite : Finite { node // node ∈ nodes } := List.finite_toSet nodes
  have transitive : IsTrans { node // node ∈ nodes } fun needed node =>
      Relation.TransGen needs node.1 needed.1 :=
    ⟨fun _ _ _ first second => second.trans first⟩
  have irreflexive : Std.Irrefl fun needed node : { node // node ∈ nodes } =>
      Relation.TransGen needs node.1 needed.1 :=
    ⟨fun node => acyclic node.1⟩
  exact Finite.wellFounded_of_trans_of_irrefl _

variable {nodes : List Node}

theorem Acyclic.exists_minimal (acyclic : Acyclic needs) (nonempty : nodes ≠ []) :
    ∃ node ∈ nodes, ∀ needed ∈ nodes, ¬needs node needed := by
  obtain ⟨node, member⟩ := List.exists_mem_of_ne_nil nodes nonempty
  obtain ⟨minimal, -, least⟩ := (acyclic.wellFounded nodes).has_min
    (Set.univ : Set { node // node ∈ nodes }) ⟨⟨node, member⟩, trivial⟩
  refine ⟨minimal.1, minimal.2, ?_⟩
  intro needed neededMem edge
  exact least ⟨needed, neededMem⟩ trivial (.single edge)

theorem Acyclic.induction (acyclic : Acyclic needs) {holds : Node → Prop}
    (step : ∀ node ∈ nodes, (∀ needed ∈ nodes, needs node needed → holds needed) → holds node) :
    ∀ node ∈ nodes, holds node := by
  intro node member
  refine (acyclic.wellFounded nodes).induction
    (C := fun node : { node // node ∈ nodes } => holds node.1) ⟨node, member⟩ ?_
  intro node ih
  exact step node.1 node.2 fun needed neededMem edge => ih ⟨needed, neededMem⟩ (.single edge)

/-- A chain of an acyclic relation visits every node at most once. -/
theorem Chain.length_lt (acyclic : Acyclic needs)
    (closed : ∀ node needed, needs node needed → needed ∈ nodes) {node last : Node} {length : ℕ}
    (chain : Chain needs node last length) (member : node ∈ nodes) : length < nodes.length := by
  have path : ∃ path : List Node, path.length = length + 1 ∧ path.Nodup ∧
      ∀ visited ∈ path, visited ∈ nodes ∧ Relation.ReflTransGen needs node visited := by
    induction chain with
    | refl node => exact ⟨[node], rfl, List.nodup_singleton node,
      by simp [member, Relation.ReflTransGen.refl]⟩
    | @step node needed last length edge chain ih =>
      obtain ⟨path, count, distinct, visits⟩ := ih (closed _ _ edge)
      refine ⟨node :: path, by simp [count], ?_, ?_⟩
      · refine List.nodup_cons.mpr ⟨fun again => ?_, distinct⟩
        exact acyclic node (.head' edge (visits node again).2)
      · intro visited found
        rcases List.mem_cons.mp found with rfl | later
        · exact ⟨member, .refl⟩
        · exact ⟨(visits visited later).1, .head edge (visits visited later).2⟩
  obtain ⟨path, count, distinct, visits⟩ := path
  have subperm := List.subperm_of_subset distinct fun visited found => (visits visited found).1
  have le := subperm.length_le
  omega

end Themisy
