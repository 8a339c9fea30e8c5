import Themisy.Graph.Kahn

/-!
# Levels of an acyclic graph

A level function assigns to every node the maximum of its base level and the levels
following those of its dependencies. On an acyclic graph there is one such function:
the level of a node is the greatest sum of the length of a chain of dependencies and
the base level of its end. Kahn's algorithm computes it.
-/

namespace Themisy

variable {Node : Type}

/-- Some chain from the second node leads further than every chain from the first one. -/
def Outreached (needs : Node → Node → Prop) (base : Node → ℤ) (first second : Node) : Prop :=
  ∃ last length, Chain needs second last length ∧
    ∀ final shorter, Chain needs first final shorter → base final + shorter < base last + length

namespace Kahn.Graph

variable (graph : Graph Node)

/-- The levels of the nodes satisfy their recurrence. -/
structure Levelled (level : Node → ℤ) : Prop where
  base_le : ∀ node ∈ graph.nodes, graph.base node ≤ level node
  needed_lt : ∀ node ∈ graph.nodes, ∀ needed ∈ graph.needs node, level needed + 1 ≤ level node
  attained : ∀ node ∈ graph.nodes, level node = graph.base node ∨
    ∃ needed ∈ graph.needs node, level node = level needed + 1

variable {graph} {level other : Node → ℤ} {node last : Node} {length : ℕ}

namespace Levelled

section

variable (levelled : graph.Levelled level)

include levelled

theorem base_add_le (member : node ∈ graph.nodes)
    (chain : Chain graph.Needs node last length) : graph.base last + length ≤ level node := by
  induction chain with
  | refl node => simpa using levelled.base_le node member
  | step edge _ ih =>
    have later := ih (graph.closed _ edge.1 _ edge.2)
    have below := levelled.needed_lt _ edge.1 _ edge.2
    push_cast
    omega

theorem exists_chain (acyclic : Acyclic graph.Needs) :
    ∀ node ∈ graph.nodes, ∃ last length, Chain graph.Needs node last length ∧
      level node = graph.base last + length := by
  refine acyclic.induction fun node member ih => ?_
  rcases levelled.attained node member with base | ⟨needed, neededMem, eq⟩
  · exact ⟨node, 0, .refl node, by simpa using base⟩
  · obtain ⟨last, length, chain, level⟩ :=
      ih needed (graph.closed node member needed neededMem) ⟨member, neededMem⟩
    refine ⟨last, length + 1, .step ⟨member, neededMem⟩ chain, ?_⟩
    rw [eq, level]
    push_cast
    omega

/-- The level of a node is the greatest which a chain of dependencies demands. -/
theorem isGreatest (acyclic : Acyclic graph.Needs) (member : node ∈ graph.nodes) :
    IsGreatest { value | ∃ last length, Chain graph.Needs node last length ∧
      value = graph.base last + length } (level node) := by
  constructor
  · exact levelled.exists_chain acyclic node member
  · rintro value ⟨last, length, chain, rfl⟩
    exact levelled.base_add_le member chain

theorem acyclic : Acyclic graph.Needs := by
  refine acyclic_of_rank level fun node needed edge => ?_
  have below := levelled.needed_lt node edge.1 needed edge.2
  omega

/-- Levels are compared by the chains of dependencies. -/
theorem lt_iff (acyclic : Acyclic graph.Needs)
    {first second : Node} (firstMem : first ∈ graph.nodes) (secondMem : second ∈ graph.nodes) :
    level first < level second ↔ Outreached graph.Needs graph.base first second := by
  constructor
  · intro smaller
    obtain ⟨last, length, chain, eq⟩ := levelled.exists_chain acyclic second secondMem
    refine ⟨last, length, chain, fun final shorter other => ?_⟩
    rw [← eq]
    exact lt_of_le_of_lt (levelled.base_add_le firstMem other) smaller
  · rintro ⟨last, length, chain, greater⟩
    obtain ⟨final, shorter, other, eq⟩ := levelled.exists_chain acyclic first firstMem
    rw [eq]
    exact lt_of_lt_of_le (greater final shorter other) (levelled.base_add_le secondMem chain)

theorem eq (again : graph.Levelled other)
    (acyclic : Acyclic graph.Needs) : ∀ node ∈ graph.nodes, level node = other node := by
  intro node member
  obtain ⟨last, length, chain, eq⟩ := levelled.exists_chain acyclic node member
  obtain ⟨otherLast, otherLength, otherChain, otherEq⟩ := again.exists_chain acyclic node member
  have lower := again.base_add_le member chain
  have upper := levelled.base_add_le member otherChain
  omega

end

end Levelled

/-- Two graphs with the same nodes, dependencies and base levels, in any order. -/
structure Same (first second : Graph Node) : Prop where
  nodes : ∀ node, node ∈ first.nodes ↔ node ∈ second.nodes
  needs : ∀ node ∈ first.nodes, ∀ needed, needed ∈ first.needs node ↔ needed ∈ second.needs node
  base : ∀ node ∈ first.nodes, first.base node = second.base node

namespace Same

variable {first second : Graph Node}

theorem levelled (same : first.Same second) (levelled : first.Levelled level) :
    second.Levelled level := by
  constructor
  · intro node member
    have here := (same.nodes node).mpr member
    rw [← same.base node here]
    exact levelled.base_le node here
  · intro node member needed neededMem
    have here := (same.nodes node).mpr member
    exact levelled.needed_lt node here needed ((same.needs node here needed).mpr neededMem)
  · intro node member
    have here := (same.nodes node).mpr member
    rcases levelled.attained node here with base | ⟨needed, neededMem, eq⟩
    · exact Or.inl (base.trans (same.base node here))
    · exact Or.inr ⟨needed, (same.needs node here needed).mp neededMem, eq⟩

end Same

variable [DecidableEq Node]

/-- Kahn's algorithm computes the levels. -/
theorem levelled_drain {children : GoMap Node (List Node)} {state : State Node}
    (reversed : graph.Reversed children) (initial : graph.Initial state)
    (worklist : Worklist Node) (counts : graph.Counts worklist.raise)
    (acyclic : Acyclic graph.Needs) :
    graph.Levelled fun node => (state.drain worklist children).phase.find node 0 := by
  have levels := fun node (member : node ∈ graph.nodes) =>
    phase_drain reversed initial worklist counts acyclic member
  constructor
  · exact fun node member => (levels node member).1
  · exact fun node member => (levels node member).2.1
  · exact fun node member => (levels node member).2.2

end Kahn.Graph

end Themisy
