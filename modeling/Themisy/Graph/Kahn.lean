import Themisy.Collections.GoMap
import Themisy.Collections.Loop
import Themisy.Graph.Acyclic
import Mathlib.Data.List.Perm.Basic

/-!
# Kahn's algorithm with levels

The algorithm drains a worklist of nodes whose dependencies are all processed.
Processing a node visits the nodes which need it, raises their level above its own,
and adds those whose last dependency it was. Dependencies may be repeated. How the
worklist is kept is a parameter, and so is the number which follows a level, as the
levels may be those of a machine.

Every iteration moves the nodes it adds from positive to zero counters, so the loop
terminates. On a graph it processes all nodes if and only if the graph is acyclic.
Where the machine counts along every chain of dependencies, the level of a node is the
maximum of its base level and the levels following those of its dependencies.
-/

namespace Themisy.Kahn

variable {Node : Type}

/--
A discipline for processing nodes: how those which are ready are kept, in which order
the children of a node are visited, and which level follows a level.
-/
structure Worklist (Node : Type) where
  take : List Node → Option (Node × List Node)
  add : List Node → Node → List Node
  visit : List Node → List Node
  raise : ℤ → ℤ
  take_nil : take [] = none
  take_cons : ∀ first rest, ∃ node remaining,
    take (first :: rest) = some (node, remaining) ∧ (first :: rest).Perm (node :: remaining)
  add_perm : ∀ ready node, (add ready node).Perm (node :: ready)
  visit_perm : ∀ nodes, (visit nodes).Perm nodes

namespace Worklist

variable {worklist : Worklist Node} {ready remaining : List Node} {node : Node}

theorem take_perm (taken : worklist.take ready = some (node, remaining)) :
    ready.Perm (node :: remaining) := by
  cases ready with
  | nil =>
    rw [worklist.take_nil] at taken
    cases taken
  | cons first rest =>
    obtain ⟨_, _, eq, perm⟩ := worklist.take_cons first rest
    rw [eq] at taken
    cases taken
    exact perm

theorem take_eq_none (empty : worklist.take ready = none) : ready = [] := by
  cases ready with
  | nil => rfl
  | cons first rest =>
    obtain ⟨_, _, eq, _⟩ := worklist.take_cons first rest
    rw [eq] at empty
    cases empty

end Worklist

variable [DecidableEq Node]

/-- The state of the loop. -/
structure State (Node : Type) where
  indegree : GoMap Node ℤ
  phase : GoMap Node ℤ
  ready : List Node
  processed : ℕ

variable {name node : Node} {nodes : List Node}

namespace State

/-- Visit one child of the node being processed. -/
def relax (worklist : Worklist Node) (name : Node) (state : State Node) (child : Node) :
    State Node :=
  let indegree := state.indegree.set child (state.indegree.find child 0 - 1)
  { state with
    phase :=
      if state.phase.find child 0 ≤ state.phase.find name 0 then
        state.phase.set child (worklist.raise (state.phase.find name 0))
      else state.phase
    indegree
    ready := if indegree.find child 0 = 0 then worklist.add state.ready child else state.ready }

/-- One iteration: process a ready node, or leave when there is none. -/
def process (worklist : Worklist Node) (children : GoMap Node (List Node)) (state : State Node) :
    State Node ⊕ State Node :=
  match worklist.take state.ready with
  | none => .inr state
  | some (name, remaining) =>
    .inl ((worklist.visit (children.find name [])).foldl (relax worklist name)
      { state with ready := remaining, processed := state.processed + 1 })

/-- The ready nodes and the nodes with a positive counter. -/
def size (state : State Node) : ℕ :=
  state.ready.length + state.indegree.values.countP (0 < ·)

theorem size_relax_le (worklist : Worklist Node) (name : Node) (state : State Node)
    (child : Node) : (state.relax worklist name child).size ≤ state.size := by
  have added := (worklist.add_perm state.ready child).length_eq
  have positive : (state.indegree.set child (state.indegree.find child 0 - 1)).values.countP
        (0 < ·) + (if state.indegree.find child 0 - 1 = 0 then 1 else 0) ≤
      state.indegree.values.countP (0 < ·) := by
    rw [GoMap.values_set_eq_cons_delete, List.countP_cons]
    cases found : state.indegree.get? child with
    | none =>
      simp [GoMap.find, found, GoMap.values_delete_of_missing found]
    | some count =>
      rw [(GoMap.values_perm_delete found).countP_eq, List.countP_cons]
      simp only [GoMap.find, found, Option.getD_some, decide_eq_true_eq]
      split <;> split <;> split <;> omega
  simp only [relax, size, GoMap.find_set, if_true]
  split
  · next last =>
    rw [if_pos last] at positive
    simp only [List.length_cons] at added
    omega
  · next more =>
    rw [if_neg more] at positive
    omega

theorem size_foldl_relax_le (worklist : Worklist Node) (name : Node) (children : List Node)
    (state : State Node) : (children.foldl (relax worklist name) state).size ≤ state.size := by
  induction children generalizing state with
  | nil => exact le_refl _
  | cons child rest ih => exact (ih _).trans (size_relax_le worklist name state child)

variable {children : GoMap Node (List Node)}

theorem size_process_lt {worklist : Worklist Node} {state next : State Node}
    (continued : state.process worklist children = .inl next) : next.size < state.size := by
  unfold process at continued
  split at continued
  · cases continued
  · next name remaining taken =>
    cases continued
    have shorter := (Worklist.take_perm taken).length_eq
    refine lt_of_le_of_lt (size_foldl_relax_le worklist name _ _) ?_
    simp only [size, List.length_cons] at shorter ⊢
    omega

theorem drains (worklist : Worklist Node) (children : GoMap Node (List Node)) (state : State Node) :
    (Loop.run (process worklist children) (state.size + 1) state).isSome := by
  exact Loop.isSome_run (fun _ => True) size
    (fun _ _ _ continued => ⟨trivial, size_process_lt continued⟩) trivial

/-- Process ready nodes until there is none. -/
def drain (worklist : Worklist Node) (children : GoMap Node (List Node))
    (state : State Node) : State Node :=
  (Loop.run (process worklist children) (state.size + 1) state).get
    (drains worklist children state)

/-- Levels are only ever assigned to children. -/
theorem get?_phase_drain (childless : ∀ node, name ∉ children.find node [])
    (worklist : Worklist Node) (state : State Node) :
    (state.drain worklist children).phase.get? name = state.phase.get? name := by
  have visit : ∀ (parent : Node) (visited : List Node) (state : State Node), name ∉ visited →
      (visited.foldl (relax worklist parent) state).phase.get? name = state.phase.get? name := by
    intro parent visited
    induction visited with
    | nil => exact fun _ _ => rfl
    | cons child rest ih =>
      intro state fresh
      simp only [List.mem_cons, not_or] at fresh
      rw [List.foldl_cons, ih _ fresh.2]
      simp only [relax]
      split
      · rw [GoMap.get?_set, if_neg fresh.1]
      · rfl
  refine Loop.run_sound
    (fun reached : State Node => reached.phase.get? name = state.phase.get? name)
    (fun final : State Node => final.phase.get? name = state.phase.get? name) ?_ ?_ rfl
    (Option.some_get _).symm
  · intro reached next same continued
    unfold process at continued
    split at continued
    · cases continued
    · next parent remaining taken =>
      cases continued
      rw [visit parent _ _ fun member =>
        childless parent ((worklist.visit_perm _).mem_iff.mp member)]
      exact same
  · intro reached result same left
    unfold process at left
    split at left
    · cases left
      exact same
    · cases left

section Relax

variable (worklist : Worklist Node) (name : Node)

@[simp]
theorem foldl_relax_processed (children : List Node) (state : State Node) :
    (children.foldl (relax worklist name) state).processed = state.processed := by
  induction children generalizing state with
  | nil => rfl
  | cons child rest ih => exact ih _

theorem foldl_relax_indegree (children : List Node) (state : State Node) (node : Node) :
    (children.foldl (relax worklist name) state).indegree.find node 0 =
      state.indegree.find node 0 - children.count node := by
  induction children generalizing state with
  | nil => simp
  | cons child rest ih =>
    rw [List.foldl_cons, ih, List.count_cons]
    simp only [relax, GoMap.find_set]
    by_cases same : node = child
    · subst same
      simp
      omega
    · simp [same, Ne.symm same]

theorem foldl_relax_phase {children : List Node} (state : State Node)
    (irreflexive : name ∉ children) (node : Node) :
    (children.foldl (relax worklist name) state).phase.find node 0 =
      if node ∈ children ∧ state.phase.find node 0 ≤ state.phase.find name 0 then
        worklist.raise (state.phase.find name 0)
      else state.phase.find node 0 := by
  induction children generalizing state with
  | nil => simp
  | cons child rest ih =>
    simp only [List.mem_cons, not_or] at irreflexive
    have head : ∀ other, (state.relax worklist name child).phase.find other 0 =
        if other = child ∧ state.phase.find other 0 ≤ state.phase.find name 0 then
          worklist.raise (state.phase.find name 0)
        else state.phase.find other 0 := by
      intro other
      simp only [relax]
      by_cases same : other = child
      · subst same
        simp only [true_and]
        split
        · rw [GoMap.find_set, if_pos rfl]
        · rfl
      · simp only [same, false_and, if_false]
        split
        · rw [GoMap.find_set, if_neg same]
        · rfl
    rw [List.foldl_cons, ih _ irreflexive.2, head node, head name]
    by_cases same : node = child
    · -- a second visit of a child raises it to the same level
      subst same
      simp only [irreflexive.1, false_and, if_false, true_and, List.mem_cons, true_or]
      split <;> split <;> simp_all
    · simp only [irreflexive.1, same, false_and, if_false, List.mem_cons, false_or]

/-- The ready nodes after a node's children were visited: those whose last dependency it was. -/
theorem foldl_relax_ready {children : List Node} (state : State Node) (distinct : state.ready.Nodup)
    (waiting : ∀ child ∈ children, child ∉ state.ready ∧
      (children.count child : ℤ) ≤ state.indegree.find child 0) :
    (children.foldl (relax worklist name) state).ready.Nodup ∧
      ∀ node, node ∈ (children.foldl (relax worklist name) state).ready ↔
        node ∈ state.ready ∨
          node ∈ children ∧ state.indegree.find node 0 = children.count node := by
  induction children generalizing state with
  | nil => simp [distinct]
  | cons child rest ih =>
    obtain ⟨childWaiting, childCount⟩ := waiting child List.mem_cons_self
    rw [List.count_cons_self] at childCount
    have headReady : (state.relax worklist name child).ready =
        if state.indegree.find child 0 = 1 then worklist.add state.ready child
        else state.ready := by
      simp only [relax, GoMap.find_set, if_true, sub_eq_zero]
    have headIndegree : ∀ node, (state.relax worklist name child).indegree.find node 0 =
        if node = child then state.indegree.find child 0 - 1
        else state.indegree.find node 0 := by
      intro node
      simp only [relax, GoMap.find_set]
    have headMem : ∀ node, node ∈ (state.relax worklist name child).ready ↔
        node ∈ state.ready ∨ node = child ∧ state.indegree.find child 0 = 1 := by
      intro node
      rw [headReady]
      split
      · next last => simp [(worklist.add_perm state.ready child).mem_iff, last, or_comm]
      · next more => simp [more]
    have headDistinct : (state.relax worklist name child).ready.Nodup := by
      rw [headReady]
      split
      · rw [(worklist.add_perm state.ready child).nodup_iff, List.nodup_cons]
        exact ⟨childWaiting, distinct⟩
      · exact distinct
    have restWaiting : ∀ node ∈ rest, node ∉ (state.relax worklist name child).ready ∧
        (rest.count node : ℤ) ≤ (state.relax worklist name child).indegree.find node 0 := by
      intro node member
      obtain ⟨nodeWaiting, nodeCount⟩ := waiting node (List.mem_cons_of_mem _ member)
      have positive := List.count_pos_iff.mpr member
      rw [headMem, headIndegree]
      by_cases same : node = child
      · subst same
        simp only [nodeWaiting, true_and, false_or, if_true]
        omega
      · rw [List.count_cons_of_ne (Ne.symm same)] at nodeCount
        simp only [nodeWaiting, same, false_and, or_self, not_false_eq_true, if_false, true_and]
        exact nodeCount
    obtain ⟨finalDistinct, finalMem⟩ := ih _ headDistinct restWaiting
    refine ⟨finalDistinct, ?_⟩
    intro node
    rw [List.foldl_cons, finalMem, headMem, headIndegree]
    by_cases same : node = child
    · subst same
      rw [List.count_cons_self]
      by_cases again : node ∈ rest
      · have positive := List.count_pos_iff.mpr again
        simp only [childWaiting, again, List.mem_cons, true_and, or_true, false_or, if_true]
        omega
      · rw [List.count_eq_zero_of_not_mem again]
        simp [again]
    · rw [List.count_cons_of_ne (Ne.symm same)]
      simp [same]

end Relax

end State

/-- A finite graph given by the listed dependencies of its nodes, with a base level for each. -/
structure Graph (Node : Type) where
  nodes : List Node
  needs : Node → List Node
  base : Node → ℤ
  distinct : nodes.Nodup
  closed : ∀ node ∈ nodes, ∀ needed ∈ needs node, needed ∈ nodes

namespace Graph

variable (graph : Graph Node)

def Needs (node needed : Node) : Prop :=
  node ∈ graph.nodes ∧ needed ∈ graph.needs node

/-- The child lists are the dependencies reversed, repetitions included. -/
structure Reversed (children : GoMap Node (List Node)) : Prop where
  mem : ∀ node ∈ graph.nodes, ∀ child ∈ children.find node [], child ∈ graph.nodes
  count_eq : ∀ node ∈ graph.nodes, ∀ child ∈ graph.nodes,
    (children.find node []).count child = (graph.needs child).count node

/-- The state before the first iteration. -/
structure Initial (state : State Node) : Prop where
  indegree : ∀ node ∈ graph.nodes, state.indegree.find node 0 = (graph.needs node).length
  phase : ∀ node ∈ graph.nodes, state.phase.find node 0 = graph.base node
  ready : state.ready.Perm (graph.nodes.filter fun node => graph.needs node = [])
  processed : state.processed = 0

/-- The state between two iterations, after the listed nodes were processed. -/
structure Invariant (done : List Node) (state : State Node) : Prop where
  doneDistinct : done.Nodup
  doneNodes : ∀ node ∈ done, node ∈ graph.nodes
  doneClosed : ∀ node ∈ done, ∀ needed ∈ graph.needs node, needed ∈ done
  processed : state.processed = done.length
  readyDistinct : state.ready.Nodup
  mem_ready : ∀ node, node ∈ state.ready ↔
    node ∈ graph.nodes ∧ node ∉ done ∧ ∀ needed ∈ graph.needs node, needed ∈ done
  indegree : ∀ node ∈ graph.nodes,
    state.indegree.find node 0 = (graph.needs node).countP (· ∉ done)
  /-- The nodes were processed one by one, each after those it needs. -/
  ranked : ∃ rank : Node → ℕ, ∀ node ∈ done,
    rank node < done.length ∧ ∀ needed ∈ graph.needs node, rank needed < rank node

/-- The levels which chains of dependencies demand are reached by counting. -/
def Counts (raise : ℤ → ℤ) : Prop :=
  ∀ node needed last length, graph.Needs node needed → Chain graph.Needs needed last length →
    raise (graph.base last + length) = graph.base last + length + 1

/-- The levels between two iterations, after the listed nodes were processed. -/
structure Counted (done : List Node) (state : State Node) : Prop where
  base_le : ∀ node ∈ graph.nodes, graph.base node ≤ state.phase.find node 0
  needed_lt : ∀ node ∈ graph.nodes, ∀ needed ∈ graph.needs node, needed ∈ done →
    state.phase.find needed 0 + 1 ≤ state.phase.find node 0
  attained : ∀ node ∈ graph.nodes, state.phase.find node 0 = graph.base node ∨
    ∃ needed ∈ graph.needs node, needed ∈ done ∧
      state.phase.find node 0 = state.phase.find needed 0 + 1
  chained : ∀ node ∈ graph.nodes, ∃ last length, Chain graph.Needs node last length ∧
    state.phase.find node 0 = graph.base last + length

variable {graph} {children : GoMap Node (List Node)} {state : State Node} {done : List Node}
  {worklist : Worklist Node}

theorem Initial.invariant (initial : graph.Initial state) : graph.Invariant [] state where
  doneDistinct := List.nodup_nil
  doneNodes := by simp
  doneClosed := by simp
  processed := initial.processed
  readyDistinct := initial.ready.nodup_iff.mpr (graph.distinct.filter _)
  mem_ready node := by
    rw [initial.ready.mem_iff]
    simp [List.eq_nil_iff_forall_not_mem]
  indegree node member := by simpa using initial.indegree node member
  ranked := ⟨fun _ => 0, by simp⟩

theorem Initial.counted (initial : graph.Initial state) : graph.Counted [] state where
  base_le node member := (initial.phase node member).ge
  needed_lt := by simp
  attained node member := Or.inl (initial.phase node member)
  chained node member := ⟨node, 0, .refl node, by simpa using initial.phase node member⟩

theorem countP_not_mem_cons (fresh : name ∉ done) (nodes : List Node) :
    nodes.countP (· ∉ done) = nodes.countP (· ∉ name :: done) + nodes.count name := by
  induction nodes with
  | nil => rfl
  | cons node rest ih =>
    rw [List.countP_cons, List.countP_cons, List.count_cons, ih]
    by_cases same : node = name
    · subst same
      simp [fresh]
      omega
    · simp [same]
      omega

theorem countP_not_mem_eq_zero_iff : nodes.countP (· ∉ done) = 0 ↔ ∀ node ∈ nodes, node ∈ done := by
  simp [List.countP_eq_zero]

/-- A node which is taken from the ready ones, with its children. -/
structure Selection (graph : Graph Node) (done : List Node) (state : State Node) (name : Node)
    (remaining kids : List Node) : Prop where
  node : name ∈ graph.nodes
  fresh : name ∉ done
  needs : ∀ needed ∈ graph.needs name, needed ∈ done
  distinct : remaining.Nodup
  mem_remaining : ∀ node, node ∈ remaining ↔ node ∈ state.ready ∧ node ≠ name
  kidsNodes : ∀ kid ∈ kids, kid ∈ graph.nodes
  mem_kids : ∀ node ∈ graph.nodes, (node ∈ kids ↔ name ∈ graph.needs node)
  kidsOpen : ∀ kid ∈ kids, kid ∉ name :: done
  indegree : ∀ node ∈ graph.nodes, state.indegree.find node 0 =
    (graph.needs node).countP (· ∉ name :: done) + kids.count node

theorem Invariant.selection (invariant : graph.Invariant done state)
    (reversed : graph.Reversed children) {remaining : List Node}
    (taken : worklist.take state.ready = some (name, remaining)) :
    graph.Selection done state name remaining (worklist.visit (children.find name [])) := by
  have readyPerm := Worklist.take_perm taken
  have readyDistinct := readyPerm.nodup_iff.mp invariant.readyDistinct
  rw [List.nodup_cons] at readyDistinct
  obtain ⟨nameNode, nameFresh, nameNeeds⟩ :=
    (invariant.mem_ready name).mp (readyPerm.mem_iff.mpr List.mem_cons_self)
  have visitPerm := worklist.visit_perm (children.find name [])
  have kidsNodes : ∀ kid ∈ worklist.visit (children.find name []), kid ∈ graph.nodes :=
    fun kid member => reversed.mem name nameNode kid (visitPerm.mem_iff.mp member)
  have kidsCount : ∀ node ∈ graph.nodes,
      (worklist.visit (children.find name [])).count node = (graph.needs node).count name :=
    fun node member => (visitPerm.count_eq node).trans
      (reversed.count_eq name nameNode node member)
  have mem_kids : ∀ node ∈ graph.nodes,
      (node ∈ worklist.visit (children.find name []) ↔ name ∈ graph.needs node) := by
    intro node member
    rw [← List.count_pos_iff, kidsCount node member, List.count_pos_iff]
  refine ⟨nameNode, nameFresh, nameNeeds, readyDistinct.2, ?_, kidsNodes, mem_kids, ?_, ?_⟩
  · intro node
    rw [readyPerm.mem_iff, List.mem_cons]
    constructor
    · intro member
      exact ⟨Or.inr member, fun same => readyDistinct.1 (same ▸ member)⟩
    · rintro ⟨same | member, different⟩
      · exact absurd same different
      · exact member
  · intro kid member closed
    have needsName := (mem_kids kid (kidsNodes kid member)).mp member
    rcases List.mem_cons.mp closed with rfl | kidDone
    · exact nameFresh (nameNeeds _ needsName)
    · exact nameFresh (invariant.doneClosed kid kidDone name needsName)
  · intro node member
    rw [invariant.indegree node member, countP_not_mem_cons nameFresh, kidsCount node member]
    push_cast
    rfl

namespace Selection

variable {name : Node} {remaining kids : List Node}

/-- The state after the kids of the selected node were visited. -/
abbrev next (worklist : Worklist Node) (state : State Node) (name : Node)
    (remaining kids : List Node) : State Node :=
  kids.foldl (State.relax worklist name)
    { state with ready := remaining, processed := state.processed + 1 }

section

variable (selection : graph.Selection done state name remaining kids)

include selection

theorem ready_next (invariant : graph.Invariant done state) :
    (next worklist state name remaining kids).ready.Nodup ∧
      ∀ node, node ∈ (next worklist state name remaining kids).ready ↔
        node ∈ graph.nodes ∧ node ∉ name :: done ∧
          ∀ needed ∈ graph.needs node, needed ∈ name :: done := by
  have waiting : ∀ kid ∈ kids, kid ∉ remaining ∧
      (kids.count kid : ℤ) ≤ state.indegree.find kid 0 := by
    intro kid member
    have kidNode := selection.kidsNodes kid member
    refine ⟨?_, ?_⟩
    · intro already
      have kidReady := ((selection.mem_remaining kid).mp already).1
      have kidNeeds := ((invariant.mem_ready kid).mp kidReady).2.2
      exact selection.fresh (kidNeeds name ((selection.mem_kids kid kidNode).mp member))
    · rw [selection.indegree kid kidNode]
      omega
  obtain ⟨newDistinct, newMem⟩ := State.foldl_relax_ready worklist name
    { state with ready := remaining, processed := state.processed + 1 } selection.distinct waiting
  -- a counter equals the remaining visits exactly when no other dependency is open
  have last : ∀ node ∈ graph.nodes, (state.indegree.find node 0 = kids.count node ↔
      ∀ needed ∈ graph.needs node, needed ∈ name :: done) := by
    intro node member
    rw [← countP_not_mem_eq_zero_iff, selection.indegree node member]
    omega
  refine ⟨newDistinct, ?_⟩
  intro node
  rw [newMem, selection.mem_remaining, invariant.mem_ready]
  constructor
  · rintro (⟨⟨member, fresh, needs⟩, different⟩ | ⟨kid, visited⟩)
    · refine ⟨member, by simp [different, fresh], ?_⟩
      exact fun needed neededMem => List.mem_cons_of_mem _ (needs needed neededMem)
    · have member := selection.kidsNodes node kid
      exact ⟨member, selection.kidsOpen node kid, (last node member).mp visited⟩
  · rintro ⟨member, fresh, needs⟩
    by_cases needsName : name ∈ graph.needs node
    · exact Or.inr ⟨(selection.mem_kids node member).mpr needsName, (last node member).mpr needs⟩
    · simp only [List.mem_cons, not_or] at fresh
      refine Or.inl ⟨⟨member, fresh.2, ?_⟩, fresh.1⟩
      intro needed neededMem
      rcases List.mem_cons.mp (needs needed neededMem) with rfl | neededDone
      · exact absurd neededMem needsName
      · exact neededDone

theorem phase_next (member : node ∈ graph.nodes) :
    (next worklist state name remaining kids).phase.find node 0 =
      if name ∈ graph.needs node ∧ state.phase.find node 0 ≤ state.phase.find name 0 then
        worklist.raise (state.phase.find name 0)
      else state.phase.find node 0 := by
  have irreflexive : name ∉ kids := fun kid => selection.kidsOpen name kid List.mem_cons_self
  rw [next, State.foldl_relax_phase worklist name _ irreflexive]
  simp only [selection.mem_kids node member]

theorem phase_next_of_done (closed : node ∈ name :: done) :
    (next worklist state name remaining kids).phase.find node 0 = state.phase.find node 0 := by
  have irreflexive : name ∉ kids := fun kid => selection.kidsOpen name kid List.mem_cons_self
  rw [next, State.foldl_relax_phase worklist name _ irreflexive,
    if_neg fun kid => selection.kidsOpen node kid.1 closed]

theorem invariant_next (invariant : graph.Invariant done state) :
    graph.Invariant (name :: done) (next worklist state name remaining kids) where
  doneDistinct := List.nodup_cons.mpr ⟨selection.fresh, invariant.doneDistinct⟩
  doneNodes := by simpa [selection.node] using invariant.doneNodes
  doneClosed := by
    intro node closed needed member
    rcases List.mem_cons.mp closed with rfl | nodeDone
    · exact List.mem_cons_of_mem _ (selection.needs needed member)
    · exact List.mem_cons_of_mem _ (invariant.doneClosed node nodeDone needed member)
  processed := by simp [invariant.processed]
  readyDistinct := (selection.ready_next invariant).1
  mem_ready := (selection.ready_next invariant).2
  indegree := by
    intro node member
    rw [State.foldl_relax_indegree, selection.indegree node member]
    omega
  ranked := by
    obtain ⟨rank, ranked⟩ := invariant.ranked
    refine ⟨Function.update rank name done.length, ?_⟩
    have kept : ∀ node ∈ done, Function.update rank name done.length node = rank node := by
      intro node nodeDone
      refine Function.update_of_ne ?_ _ _
      rintro rfl
      exact selection.fresh nodeDone
    intro node closed
    rcases List.mem_cons.mp closed with rfl | nodeDone
    · rw [Function.update_self]
      refine ⟨by simp, fun needed member => ?_⟩
      rw [kept needed (selection.needs needed member)]
      exact (ranked needed (selection.needs needed member)).1
    · obtain ⟨bound, smaller⟩ := ranked node nodeDone
      rw [kept node nodeDone]
      refine ⟨Nat.lt_succ_of_lt bound, fun needed member => ?_⟩
      rw [kept needed (invariant.doneClosed node nodeDone needed member)]
      exact smaller needed member

theorem counted_next (counts : graph.Counts worklist.raise) (counted : graph.Counted done state) :
    graph.Counted (name :: done) (next worklist state name remaining kids) := by
  have raised : ∀ node ∈ graph.nodes, name ∈ graph.needs node →
      worklist.raise (state.phase.find name 0) = state.phase.find name 0 + 1 := by
    intro node member needsName
    obtain ⟨last, length, chain, eq⟩ := counted.chained name selection.node
    rw [eq]
    exact counts node name last length ⟨member, needsName⟩ chain
  -- a node is raised above the selected one, or keeps its level
  have cases : ∀ node ∈ graph.nodes,
      (name ∈ graph.needs node ∧ state.phase.find node 0 ≤ state.phase.find name 0 ∧
        (next worklist state name remaining kids).phase.find node 0 =
          state.phase.find name 0 + 1) ∨
      (name ∈ graph.needs node → state.phase.find name 0 < state.phase.find node 0) ∧
        (next worklist state name remaining kids).phase.find node 0 =
          state.phase.find node 0 := by
    intro node member
    rw [selection.phase_next member]
    split
    · next lower => exact Or.inl ⟨lower.1, lower.2, raised node member lower.1⟩
    · next upper =>
      exact Or.inr ⟨fun needsName => lt_of_not_ge fun le => upper ⟨needsName, le⟩, rfl⟩
  constructor
  case base_le =>
    intro node member
    have before := counted.base_le node member
    rcases cases node member with ⟨-, lower, eq⟩ | ⟨-, eq⟩ <;> omega
  case needed_lt =>
    intro node member needed neededMem closed
    rw [selection.phase_next_of_done closed]
    rcases List.mem_cons.mp closed with rfl | neededDone
    · rcases cases node member with ⟨-, -, eq⟩ | ⟨above, eq⟩
      · exact eq.ge
      · have := above neededMem
        omega
    · have before := counted.needed_lt node member needed neededMem neededDone
      rcases cases node member with ⟨-, lower, eq⟩ | ⟨-, eq⟩ <;> omega
  case attained =>
    intro node member
    rcases cases node member with ⟨needsName, -, eq⟩ | ⟨-, eq⟩
    · refine Or.inr ⟨name, needsName, List.mem_cons_self, ?_⟩
      rw [eq, selection.phase_next_of_done List.mem_cons_self]
    · rw [eq]
      refine (counted.attained node member).imp id ?_
      rintro ⟨needed, neededMem, neededDone, before⟩
      have closed := List.mem_cons_of_mem name neededDone
      exact ⟨needed, neededMem, closed, by rw [selection.phase_next_of_done closed, before]⟩
  case chained =>
    intro node member
    rcases cases node member with ⟨needsName, -, eq⟩ | ⟨-, eq⟩
    · obtain ⟨last, length, chain, before⟩ := counted.chained name selection.node
      refine ⟨last, length + 1, .step ⟨member, needsName⟩ chain, ?_⟩
      rw [eq, before]
      push_cast
      omega
    · rw [eq]
      exact counted.chained node member

end

end Selection

/-- What draining an initial state leaves behind. -/
theorem exists_invariant_drain (reversed : graph.Reversed children)
    (initial : graph.Initial state) (worklist : Worklist Node) :
    ∃ done, (graph.Invariant done (state.drain worklist children) ∧
        (graph.Counts worklist.raise → graph.Counted done (state.drain worklist children))) ∧
      (state.drain worklist children).ready = [] := by
  refine Loop.run_sound
    (fun state => ∃ done, graph.Invariant done state ∧
      (graph.Counts worklist.raise → graph.Counted done state))
    (fun state => ∃ done, (graph.Invariant done state ∧
      (graph.Counts worklist.raise → graph.Counted done state)) ∧ state.ready = []) ?_ ?_
    ⟨[], initial.invariant, fun _ => initial.counted⟩ (Option.some_get _).symm
  · rintro state next ⟨done, invariant, counted⟩ continued
    unfold State.process at continued
    split at continued
    · cases continued
    · next name remaining taken =>
      cases continued
      have selection := invariant.selection reversed taken
      exact ⟨name :: done, selection.invariant_next invariant,
        fun counts => selection.counted_next counts (counted counts)⟩
  · rintro state result ⟨done, invariant⟩ left
    unfold State.process at left
    split at left
    · next empty =>
      cases left
      exact ⟨done, invariant, Worklist.take_eq_none empty⟩
    · cases left

theorem Invariant.mem_done (invariant : graph.Invariant done state) (empty : state.ready = [])
    (acyclic : Acyclic graph.Needs) (member : node ∈ graph.nodes) : node ∈ done := by
  by_contra waiting
  have nonempty : graph.nodes.filter (· ∉ done) ≠ [] :=
    List.ne_nil_of_mem (List.mem_filter.mpr ⟨member, decide_eq_true waiting⟩)
  obtain ⟨least, leastMem, minimal⟩ := acyclic.exists_minimal nonempty
  obtain ⟨leastNode, leastWaiting⟩ := List.mem_filter.mp leastMem
  have leastReady : least ∈ state.ready := by
    refine (invariant.mem_ready least).mpr ⟨leastNode, of_decide_eq_true leastWaiting, ?_⟩
    intro needed neededMem
    by_contra neededWaiting
    refine minimal needed (List.mem_filter.mpr ⟨?_, decide_eq_true neededWaiting⟩)
      ⟨leastNode, neededMem⟩
    exact graph.closed least leastNode needed neededMem
  rw [empty] at leastReady
  cases leastReady

theorem Invariant.processed_eq_iff (invariant : graph.Invariant done state) :
    state.processed = graph.nodes.length ↔ ∀ node ∈ graph.nodes, node ∈ done := by
  have subperm : done.Subperm graph.nodes :=
    List.subperm_of_subset invariant.doneDistinct invariant.doneNodes
  rw [invariant.processed]
  constructor
  · intro all node member
    exact (subperm.perm_of_length_le all.ge).mem_iff.mpr member
  · intro all
    refine le_antisymm subperm.length_le ?_
    exact (List.subperm_of_subset graph.distinct all).length_le

/-- All nodes are processed exactly when the graph is acyclic. -/
theorem processed_drain_eq_iff (reversed : graph.Reversed children)
    (initial : graph.Initial state) (worklist : Worklist Node) :
    (state.drain worklist children).processed = graph.nodes.length ↔ Acyclic graph.Needs := by
  obtain ⟨done, ⟨invariant, -⟩, empty⟩ := exists_invariant_drain reversed initial worklist
  rw [invariant.processed_eq_iff]
  constructor
  · intro all
    obtain ⟨rank, ranked⟩ := invariant.ranked
    apply acyclic_of_rank fun node => (rank node : ℤ)
    rintro node needed ⟨member, neededMem⟩
    exact_mod_cast (ranked node (all node member)).2 needed neededMem
  · intro acyclic node member
    exact invariant.mem_done empty acyclic member

/-- The level of a node is at least its base and one more than every dependency, and is
attained by one of them. -/
theorem phase_drain (reversed : graph.Reversed children) (initial : graph.Initial state)
    (worklist : Worklist Node) (counts : graph.Counts worklist.raise)
    (acyclic : Acyclic graph.Needs) (member : node ∈ graph.nodes) :
    graph.base node ≤ (state.drain worklist children).phase.find node 0 ∧
      (∀ needed ∈ graph.needs node, (state.drain worklist children).phase.find needed 0 + 1 ≤
        (state.drain worklist children).phase.find node 0) ∧
      ((state.drain worklist children).phase.find node 0 = graph.base node ∨
        ∃ needed ∈ graph.needs node, (state.drain worklist children).phase.find node 0 =
          (state.drain worklist children).phase.find needed 0 + 1) := by
  obtain ⟨done, ⟨invariant, counted⟩, empty⟩ := exists_invariant_drain reversed initial worklist
  replace counted := counted counts
  refine ⟨counted.base_le node member, ?_, ?_⟩
  · intro needed neededMem
    exact counted.needed_lt node member needed neededMem
      (invariant.mem_done empty acyclic (graph.closed node member needed neededMem))
  · refine (counted.attained node member).imp id ?_
    rintro ⟨needed, neededMem, -, eq⟩
    exact ⟨needed, neededMem, eq⟩

end Graph

/-- The order in which children are visited does not depend on how they are listed. -/
def Worklist.Canonical (worklist : Worklist Node) : Prop :=
  ∀ first second : List Node, first.Perm second → worklist.visit first = worklist.visit second

/-- Two states which cannot be told apart at the listed nodes. -/
structure State.Alike (nodes : List Node) (first second : State Node) : Prop where
  indegree : ∀ node ∈ nodes, first.indegree.find node 0 = second.indegree.find node 0
  phase : ∀ node ∈ nodes, first.phase.find node 0 = second.phase.find node 0
  ready : first.ready = second.ready
  readyNodes : ∀ node ∈ first.ready, node ∈ nodes

namespace State.Alike

variable {first second : State Node} {worklist : Worklist Node}

theorem relax (alike : Alike nodes first second) (member : name ∈ nodes) {child : Node}
    (childMem : child ∈ nodes) :
    Alike nodes (first.relax worklist name child) (second.relax worklist name child) where
  indegree node nodeMem := by
    simp only [State.relax, GoMap.find_set, alike.indegree child childMem,
      alike.indegree node nodeMem]
  phase node nodeMem := by
    simp only [State.relax, alike.phase child childMem, alike.phase name member]
    split
    · simp only [GoMap.find_set, alike.phase node nodeMem]
    · exact alike.phase node nodeMem
  ready := by
    simp only [State.relax, GoMap.find_set, alike.indegree child childMem, alike.ready]
  readyNodes node := by
    simp only [State.relax]
    split
    · rw [(worklist.add_perm first.ready child).mem_iff, List.mem_cons]
      rintro (rfl | waiting)
      · exact childMem
      · exact alike.readyNodes node waiting
    · exact alike.readyNodes node

theorem foldl_relax (alike : Alike nodes first second) (member : name ∈ nodes)
    {children : List Node} (childrenMem : ∀ child ∈ children, child ∈ nodes) :
    Alike nodes (children.foldl (State.relax worklist name) first)
      (children.foldl (State.relax worklist name) second) := by
  induction children generalizing first second with
  | nil => exact alike
  | cons child rest ih =>
    exact ih (alike.relax member (childrenMem child List.mem_cons_self))
      fun child childMem => childrenMem child (List.mem_cons_of_mem _ childMem)

/-- Draining two such states over the same children leaves two such states. -/
theorem drain (alike : Alike nodes first second) (canonical : worklist.Canonical)
    {children again : GoMap Node (List Node)}
    (closed : ∀ node ∈ nodes, ∀ child ∈ children.find node [], child ∈ nodes)
    (perm : ∀ node ∈ nodes, (children.find node []).Perm (again.find node [])) :
    Alike nodes (first.drain worklist children) (second.drain worklist again) := by
  refine Loop.related_of_run (Alike nodes) (Alike nodes) ?_ alike (Option.some_get _).symm
    (Option.some_get _).symm
  intro first second alike
  unfold process
  rw [← alike.ready]
  cases taken : worklist.take first.ready with
  | none => exact Or.inl ⟨first, second, rfl, rfl, alike⟩
  | some selected =>
    obtain ⟨name, remaining⟩ := selected
    have member := alike.readyNodes name
      ((Worklist.take_perm taken).mem_iff.mpr List.mem_cons_self)
    have kept : Alike nodes { first with ready := remaining, processed := first.processed + 1 }
        { second with ready := remaining, processed := second.processed + 1 } := by
      refine ⟨alike.indegree, alike.phase, rfl, fun node waiting => alike.readyNodes node ?_⟩
      exact (Worklist.take_perm taken).mem_iff.mpr (List.mem_cons_of_mem _ waiting)
    refine Or.inr ⟨_, _, rfl, rfl, ?_⟩
    rw [← canonical _ _ (perm name member)]
    refine kept.foldl_relax member fun child visited => ?_
    exact closed name member child ((worklist.visit_perm _).mem_iff.mp visited)

end State.Alike

/-- The levels depend on the graph and not on how its edges were read. -/
theorem Graph.phase_drain_congr {first second : Graph Node} {worklist : Worklist Node}
    {children again : GoMap Node (List Node)} {state other : State Node}
    (nodes : ∀ node, node ∈ first.nodes ↔ node ∈ second.nodes)
    (needs : ∀ node, first.needs node = second.needs node)
    (base : ∀ node, first.base node = second.base node) (canonical : worklist.Canonical)
    (reversed : first.Reversed children) (reversedToo : second.Reversed again)
    (initial : first.Initial state) (initialToo : second.Initial other)
    (ready : state.ready = other.ready) :
    ∀ node ∈ first.nodes, (state.drain worklist children).phase.find node 0 =
      (other.drain worklist again).phase.find node 0 := by
  have alike : State.Alike first.nodes state other := by
    refine ⟨fun node member => ?_, fun node member => ?_, ready, fun node waiting => ?_⟩
    · rw [initial.indegree node member, initialToo.indegree node ((nodes node).mp member), needs]
    · rw [initial.phase node member, initialToo.phase node ((nodes node).mp member), base]
    · exact (List.mem_filter.mp (initial.ready.mem_iff.mp waiting)).1
  refine (alike.drain canonical reversed.mem fun node member => ?_).phase
  refine List.perm_iff_count.mpr fun child => ?_
  by_cases listed : child ∈ first.nodes
  · rw [reversed.count_eq node member child listed,
      reversedToo.count_eq node ((nodes node).mp member) child ((nodes child).mp listed), needs]
  · rw [List.count_eq_zero_of_not_mem fun found => listed (reversed.mem node member child found),
      List.count_eq_zero_of_not_mem fun found => listed ((nodes child).mpr
        (reversedToo.mem node ((nodes node).mp member) child found))]

/-- The counters and the child lists of the edges read so far. -/
structure Edges (Node : Type) where
  indegree : GoMap Node ℤ := ∅
  children : GoMap Node (List Node) := ∅

namespace Edges

/-- Record that a node depends on another one. -/
def add (name : Node) (edges : Edges Node) (needed : Node) : Edges Node where
  indegree := edges.indegree.set name (edges.indegree.find name 0 + 1)
  children := edges.children.set needed (edges.children.find needed [] ++ [name])

/-- Record the listed dependencies of every node. -/
def read (needs : Node → List Node) (nodes : List Node) : Edges Node :=
  nodes.foldl (fun edges name => (needs name).foldl (add name) edges) {}

theorem foldl_add_indegree (name : Node) (needed : List Node) (edges : Edges Node) (node : Node) :
    (needed.foldl (add name) edges).indegree.find node 0 =
      edges.indegree.find node 0 + if node = name then (needed.length : ℤ) else 0 := by
  induction needed generalizing edges with
  | nil => simp
  | cons first rest ih =>
    rw [List.foldl_cons, ih]
    simp only [add, GoMap.find_set, List.length_cons]
    split
    · next same =>
      subst same
      push_cast
      omega
    · rfl

theorem foldl_add_children (name : Node) (needed : List Node) (edges : Edges Node) (node : Node) :
    (needed.foldl (add name) edges).children.find node [] =
      edges.children.find node [] ++ List.replicate (needed.count node) name := by
  induction needed generalizing edges with
  | nil => simp
  | cons first rest ih =>
    rw [List.foldl_cons, ih]
    simp only [add, GoMap.find_set, List.count_cons]
    split
    · next same =>
      subst same
      simp [List.replicate_succ]
    · next different => simp [Ne.symm different]

theorem read_indegree (needs : Node → List Node) (distinct : nodes.Nodup) (node : Node) :
    (read needs nodes).indegree.find node 0 =
      if node ∈ nodes then ((needs node).length : ℤ) else 0 := by
  have general : ∀ edges : Edges Node,
      (nodes.foldl (fun edges name => (needs name).foldl (add name) edges) edges).indegree.find
        node 0 = edges.indegree.find node 0 +
          if node ∈ nodes then ((needs node).length : ℤ) else 0 := by
    induction nodes with
    | nil => simp
    | cons name rest ih =>
      intro edges
      obtain ⟨fresh, restDistinct⟩ := List.nodup_cons.mp distinct
      rw [List.foldl_cons, ih restDistinct, foldl_add_indegree]
      by_cases same : node = name
      · subst same
        simp [fresh]
      · simp [same]
  simpa [read] using general {}

theorem read_children_count (needs : Node → List Node) (distinct : nodes.Nodup)
    (node child : Node) :
    ((read needs nodes).children.find node []).count child =
      if child ∈ nodes then (needs child).count node else 0 := by
  have general : ∀ edges : Edges Node,
      ((nodes.foldl (fun edges name => (needs name).foldl (add name) edges) edges).children.find
        node []).count child = (edges.children.find node []).count child +
          if child ∈ nodes then (needs child).count node else 0 := by
    induction nodes with
    | nil => simp
    | cons name rest ih =>
      intro edges
      obtain ⟨fresh, restDistinct⟩ := List.nodup_cons.mp distinct
      rw [List.foldl_cons, ih restDistinct, foldl_add_children, List.count_append,
        List.count_replicate]
      by_cases same : child = name
      · subst same
        simp [fresh]
      · simp [same, Ne.symm same]
  simpa [read] using general {}

/-- The child lists read from the nodes of a graph, in any order, reverse its edges. -/
theorem read_reversed (graph : Graph Node) (perm : nodes.Perm graph.nodes) :
    graph.Reversed (read graph.needs nodes).children := by
  have distinct := perm.nodup_iff.mpr graph.distinct
  constructor
  · intro node _ child member
    have positive := List.count_pos_iff.mpr member
    rw [read_children_count graph.needs distinct] at positive
    split at positive
    · next listed => exact perm.mem_iff.mp listed
    · cases positive
  · intro node _ child listed
    rw [read_children_count graph.needs distinct, if_pos (perm.mem_iff.mpr listed)]

theorem read_initial (graph : Graph Node) (perm : nodes.Perm graph.nodes) {phase : GoMap Node ℤ}
    (base : ∀ node ∈ graph.nodes, phase.find node 0 = graph.base node) {ready : List Node}
    (readyPerm : ready.Perm (graph.nodes.filter fun node =>
      (read graph.needs nodes).indegree.find node 0 = 0)) :
    graph.Initial ⟨(read graph.needs nodes).indegree, phase, ready, 0⟩ := by
  have distinct := perm.nodup_iff.mpr graph.distinct
  refine ⟨?_, base, ?_, rfl⟩
  · intro node listed
    rw [read_indegree graph.needs distinct, if_pos (perm.mem_iff.mpr listed)]
  · refine readyPerm.trans (List.Perm.of_eq (List.filter_congr ?_))
    intro node listed
    rw [read_indegree graph.needs distinct, if_pos (perm.mem_iff.mpr listed)]
    simp

end Edges

end Themisy.Kahn
