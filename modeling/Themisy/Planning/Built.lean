import Themisy.Planning.Catalog

/-!
# Constructed planners

A planner is built when one of the two constructors has returned it. Both refuse
services without a name, so no built planner defines the empty name.
-/

namespace Themisy.Planning

open Domain Contract

/-- The planners which the constructors return. -/
inductive Planner.Built (digest : Digest) : Planner → Prop where
  | new {order : IterationOrder String} {services : List Service} {planner : Planner}
      (built : Planning.new digest order services = .ok planner) : Built digest planner
  | fromContracts {orders : Orders} {contracts : List ServiceContract}
      {profiles : List ReleaseProfile} {options : Options} {planner : Planner}
      (built : newFromContracts digest orders contracts profiles options = .ok planner) :
      Built digest planner

theorem mem_keys_of_mem_phases {definitions : GoMap String ServiceDefinition}
    {order : IterationOrder String} {phases : GoMap String ℤ}
    (ordered : validateGlobalOrderingGraph order definitions = .ok phases) {name : String}
    (member : name ∈ phases.keys) : name ∈ definitions.keys := by
  by_contra absent
  simp only [validateGlobalOrderingGraph] at ordered
  split at ordered
  · cases ordered
  · cases ordered
    have undefined : name ∉ order.arrange 2 definitions.keys := by
      rwa [order.mem_arrange]
    have distinct := (order.perm 2 definitions.keys).nodup_iff.mpr definitions.keys_nodup
    have childless : ∀ node, name ∉ (Kahn.Edges.read
        (fun name => (definitions.find name .zero).orderingDependencies)
        (order.arrange 2 definitions.keys)).children.find node [] := by
      intro node
      rw [← List.count_eq_zero, Kahn.Edges.read_children_count _ distinct, if_neg undefined]
    refine AList.lookup_eq_none.mp ?_ member
    exact Kahn.State.get?_phase_drain childless stack _

/-- The catalog defines no service without a name. -/
def Catalog.Named (catalog : Catalog) : Prop :=
  catalog.definitions.get? "" = none

namespace Catalog.Named

variable {catalog result : Catalog} {digest : Digest}

theorem register (named : catalog.Named) {name : String} (nonempty : name ≠ "")
    (definition : ServiceDefinition) : (catalog.register name definition).Named := by
  rw [Named, Catalog.register, GoMap.get?_set, if_neg nonempty.symm]
  exact named

theorem foldlM {Item : Type} {step : Catalog → Item → Except GoError Catalog}
    (kept : ∀ catalog item next, Named catalog → step catalog item = .ok next → Named next)
    {items : List Item} (named : catalog.Named)
    (folded : items.foldlM step catalog = .ok result) : result.Named := by
  induction items generalizing catalog with
  | nil =>
    cases folded
    exact named
  | cons item rest ih =>
    rw [List.foldlM_cons, bind_eq_ok] at folded
    obtain ⟨next, stepped, remaining⟩ := folded
    exact ih (kept catalog item next named stepped) remaining

section

variable (named : catalog.Named)

include named

theorem registerLegacy {service : Service}
    (registered : Planning.registerLegacy digest catalog service = .ok result) :
    result.Named := by
  simp only [Planning.registerLegacy, bind_eq_ok, require_eq_ok, exists_const] at registered
  obtain ⟨nonempty, -, returned⟩ := registered
  cases returned
  exact named.register nonempty _

theorem registerContract {orders : Orders} {profiles : GoMap String ReleaseProfile}
    {contract : ServiceContract}
    (registered : Planning.registerContract digest orders profiles catalog contract = .ok result) :
    result.Named := by
  simp only [Planning.registerContract, bind_eq_ok, require_eq_ok, exists_const] at registered
  obtain ⟨_, validated, -, -, environments, -, returned⟩ := registered
  cases returned
  exact named.register (ServiceContract.name_ne_empty_of_validate validated) _

theorem setPhase {phases : GoMap String ℤ} {name : String}
    (nonempty : name ≠ "") : (Catalog.setPhase phases catalog name).Named := by
  simp only [Named, Catalog.setPhase, GoMap.get?_set, if_neg nonempty.symm]
  exact named

theorem phases {order : IterationOrder String} {phases : GoMap String ℤ}
    (ordered : validateGlobalOrderingGraph order catalog.definitions = .ok phases) :
    "" ∉ phases.keys :=
  fun member => AList.lookup_eq_none.mp named (mem_keys_of_mem_phases ordered member)

theorem foldl_setPhase {phases : GoMap String ℤ} {names : List String}
    (nonempty : "" ∉ names) : (names.foldl (Catalog.setPhase phases) catalog).Named := by
  induction names generalizing catalog with
  | nil => exact named
  | cons name rest ih =>
    simp only [List.mem_cons, not_or] at nonempty
    exact ih (named.setPhase (Ne.symm nonempty.1)) nonempty.2

end

end Catalog.Named

theorem Planner.Built.definitions_empty {digest : Digest} {planner : Planner}
    (built : planner.Built digest) : planner.definitions.get? "" = none := by
  cases built with
  | @new order services _ built =>
    simp only [Planning.new, bind_eq_ok] at built
    obtain ⟨catalog, folded, _, -, returned⟩ := built
    cases returned
    have start : Catalog.Named {} := rfl
    exact start.foldlM (fun _ _ _ named registered => named.registerLegacy registered) folded
  | @fromContracts orders contracts profiles options _ built =>
    simp only [newFromContracts, bind_eq_ok, require_eq_ok, exists_const] at built
    obtain ⟨-, registered, -, catalog, folded, _, -, phases, ordered, returned⟩ := built
    cases returned
    have start : Catalog.Named {} := rfl
    have named : catalog.Named :=
      start.foldlM (fun _ _ _ named registered => named.registerContract registered) folded
    refine named.foldl_setPhase ?_
    rw [orders.names.mem_arrange]
    exact named.phases ordered

end Themisy.Planning
