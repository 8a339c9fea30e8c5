import Themisy.Planning.Documents

/-!
# Phases of a set of contracts

A planner of contracts exists exactly when the ordering dependencies of the whole set
have no cycle, given that the other checks pass. The phase of a service is the length
of its longest chain of ordering dependencies. These levels are also levels of every
selection, so no intent leads to a cycle.
-/

namespace Themisy.Planning

open Domain Contract

def ReportsCycle {Value : Type} (result : Except GoError Value) : Prop :=
  ∃ error, result = .error error ∧ reasonOf error = some .dependencyCycle

/-- The number is the length of the longest chain of ordering dependencies of a service. -/
def LongestPath (contracts : List ServiceContract) (name : String) (length : ℤ) : Prop :=
  IsGreatest { value | ∃ last steps, Chain (OrderedOn contracts) name last steps ∧
    value = (steps : ℤ) } length

variable {digest : Digest} {orders : Orders} {contracts : List ServiceContract}
  {profiles : List ReleaseProfile} {options : Options} {phase : String → ℤ} {planner : Planner}
  {changes : GoMap String Change} {intent : ReleaseIntent}

theorem Checked.accepted_iff (checked : Checked digest contracts profiles) :
    Accepted digest contracts profiles ↔ Acyclic (OrderedOn contracts) :=
  ⟨fun accepted => accepted.acyclic, fun acyclic => ⟨checked, acyclic⟩⟩

/-- A cycle is reported by the pass over the whole graph. -/
theorem validateGlobalOrderingGraph_of_cycle {definitions : GoMap String ServiceDefinition}
    (closed : ∀ name ∈ definitions.keys,
      ∀ needed ∈ (definitions.find name .zero).orderingDependencies, needed ∈ definitions.keys)
    (order : IterationOrder String) (cycle : ¬Acyclic (orderingGraph definitions closed).Needs) :
    validateGlobalOrderingGraph order definitions =
      .error (orderingCycle "dependencies" "service contracts contain an ordering cycle") := by
  obtain ⟨children, state, reversed, initial, eq⟩ := exists_globalPhases_eq_drain closed order
  rw [← Kahn.Graph.processed_drain_eq_iff reversed initial stack] at cycle
  rw [eq]
  exact if_pos cycle

theorem Checked.newFromContracts_of_cycle (checked : Checked digest contracts profiles)
    (cycle : ¬Acyclic (OrderedOn contracts)) :
    newFromContracts digest orders contracts profiles options =
      .error (orderingCycle "dependencies" "service contracts contain an ordering cycle") := by
  have registered : profiles.foldlM (registerProfile digest) {} =
      .ok (storedProfiles digest profiles) :=
    ((registerProfile_registers digest).foldlM_empty_eq_ok_iff no_profile).mpr
      ⟨checked.ready, checked.profilesDistinct, rfl⟩
  have catalog : contracts.foldlM
      (registerContract digest orders (storedProfiles digest profiles).byName) {} =
        .ok (storedCatalog digest orders contracts) :=
    ((registerContract_registers digest orders _).foldlM_empty_eq_ok_iff no_definition).mpr
      ⟨checked.admissible, checked.distinct, rfl⟩
  have closed := storedCatalog_closed digest orders checked.distinct checked.known
  rw [← (isOrdering_orderingGraph checked.distinct closed).needs_eq] at cycle
  have failed := validateGlobalOrderingGraph_of_cycle closed orders.names cycle
  simp only [newFromContracts, bind_eq_error, require_eq_ok]
  exact Or.inr ⟨(), checked.nonempty, Or.inr ⟨_, registered, Or.inr ⟨_, catalog,
    Or.inr ⟨(), (knownDependencies_eq_ok_iff digest orders checked.distinct).mpr checked.known,
      Or.inl failed⟩⟩⟩⟩

theorem Checked.reportsCycle_iff (checked : Checked digest contracts profiles) :
    ReportsCycle (newFromContracts digest orders contracts profiles options) ↔
      ¬Acyclic (OrderedOn contracts) := by
  constructor
  · rintro ⟨error, failed, -⟩ acyclic
    obtain ⟨planner, built⟩ := (exists_newFromContracts_iff digest orders contracts profiles
      options).mpr (checked.accepted_iff.mpr acyclic)
    rw [built] at failed
    cases failed
  · intro cycle
    exact ⟨_, checked.newFromContracts_of_cycle cycle, rfl⟩

theorem Composed.longestPath {phase : String → ℤ}
    (composed : Composed digest contracts profiles options phase planner)
    {contract : ServiceContract} (member : contract ∈ contracts) :
    LongestPath contracts contract.name (phase contract.name) := by
  obtain ⟨graph, ordering, acyclic, levelled⟩ := composed.ordering
  have greatest := levelled.isGreatest acyclic
    ((ordering.nodes contract.name).mpr (List.mem_map_of_mem member))
  simpa only [LongestPath, ordering.needs_eq, ordering.base, zero_add] using greatest

/-- The phases are counted from zero, once for every contract at most. -/
theorem Composed.phase_mem_Ico {phase : String → ℤ}
    (composed : Composed digest contracts profiles options phase planner)
    {contract : ServiceContract} (member : contract ∈ contracts) :
    0 ≤ phase contract.name ∧ phase contract.name < contracts.length := by
  obtain ⟨graph, ordering, acyclic, levelled⟩ := composed.ordering
  have node := (ordering.nodes contract.name).mpr (List.mem_map_of_mem member)
  obtain ⟨last, length, chain, eq⟩ := levelled.exists_chain acyclic contract.name node
  have closed : ∀ name needed, graph.Needs name needed →
      needed ∈ contracts.map ServiceContract.name := by
    rintro name needed ⟨nameMem, needs⟩
    exact (ordering.nodes needed).mp (graph.closed name nameMem needed needs)
  have bound := chain.length_lt acyclic closed (List.mem_map_of_mem member)
  rw [List.length_map] at bound
  rw [eq, ordering.base]
  omega

theorem services_of_newFromContracts
    (built : newFromContracts digest orders contracts profiles options = .ok planner)
    (name : String) : planner.services.get? name =
      (planner.definitions.get? name).map ServiceDefinition.service := by
  obtain ⟨-, phases, -, rfl⟩ := newFromContracts_eq_ok_iff.mp built
  have linked : ((orders.names.arrange 4 phases.keys).foldl (Catalog.setPhase phases)
      (storedCatalog digest orders contracts)).Linked :=
    List.foldlRecOn _ _ (Catalog.linked_storedCatalog digest orders contracts)
      fun catalog linked name _ => linked.setPhase phases name
  exact linked name

theorem exists_levelled_of_planIntent {digest : Digest} {order : IterationOrder String}
    {planner : Planner} {intent : ReleaseIntent} {now : Time} {plan : ReleasePlan}
    (planned : planner.planIntent digest order now intent = .ok plan) :
    ∃ changes level, planner.checkIntent intent = .ok changes ∧
      ((planner.changeGraph changes).Counts Planner.sortedQueue.raise →
        (planner.changeGraph changes).Levelled level) ∧
      Acyclic (planner.changeGraph changes).Needs ∧
      ∀ step ∈ plan.steps, step.service ∈ changes.keys ∧ step.phase = level step.service := by
  obtain ⟨changes, checked, acyclic, rfl⟩ := Planner.exists_changes_of_planIntent planned
  rw [← Planner.changeGraph_needs_iff checked] at acyclic
  refine ⟨changes, _, checked, fun counts => Planner.orderChanges_levelled counts acyclic order,
    acyclic, ?_⟩
  intro step member
  obtain ⟨key, phase, -⟩ := Planner.mem_plannedSteps ((Planner.flatMap_planPhases_perm
    (planner.plannedSteps digest order intent changes)).mem_iff.mp member)
  exact ⟨key, phase⟩

section Selection

variable (composed : Composed digest contracts profiles options phase planner)

include composed

theorem Composed.exists_contract (checked : planner.checkIntent intent = .ok changes)
    {name : String} (member : name ∈ changes.keys) :
    ∃ contract ∈ contracts, contract.name = name := by
  obtain ⟨change, changeMem, rfl⟩ :=
    List.mem_map.mp ((Planner.keys_perm_of_checkIntent checked).mem_iff.mp member)
  obtain ⟨-, -, -, -, plannable, -⟩ := Planner.checkIntent_eq_ok_iff.mp checked
  obtain ⟨content, found, -⟩ := (plannable change changeMem).declared
  obtain ⟨contract, contractMem, named, -⟩ := (composed.definitions _ _).mp found
  exact ⟨contract, contractMem, named⟩

theorem Composed.base_changeGraph (checked : planner.checkIntent intent = .ok changes)
    {name : String} (member : name ∈ changes.keys) :
    (planner.changeGraph changes).base name = phase name := by
  obtain ⟨contract, contractMem, rfl⟩ := composed.exists_contract checked member
  exact congrArg DefinitionContent.releasePhase (content_definition composed contractMem)

/-- The global phases are levels of every graph of changes. -/
theorem Composed.levelled_changeGraph (checked : planner.checkIntent intent = .ok changes) :
    (planner.changeGraph changes).Levelled phase := by
  obtain ⟨graph, ordering, -, levelled⟩ := composed.ordering
  have base : ∀ name ∈ changes.keys, (planner.changeGraph changes).base name = phase name :=
    fun name => composed.base_changeGraph checked
  constructor
  · exact fun name member => (base name member).le
  · intro name member needed selected
    obtain ⟨contract, contractMem, rfl⟩ := composed.exists_contract checked member
    have ordersOn := (mem_orderingDependencies_definition composed contractMem).mp
      (Planner.mem_selectedDependencies.mp selected).1
    exact levelled.needed_lt contract.name
      ((ordering.nodes _).mpr (List.mem_map_of_mem contractMem)) needed
      ((ordering.needs contract contractMem needed).mpr ordersOn)
  · exact fun name member => Or.inl (base name member).symm

/-- The contracts of a slice are too few for a phase to overflow. -/
theorem Composed.phasesInRange (short : contracts.length < 2 ^ 63)
    (checked : planner.checkIntent intent = .ok changes) :
    planner.PhasesInRange intent := by
  intro name changed last length chain
  rw [← Planner.changeGraph_needs_iff checked] at chain
  rw [← (Planner.keys_perm_of_checkIntent checked).mem_iff] at changed
  have lastMem : last ∈ changes.keys := by
    induction chain with
    | refl => exact changed
    | step edge _ ih => exact ih ((planner.changeGraph changes).closed _ edge.1 _ edge.2)
  have upper := (composed.levelled_changeGraph checked).base_add_le changed chain
  obtain ⟨contract, contractMem, named⟩ := composed.exists_contract checked changed
  obtain ⟨final, finalMem, finalNamed⟩ := composed.exists_contract checked lastMem
  have bound := (composed.phase_mem_Ico contractMem).2
  have lower := (composed.phase_mem_Ico finalMem).1
  have base : (planner.definition last).service.releasePhase = phase last :=
    composed.base_changeGraph checked lastMem
  rw [composed.base_changeGraph checked lastMem] at upper
  rw [named] at bound
  rw [finalNamed] at lower
  rw [base]
  constructor <;> omega

end Selection

namespace Planner

variable {error : GoError} {environment : Environment}

theorem reasonOf_registerChange {change : Change}
    (failed : planner.registerChange environment changes change = .error error) :
    reasonOf error = none := by
  unfold registerChange at failed
  split at failed
  · cases failed
    rfl
  · simp only [bind_eq_error, require_eq_error, require_eq_ok] at failed
    rcases failed with ⟨-, rfl⟩ | ⟨_, -, ⟨-, rfl⟩ | ⟨_, -, ⟨-, rfl⟩ | ⟨_, -, returned⟩⟩⟩
    · rfl
    · rfl
    · rfl
    · cases returned

theorem reasonOf_registerChanges {list : List Change}
    (failed : list.foldlM (planner.registerChange environment) changes = .error error) :
    reasonOf error = none := by
  induction list generalizing changes with
  | nil => cases failed
  | cons change rest ih =>
    rw [List.foldlM_cons, bind_eq_error] at failed
    rcases failed with here | ⟨next, -, later⟩
    · exact reasonOf_registerChange here
    · exact ih later

theorem reasonOf_checkIntent {intent : ReleaseIntent}
    (failed : planner.checkIntent intent = .error error) :
    reasonOf error ≠ some .dependencyCycle := by
  simp only [checkIntent, bind_eq_error, require_eq_error, require_eq_ok] at failed
  rcases failed with ⟨-, rfl⟩ | ⟨_, -, ⟨-, rfl⟩ | ⟨_, -, ⟨-, rfl⟩ | ⟨_, -, ⟨-, rfl⟩ |
    ⟨_, -, later⟩⟩⟩⟩
  · simp [reasonOf, newReasonError]
  · simp [reasonOf]
  · simp [reasonOf]
  · simp [reasonOf]
  · simp [reasonOf_registerChanges later]

end Planner

namespace Composed

/-- Every intent which passes its checks is planned. -/
theorem not_reportsCycle (composed : Composed digest contracts profiles options phase planner)
    (order : IterationOrder String) (now : Time) (intent : ReleaseIntent) :
    ¬ReportsCycle (planner.planIntent digest order now intent) := by
  rintro ⟨error, failed, cycle⟩
  cases checked : planner.checkIntent intent with
  | error failure =>
    have same : planner.planIntent digest order now intent = .error failure := by
      simp [Planner.planIntent, checked, bind, Except.bind]
    rw [same] at failed
    cases failed
    exact Planner.reasonOf_checkIntent checked cycle
  | ok changes =>
    have acyclic := (composed.levelled_changeGraph checked).acyclic
    rw [Planner.changeGraph_needs_iff checked] at acyclic
    rw [Planner.planIntent_eq_ok checked acyclic] at failed
    cases failed

theorem exists_contract_of_planIntent
    (composed : Composed digest contracts profiles options phase planner)
    (short : contracts.length < 2 ^ 63) {order : IterationOrder String} {now : Time}
    {plan : ReleasePlan}
    (planned : planner.planIntent digest order now intent = .ok plan) {step : PlanStep}
    (member : step ∈ plan.steps) :
    ∃ contract ∈ contracts, contract.name = step.service ∧ step.phase = phase step.service := by
  obtain ⟨changes, level, checked, levelled, acyclic, steps⟩ :=
    exists_levelled_of_planIntent planned
  obtain ⟨selected, eq⟩ := steps step member
  obtain ⟨contract, contractMem, named⟩ := composed.exists_contract checked selected
  refine ⟨contract, contractMem, named, ?_⟩
  rw [eq]
  exact (levelled ((composed.phasesInRange short checked).counts checked)).eq
    (composed.levelled_changeGraph checked) acyclic step.service selected

end Composed

/--
Given that the other checks pass, the constructor reports a cycle exactly when the ordering
dependencies of the whole set have one. Otherwise the release phase of every service is the
length of its longest path of ordering dependencies, and every plan of every intent
releases the selected services in these phases: a slice of contracts is too short for a
phase to overflow.
-/
theorem contract_phases_independent_of_selection (digest : Digest) (orders : Orders)
    (contracts : List ServiceContract) (profiles : List ReleaseProfile) (options : Options)
    (checked : Checked digest contracts profiles) :
    (ReportsCycle (newFromContracts digest orders contracts profiles options) ↔
      ¬Acyclic (OrderedOn contracts)) ∧
    (Acyclic (OrderedOn contracts) →
      ∃ planner, newFromContracts digest orders contracts profiles options = .ok planner ∧
        (∀ contract ∈ contracts, ∃ service, planner.services.get? contract.name = some service ∧
          LongestPath contracts contract.name service.releasePhase) ∧
        ∀ order now intent, ¬ReportsCycle (planner.planIntent digest order now intent) ∧
          ∀ plan, planner.planIntent digest order now intent = .ok plan →
            (plan.steps.map PlanStep.service).Perm (intent.changes.map Change.service) ∧
            (contracts.length < 2 ^ 63 →
              ∀ step ∈ plan.steps, LongestPath contracts step.service step.phase)) := by
  refine ⟨checked.reportsCycle_iff, fun acyclic => ?_⟩
  obtain ⟨planner, built⟩ := (exists_newFromContracts_iff digest orders contracts profiles
    options).mpr (checked.accepted_iff.mpr acyclic)
  obtain ⟨phase, composed⟩ := composed_of_newFromContracts built
  refine ⟨planner, built, ?_, ?_⟩
  · intro contract member
    have listed := composed.definitions.eq_some member
    obtain ⟨definition, found, content⟩ := Option.map_eq_some_iff.mp listed
    refine ⟨definition.service, ?_, ?_⟩
    · rw [services_of_newFromContracts built, found]
      rfl
    · have released : definition.service.releasePhase = phase contract.name :=
        congrArg DefinitionContent.releasePhase content
      rw [released]
      exact composed.longestPath member
  · intro order now intent
    refine ⟨composed.not_reportsCycle order now intent, fun plan planned => ?_⟩
    refine ⟨(Planner.faithful_of_planIntent planned).ordered.oneStepEach,
      fun short step member => ?_⟩
    obtain ⟨contract, contractMem, named, eq⟩ :=
      composed.exists_contract_of_planIntent short planned member
    rw [eq, ← named]
    exact composed.longestPath contractMem

/-- A service which is released alone keeps the phase after the one it depends on. -/
theorem contract_phases_alone :
    let contracts := [stagingContract "api" [{ service := "db", type := .rolloutOrder }],
      stagingContract "db" []]
    ∃ planner plan, PlansFrom default contracts (stagingRelease ["api"]) planner plan ∧
      plan.steps.map PlanStep.phase = [1] ∧
      ∀ step ∈ plan.steps, LongestPath contracts step.service step.phase := by
  intro contracts
  obtain ⟨planner, plan, plans, phases⟩ := exists_of_rehearseFrom (show rehearseFrom default
    contracts (stagingRelease ["api"]) (fun plan => .ok (plan.steps.map PlanStep.phase)) =
      .ok [1] by decide +kernel)
  have accepted := (newFromContracts_eq_ok_iff.mp plans.built).1
  obtain ⟨again, builtAgain, -, planned⟩ := (contract_phases_independent_of_selection default
    ⟨.stored, .stored⟩ contracts [standardProfile] {} accepted.toChecked).2 accepted.acyclic
  cases Except.ok.inj (plans.built.symm.trans builtAgain)
  exact ⟨planner, plan, plans, Except.ok.inj phases,
    ((planned .stored 1 _).2 plan plans.planned).2 (by decide)⟩

end Themisy.Planning
