import Themisy.Collections.Registration
import Themisy.Graph.Levels
import Themisy.Planning.PlanIntent

/-!
# The planner orders releases soundly and completely

Once an intent passes the field checks, `planIntent` fails with a dependency cycle
exactly when the ordering dependencies between the changed services have one.
Otherwise every changed service has one step, and the phase of a step is the maximum
of its service's release phase and the phases following those of its dependencies, as
long as these numbers are machine integers.

The loop of `planIntent` is the algorithm of `Kahn.Graph`.
-/

namespace Themisy.Planning

open Domain Contract

variable {order : IterationOrder String} {plan : ReleasePlan} {digest : Digest} {now : Time}

namespace Planner

variable {planner : Planner} {intent : ReleaseIntent} {changes : GoMap String Change}

variable {steps : List PlanStep}
  {phase : PlanPhase} {name : String}

/-- A change which the planner can plan for an environment. -/
structure Plannable (planner : Planner) (environment : Environment) (change : Change) : Prop where
  declared : ∃ content, (planner.definitions.get? change.service).map ServiceDefinition.content =
    some content ∧ (content.environments environment).isSome
  versioned : change.desiredVersion ≠ ""

theorem registerChange_registers (planner : Planner) (environment : Environment) :
    Registers (planner.registerChange environment) Change.service
      (planner.Plannable environment) (fun changes name => (changes.get? name).isSome)
      (fun changes change => changes.set change.service change) := by
  constructor
  · intro changes change next
    simp only [Bool.not_eq_true, Option.isSome_eq_false_iff, Option.isNone_iff_eq_none]
    unfold registerChange
    split
    · next missing =>
      simp only [reduceCtorEq, false_iff, not_and]
      intro plannable
      obtain ⟨_, found, -⟩ := plannable.declared
      rw [missing] at found
      cases found
    · next definition found =>
      simp only [bind_eq_ok, require_eq_ok, exists_const]
      constructor
      · rintro ⟨declared, versioned, free, returned⟩
        refine ⟨⟨⟨definition.content, ?_, declared⟩, versioned⟩, free,
          (Except.ok.inj returned).symm⟩
        rw [found]
        rfl
      · rintro ⟨⟨⟨content, same, declared⟩, versioned⟩, free, rfl⟩
        rw [found] at same
        cases same
        exact ⟨declared, versioned, free, rfl⟩
  · intro changes change other
    simp only [GoMap.get?_set]
    split
    · next same => simp [same]
    · next different => simp [different]

theorem checkIntent_eq_ok_iff :
    planner.checkIntent intent = .ok changes ↔
      intent.apiVersion = releaseIntentAPIVersion ∧ intent.kind = releaseIntentKind ∧
        intent.changes ≠ [] ∧ (intent.environment = .staging ∨ intent.environment = .production) ∧
        (∀ change ∈ intent.changes, planner.Plannable intent.environment change) ∧
        (intent.changes.map Change.service).Nodup ∧
        changes = intent.changes.foldl (fun changes change =>
          changes.set change.service change) ∅ := by
  have free : ∀ name, ¬(((∅ : GoMap String Change).get? name).isSome : Prop) := by simp
  simp only [checkIntent, bind_eq_ok, require_eq_ok, exists_const,
    (registerChange_registers planner intent.environment).foldlM_empty_eq_ok_iff free]

theorem keys_perm_of_checkIntent (checked : planner.checkIntent intent = .ok changes) :
    changes.keys.Perm (intent.changes.map Change.service) := by
  obtain ⟨-, -, -, -, -, distinct, rfl⟩ := checkIntent_eq_ok_iff.mp checked
  refine (List.perm_ext_iff_of_nodup (AList.keys_nodup _) distinct).mpr fun name => ?_
  rw [← GoMap.isSome_get?_iff]
  exact (tabulates_foldl_set distinct fun change => change).isSome_iff

def changeGraph (planner : Planner) (changes : GoMap String Change) : Kahn.Graph String where
  nodes := changes.keys
  needs := planner.selectedDependencies changes
  base name := (planner.definition name).service.releasePhase
  distinct := changes.keys_nodup
  closed := by
    intro name _ dependency selected
    exact GoMap.isSome_get?_iff.mp (List.mem_filter.mp selected).2

theorem find_foldl_set (level : String → ℤ) (names : List String) (table : GoMap String ℤ)
    (name : String) :
    (names.foldl (fun table name => GoMap.set table name (level name)) table).find name 0 =
      if name ∈ names then level name else table.find name 0 := by
  induction names generalizing table with
  | nil => simp
  | cons first rest ih =>
    rw [List.foldl_cons, ih, GoMap.find_set]
    by_cases same : name = first
    · subst same
      simp
    · simp [same]

section OrderChanges

variable (planner : Planner) (order : IterationOrder String) (changes : GoMap String Change)

/-- The loop of `planIntent` is Kahn's algorithm on the graph of the changed services. -/
theorem exists_orderChanges_eq_drain :
    ∃ children state, (changeGraph planner changes).Reversed children ∧
      (changeGraph planner changes).Initial state ∧
      (∃ names, state.ready = sortStrings names) ∧
      planner.orderChanges order changes = Kahn.State.drain sortedQueue children state := by
  refine ⟨_, _, Kahn.Edges.read_reversed (changeGraph planner changes)
    (order.perm 0 changes.keys), ?_, ⟨_, rfl⟩, rfl⟩
  apply Kahn.Edges.read_initial (changeGraph planner changes) (order.perm 0 changes.keys)
  · intro name member
    rw [find_foldl_set, if_pos ((order.mem_arrange 0 changes.keys name).mpr member)]
    rfl
  · exact (sortStrings_perm _).trans ((order.perm 1 changes.keys).filter _)

theorem orderChanges_processed_iff :
    (planner.orderChanges order changes).processed = changes.keys.length ↔
      Acyclic (changeGraph planner changes).Needs := by
  obtain ⟨children, state, reversed, initial, -, eq⟩ :=
    exists_orderChanges_eq_drain planner order changes
  rw [eq]
  exact Kahn.Graph.processed_drain_eq_iff reversed initial sortedQueue

end OrderChanges

section PlanStep

variable (digest : Digest) (phase : ℤ) (name : String) (change : Change)

@[simp]
theorem planStep_service : (planner.planStep digest intent phase name change).service = name := by
  simp only [planStep]
  split <;> rfl

@[simp]
theorem planStep_phase : (planner.planStep digest intent phase name change).phase = phase := by
  simp only [planStep]
  split <;> rfl

theorem planStep_dependencies : (planner.planStep digest intent phase name change).dependencies =
    sortedDependencies (planner.definition name).dependencies := by
  simp only [planStep]
  split <;> rfl

theorem planStep_tenant : (planner.planStep digest intent phase name change).scheduling.tenantID =
    normalizedValue intent.tenantID "default" := by
  simp only [planStep]
  split <;> rfl

theorem planStep_environment :
    (planner.planStep digest intent phase name change).scheduling.environment =
      intent.environment := by
  simp only [planStep]
  split <;> rfl

end PlanStep

theorem mem_planPhases :
    phase ∈ planPhases steps ↔ (∃ step ∈ steps, step.phase = phase.number) ∧
      phase.steps = (steps.filter fun step => step.phase = phase.number).insertionSort
        fun left right => left.service ≤ right.service := by
  have groups := Grouping.ofList_groups PlanStep.phase steps
  simp only [planPhases, List.mem_map, (List.perm_insertionSort _ _).mem_iff, groups.mem_keys,
    groups.find_eq]
  constructor
  · rintro ⟨number, inhabited, rfl⟩
    exact ⟨inhabited, rfl⟩
  · rintro ⟨inhabited, eq⟩
    refine ⟨phase.number, inhabited, ?_⟩
    rw [← eq]

theorem planPhases_increasing (steps : List PlanStep) :
    ((planPhases steps).map PlanPhase.number).Pairwise (· < ·) := by
  have groups := Grouping.ofList_groups PlanStep.phase steps
  have numbers : (planPhases steps).map PlanPhase.number =
      (Grouping.ofList PlanStep.phase steps).keys.insertionSort (· ≤ ·) := by
    simp only [planPhases, List.map_map, Function.comp_def, List.map_id']
  rw [numbers]
  have distinct := (List.perm_insertionSort (· ≤ ·) _).nodup_iff.mpr groups.distinct
  refine ((List.pairwise_insertionSort (· ≤ ·) _).and distinct).imp ?_
  rintro left right ⟨le, ne⟩
  exact lt_of_le_of_ne le ne

theorem flatMap_planPhases_perm (steps : List PlanStep) :
    ((planPhases steps).flatMap PlanPhase.steps).Perm steps := by
  have groups := Grouping.ofList_groups PlanStep.phase steps
  simp only [planPhases, List.flatMap_map, groups.find_eq]
  have keysPerm := List.perm_insertionSort (· ≤ ·) (Grouping.ofList PlanStep.phase steps).keys
  refine (List.Perm.flatMap keysPerm fun number _ => List.perm_insertionSort _ _).trans ?_
  apply Grouping.flatMap_filter_perm groups.distinct
  intro step member
  exact (groups.mem_keys step.phase).mpr ⟨step, member, rfl⟩

/-- Both services are changed, and one is ordered after the other. -/
def OrderedAfter (planner : Planner) (intent : ReleaseIntent) (name dependency : String) : Prop :=
  name ∈ intent.changes.map Change.service ∧ dependency ∈ intent.changes.map Change.service ∧
    dependency ∈ (planner.definition name).orderingDependencies

theorem changeGraph_needs_iff (checked : planner.checkIntent intent = .ok changes) :
    (changeGraph planner changes).Needs = planner.OrderedAfter intent := by
  funext name dependency
  have keys := keys_perm_of_checkIntent checked
  simp only [Kahn.Graph.Needs, changeGraph, selectedDependencies, List.mem_filter,
    GoMap.isSome_get?_iff, keys.mem_iff, OrderedAfter, eq_iff_iff]
  tauto

/--
The phases which the dependencies between the changed services demand are machine
integers: the loop of `planIntent` does not overflow.
-/
def PhasesInRange (planner : Planner) (intent : ReleaseIntent) : Prop :=
  ∀ name ∈ intent.changes.map Change.service, ∀ last length,
    Chain (planner.OrderedAfter intent) name last length →
      InRange ((planner.definition last).service.releasePhase + length)

theorem PhasesInRange.counts (inRange : planner.PhasesInRange intent)
    (checked : planner.checkIntent intent = .ok changes) :
    (changeGraph planner changes).Counts sortedQueue.raise := by
  intro node needed last length edge chain
  rw [changeGraph_needs_iff checked] at edge chain
  have fits := inRange node edge.1 last (length + 1) (.step edge chain)
  push_cast at fits
  rw [← add_assoc] at fits
  exact bmod_eq_of_inRange fits

/--
A plan which releases every changed service once and in the order of its dependencies.
The phases follow the dependencies unless they overflow.
-/
structure Ordered (planner : Planner) (intent : ReleaseIntent) (plan : ReleasePlan) : Prop where
  oneStepEach : (plan.steps.map PlanStep.service).Perm (intent.changes.map Change.service)
  distinct : (plan.steps.map PlanStep.service).Nodup
  increasing : (plan.phases.map PlanPhase.number).Pairwise (· < ·)
  sorted : ∀ phase ∈ plan.phases, (phase.steps.map PlanStep.service).Pairwise (· < ·)
  number_eq : ∀ phase ∈ plan.phases, ∀ step ∈ phase.steps, step.phase = phase.number
  phase_eq : planner.PhasesInRange intent → ∀ step ∈ plan.steps, step.phase =
    ((plan.steps.filter fun other =>
      other.service ∈ (planner.definition step.service).orderingDependencies).map
        fun other => 1 + other.phase).foldl max
          (planner.definition step.service).service.releasePhase
  earlier : planner.PhasesInRange intent → ∀ step ∈ plan.steps, ∀ other ∈ plan.steps,
    planner.OrderedAfter intent step.service other.service → other.phase < step.phase

theorem Ordered.sorted_phases {intent : ReleaseIntent} (ordered : planner.Ordered intent plan) :
    plan.steps.Pairwise fun earlier later => earlier.phase ≤ later.phase := by
  rw [ReleasePlan.steps, List.pairwise_flatMap]
  refine ⟨?_, ?_⟩
  · intro phase member
    refine List.pairwise_of_forall_mem_list fun earlier earlierMem later laterMem => ?_
    rw [ordered.number_eq phase member earlier earlierMem,
      ordered.number_eq phase member later laterMem]
  · refine (List.pairwise_map.mp ordered.increasing).imp_of_mem ?_
    intro first second firstMem secondMem smaller earlier earlierMem later laterMem
    rw [ordered.number_eq first firstMem earlier earlierMem,
      ordered.number_eq second secondMem later laterMem]
    exact smaller.le

theorem foldl_max_eq {values : List ℤ} {base value : ℤ} (lower : base ≤ value)
    (upper : ∀ other ∈ values, other ≤ value) (attained : value = base ∨ value ∈ values) :
    values.foldl max base = value := by
  induction values generalizing base with
  | nil => simpa [eq_comm] using attained
  | cons first rest ih =>
    have firstLe := upper first List.mem_cons_self
    apply ih (max_le lower firstLe) fun other member =>
      upper other (List.mem_cons_of_mem _ member)
    rw [List.mem_cons] at attained
    rcases attained with rfl | rfl | later
    · exact Or.inl (max_eq_left firstLe).symm
    · exact Or.inl (max_eq_right lower).symm
    · exact Or.inr later

/-- The steps of the changed services, with the phases the loop has computed. -/
def plannedSteps (planner : Planner) (digest : Digest) (order : IterationOrder String)
    (intent : ReleaseIntent) (changes : GoMap String Change) : List PlanStep :=
  (order.arrange 2 changes.keys).map fun name =>
    planner.planStep digest intent ((planner.orderChanges order changes).phase.find name 0) name
      (changes.find name default)

/-- The plan of the changed services. -/
def orderedPlan (planner : Planner) (digest : Digest) (order : IterationOrder String) (now : Time)
    (intent : ReleaseIntent) (changes : GoMap String Change) : ReleasePlan :=
  planner.assemblePlan digest now intent (planner.plannedSteps digest order intent changes)

theorem steps_orderedPlan_perm (planner : Planner) (digest : Digest)
    (order : IterationOrder String) (now : Time) (intent : ReleaseIntent)
    (changes : GoMap String Change) :
    (planner.orderedPlan digest order now intent changes).steps.Perm
      (planner.plannedSteps digest order intent changes) :=
  flatMap_planPhases_perm _

theorem planIntent_of_checked (checked : planner.checkIntent intent = .ok changes)
    (digest : Digest) (order : IterationOrder String) (now : Time) :
    planner.planIntent digest order now intent =
      if (planner.orderChanges order changes).processed = changes.keys.length then
        .ok (planner.orderedPlan digest order now intent changes)
      else .error (orderingCycle "changes" "selected dependencies contain a cycle") := by
  by_cases all : (planner.orderChanges order changes).processed = changes.keys.length
  · simp only [planIntent, checked, bind, Except.bind, require, orderedPlan, plannedSteps, all,
      if_true]
    rfl
  · simp only [planIntent, checked, bind, Except.bind, require, all, if_false]

theorem map_service_plannedSteps (planner : Planner) (digest : Digest)
    (order : IterationOrder String) (intent : ReleaseIntent) (changes : GoMap String Change) :
    (planner.plannedSteps digest order intent changes).map PlanStep.service =
      order.arrange 2 changes.keys := by
  simp [plannedSteps, List.map_map, Function.comp_def]

theorem mem_plannedSteps {step : PlanStep}
    (member : step ∈ planner.plannedSteps digest order intent changes) :
    step.service ∈ changes.keys ∧
      step.phase = (planner.orderChanges order changes).phase.find step.service 0 ∧
      step.dependencies = sortedDependencies (planner.definition step.service).dependencies := by
  obtain ⟨name, nameMem, rfl⟩ := List.mem_map.mp member
  rw [planStep_service, planStep_phase, planStep_dependencies]
  exact ⟨(order.mem_arrange 2 changes.keys name).mp nameMem, rfl, rfl⟩

theorem mem_selectedDependencies {dependency : String} :
    dependency ∈ planner.selectedDependencies changes name ↔
      dependency ∈ (planner.definition name).orderingDependencies ∧ dependency ∈ changes.keys := by
  rw [selectedDependencies, List.mem_filter, GoMap.isSome_get?_iff]

theorem orderChanges_levelled (counts : (changeGraph planner changes).Counts sortedQueue.raise)
    (acyclic : Acyclic (changeGraph planner changes).Needs) (order : IterationOrder String) :
    (changeGraph planner changes).Levelled fun name =>
      (planner.orderChanges order changes).phase.find name 0 := by
  obtain ⟨children, state, reversed, initial, -, eq⟩ :=
    exists_orderChanges_eq_drain planner order changes
  rw [eq]
  exact Kahn.Graph.levelled_drain reversed initial sortedQueue counts acyclic

theorem sorted_of_mem_planPhases (distinct : (steps.map PlanStep.service).Nodup)
    (member : phase ∈ planPhases steps) : (phase.steps.map PlanStep.service).Pairwise (· < ·) := by
  have total : Std.Total fun left right : PlanStep => left.service ≤ right.service :=
    ⟨fun left right => le_total left.service right.service⟩
  have transitive : IsTrans PlanStep fun left right => left.service ≤ right.service :=
    ⟨fun _ _ _ => le_trans⟩
  rw [(mem_planPhases.mp member).2]
  have sorted := List.pairwise_insertionSort
    (fun left right : PlanStep => left.service ≤ right.service)
    (steps.filter fun step => step.phase = phase.number)
  have unique := (((List.perm_insertionSort
    (fun left right : PlanStep => left.service ≤ right.service)
    (steps.filter fun step => step.phase = phase.number)).map PlanStep.service).nodup_iff).mpr
      (distinct.sublist (List.filter_sublist.map PlanStep.service))
  rw [List.Nodup, List.pairwise_map] at unique
  rw [List.pairwise_map]
  refine (sorted.and unique).imp ?_
  rintro left right ⟨le, ne⟩
  exact lt_of_le_of_ne le ne

theorem orderedPlan_ordered (checked : planner.checkIntent intent = .ok changes)
    (acyclic : Acyclic (planner.OrderedAfter intent)) (digest : Digest)
    (order : IterationOrder String) (now : Time) :
    planner.Ordered intent (planner.orderedPlan digest order now intent changes) := by
  have keys := keys_perm_of_checkIntent checked
  have services := map_service_plannedSteps planner digest order intent changes
  have stepsPerm := planner.steps_orderedPlan_perm digest order now intent changes
  have servicesPerm := stepsPerm.map PlanStep.service
  rw [services] at servicesPerm
  replace servicesPerm := servicesPerm.trans (order.perm 2 changes.keys)
  generalize assembled : planner.orderedPlan digest order now intent changes = plan
    at stepsPerm servicesPerm ⊢
  have phases : plan.phases = planPhases (planner.plannedSteps digest order intent changes) := by
    rw [← assembled]
    rfl
  have planned := fun (step : PlanStep) (member : step ∈ plan.steps) =>
    mem_plannedSteps (stepsPerm.mem_iff.mp member)
  rw [← changeGraph_needs_iff checked] at acyclic
  have levelled := fun inRange : planner.PhasesInRange intent =>
    orderChanges_levelled (inRange.counts checked) acyclic order
  have strict : planner.PhasesInRange intent → ∀ step ∈ plan.steps, ∀ other ∈ plan.steps,
      other.service ∈ (planner.definition step.service).orderingDependencies →
        other.phase + 1 ≤ step.phase := by
    intro inRange step member other otherMem declared
    obtain ⟨stepKey, stepPhase, -⟩ := planned step member
    obtain ⟨otherKey, otherPhase, -⟩ := planned other otherMem
    rw [stepPhase, otherPhase]
    exact (levelled inRange).needed_lt _ stepKey other.service
      (mem_selectedDependencies.mpr ⟨declared, otherKey⟩)
  constructor
  case oneStepEach => exact servicesPerm.trans keys
  case distinct => exact servicesPerm.nodup_iff.mpr changes.keys_nodup
  case increasing =>
    rw [phases]
    exact planPhases_increasing _
  case sorted =>
    intro phase member
    rw [phases] at member
    refine sorted_of_mem_planPhases ?_ member
    rw [services]
    exact (order.perm 2 changes.keys).nodup_iff.mpr changes.keys_nodup
  case number_eq =>
    intro phase member step stepMem
    rw [phases] at member
    rw [(mem_planPhases.mp member).2, (List.perm_insertionSort _ _).mem_iff] at stepMem
    exact of_decide_eq_true (List.mem_filter.mp stepMem).2
  case phase_eq =>
    intro inRange step member
    obtain ⟨stepKey, stepPhase, -⟩ := planned step member
    have attained := (levelled inRange).attained _ stepKey
    symm
    apply foldl_max_eq (stepPhase ▸ (levelled inRange).base_le _ stepKey)
    · intro value valueMem
      obtain ⟨other, otherMem, rfl⟩ := List.mem_map.mp valueMem
      obtain ⟨otherStep, declared⟩ := List.mem_filter.mp otherMem
      have := strict inRange step member other otherStep (of_decide_eq_true declared)
      omega
    · rw [stepPhase]
      refine attained.imp id ?_
      rintro ⟨dependency, selected, eq⟩
      obtain ⟨declared, dependencyKey⟩ := mem_selectedDependencies.mp selected
      obtain ⟨other, otherMem, rfl⟩ := List.mem_map.mp (servicesPerm.mem_iff.mpr dependencyKey)
      refine List.mem_map.mpr
        ⟨other, List.mem_filter.mpr ⟨otherMem, decide_eq_true declared⟩, ?_⟩
      rw [eq, (planned other otherMem).2.1]
      omega
  case earlier =>
    intro inRange step member other otherMem ordered
    have := strict inRange step member other otherMem ordered.2.2
    omega

/-- A returned plan was assembled from checked changes without a cycle. -/
theorem exists_changes_of_planIntent
    (planned : planner.planIntent digest order now intent = .ok plan) :
    ∃ changes, planner.checkIntent intent = .ok changes ∧
      Acyclic (planner.OrderedAfter intent) ∧
      plan = planner.orderedPlan digest order now intent changes := by
  cases checked : planner.checkIntent intent with
  | error error => simp [planIntent, checked, bind, Except.bind] at planned
  | ok changes =>
    rw [planIntent_of_checked checked] at planned
    split at planned
    · next all =>
      rw [orderChanges_processed_iff, changeGraph_needs_iff checked] at all
      exact ⟨changes, rfl, all, (Except.ok.inj planned).symm⟩
    · cases planned

/-- What a returned plan says about the services and dependencies of its steps. -/
structure Faithful (planner : Planner) (intent : ReleaseIntent) (plan : ReleasePlan) : Prop where
  ordered : planner.Ordered intent plan
  defined : ∀ step ∈ plan.steps, (planner.definitions.get? step.service).isSome
  dependencies : ∀ step ∈ plan.steps, ∀ name, name ∈ step.orderingDependencies ↔
    name ∈ (planner.definition step.service).orderingDependencies
  tenant : ∀ step ∈ plan.steps,
    step.scheduling.tenantID = normalizedValue intent.tenantID "default"

theorem faithful_of_planIntent (planned : planner.planIntent digest order now intent = .ok plan) :
    planner.Faithful intent plan := by
  obtain ⟨changes, checked, acyclic, rfl⟩ := exists_changes_of_planIntent planned
  have stepsPerm := planner.steps_orderedPlan_perm digest order now intent changes
  refine ⟨orderedPlan_ordered checked acyclic digest order now, ?_, ?_, ?_⟩
  · intro step member
    obtain ⟨key, -, -⟩ := mem_plannedSteps (stepsPerm.mem_iff.mp member)
    have changed := (keys_perm_of_checkIntent checked).mem_iff.mp key
    obtain ⟨change, changeMem, same⟩ := List.mem_map.mp changed
    rw [← same]
    obtain ⟨-, -, -, -, plannable, -⟩ := checkIntent_eq_ok_iff.mp checked
    obtain ⟨content, found, -⟩ := (plannable change changeMem).declared
    obtain ⟨definition, stored, -⟩ := Option.map_eq_some_iff.mp found
    rw [stored]
    rfl
  · intro step member name
    obtain ⟨-, -, dependencies⟩ := mem_plannedSteps (stepsPerm.mem_iff.mp member)
    have sorted := ((List.perm_insertionSort (fun left right : Dependency =>
      left.sortKey ≤ right.sortKey) (planner.definition step.service).dependencies).filter
        Dependency.ordersOn).map Dependency.service
    rw [PlanStep.orderingDependencies, dependencies]
    exact sorted.mem_iff
  · intro step member
    obtain ⟨name, -, rfl⟩ := List.mem_map.mp (stepsPerm.mem_iff.mp member)
    exact planStep_tenant digest _ name _

theorem environment_of_planIntent
    (planned : planner.planIntent digest order now intent = .ok plan) :
    ∀ step ∈ plan.steps, step.scheduling.environment = intent.environment := by
  obtain ⟨changes, -, -, rfl⟩ := exists_changes_of_planIntent planned
  intro step member
  obtain ⟨name, -, rfl⟩ :=
    List.mem_map.mp ((planner.steps_orderedPlan_perm ..).mem_iff.mp member)
  exact planStep_environment digest _ name _

/--
For every intent which passes the field checks, `planIntent` reports a dependency
cycle exactly when the ordering dependencies between the changed services have
one, and otherwise returns an ordered plan. This holds for every planner, however
it was built, and for every order in which the maps are visited.
-/
theorem planIntent_ordered (planner : Planner) (digest : Digest) (order : IterationOrder String)
    (now : Time) (intent : ReleaseIntent) (changes : GoMap String Change)
    (checked : planner.checkIntent intent = .ok changes) :
    ((∃ error, planner.planIntent digest order now intent = .error error ∧
        reasonOf error = some .dependencyCycle) ↔ ¬Acyclic (planner.OrderedAfter intent)) ∧
      (Acyclic (planner.OrderedAfter intent) →
        ∃ plan, planner.planIntent digest order now intent = .ok plan ∧
          planner.Ordered intent plan) := by
  have processed := orderChanges_processed_iff planner order changes
  rw [changeGraph_needs_iff checked] at processed
  rw [planIntent_of_checked checked, ← processed]
  by_cases all : (planner.orderChanges order changes).processed = changes.keys.length
  · simp only [all, if_true]
    refine ⟨by simp, fun _ => ⟨_, rfl, ?_⟩⟩
    exact orderedPlan_ordered checked (processed.mp all) digest order now
  · simp only [all, if_false]
    refine ⟨⟨fun _ => id, fun _ => ⟨_, rfl, rfl⟩⟩, fun impossible => impossible.elim⟩

/-- A service which names the same dependency twice is planned one phase later. -/
theorem planIntent_ordered_repeated_dependency :
    let services := [legacyService "api" 0 [], legacyService "web" 0 ["api", "api"]]
    let intent := stagingRelease ["web", "api"]
    ∃ planner plan, new default .stored services = .ok planner ∧
      planner.planIntent default .stored 1 intent = .ok plan ∧ planner.Ordered intent plan ∧
      plan.steps.map (fun step => (step.service, step.phase)) = [("api", 0), ("web", 1)] := by
  intro services intent
  have planned : ∃ planner changes, new default .stored services = .ok planner ∧
      planner.checkIntent intent = .ok changes ∧ Acyclic (planner.OrderedAfter intent) ∧
      (planner.planIntent default .stored 1 intent).map
        (fun plan => plan.steps.map fun step => (step.service, step.phase)) =
          .ok [("api", 0), ("web", 1)] := by
    refine ⟨_, _, rfl, rfl, ?_, by decide +kernel⟩
    apply acyclic_of_rank fun name => if name = "web" then 1 else 0
    rintro name dependency ⟨changed, -, declared⟩
    have cases : name = "web" ∨ name = "api" := by simpa [intent, stagingRelease] using changed
    rcases cases with rfl | rfl
    · change dependency ∈ ["api", "api"] at declared
      have only : dependency = "api" := by simpa using declared
      subst only
      decide
    · change dependency ∈ [] at declared
      cases declared
  obtain ⟨planner, changes, built, checked, acyclic, steps⟩ := planned
  obtain ⟨plan, returned, ordered⟩ :=
    (planIntent_ordered planner default .stored 1 intent changes checked).2 acyclic
  rw [returned] at steps
  exact ⟨planner, plan, built, returned, ordered, Except.ok.inj steps⟩

end Planner

end Themisy.Planning
