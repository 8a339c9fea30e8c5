import Themisy.Collections.Int64
import Themisy.Scheduler.Dispatch
import Themisy.Scheduler.TenantBudgets

/-!
# What a dispatch grants

`dispatch` counts the capacity down, once for every reservation, until the counter is
zero. In the arithmetic of 64 bits this grants as many reservations as the remainder
of the counter modulo `2 ^ 64`, its `allowance`.

The counter starts at the least of three numbers, one of which is a difference. When
the difference leaves the range of 64 bits it is negative, and its allowance exceeds
the two others.
-/

namespace Themisy.Scheduler

/-- The fields of the capacity are machine integers. -/
structure Capacity.Bounded (capacity : Capacity) : Prop where
  runnerAvailable : InRange capacity.runnerAvailable
  adapterRemaining : InRange capacity.adapterRemaining
  queueDepth : InRange capacity.queueDepth
  queueLimit : InRange capacity.queueLimit

/-- The room in the queue is computed, and leaves the range of machine integers. -/
def Capacity.Overflows (capacity : Capacity) : Prop :=
  0 < capacity.runnerAvailable ∧ 0 < capacity.adapterRemaining ∧ 0 < capacity.queueLimit ∧
    2 ^ 63 ≤ capacity.queueLimit - capacity.queueDepth

/-- How often a counter is counted down before it is zero. -/
def allowance (available : ℤ) : ℕ :=
  (available % 2 ^ 64).toNat

theorem allowance_countdown {available : ℤ} (inRange : InRange available)
    (remaining : available ≠ 0) :
    allowance (Int.bmod (available - 1) (2 ^ 64)) + 1 = allowance available := by
  simp only [allowance, InRange, Int.bmod_def] at *
  omega

namespace Capacity

variable {capacity : Capacity}

theorem inRange_available (bounded : capacity.Bounded) : InRange capacity.available.1 := by
  have wrapped := inRange_bmod (capacity.queueLimit - capacity.queueDepth)
  have runner := bounded.runnerAvailable
  have adapter := bounded.adapterRemaining
  unfold available
  simp only [InRange] at *
  split
  · simp
  split
  · simp
  split
  · simp
  simp only
  omega

/-- Without an overflow the allowance is the least of the three numbers. -/
theorem allowance_available_le (bounded : capacity.Bounded) (exact : ¬capacity.Overflows) :
    (allowance capacity.available.1 : ℤ) ≤ max 0 capacity.runnerAvailable ∧
      (allowance capacity.available.1 : ℤ) ≤ max 0 capacity.adapterRemaining ∧
      (allowance capacity.available.1 : ℤ) ≤
        max 0 (capacity.queueLimit - capacity.queueDepth) := by
  have depth := bounded.queueDepth
  have limit := bounded.queueLimit
  have runner := bounded.runnerAvailable
  simp only [Overflows, InRange, available, allowance] at *
  split
  · simp
  split
  · simp
  split
  · simp
  simp only [Int.bmod_def]
  omega

/-- With enough room, as many steps can be granted, also after an overflow. -/
theorem le_allowance_available (bounded : capacity.Bounded) {count : ℕ}
    (runner : (count : ℤ) ≤ capacity.runnerAvailable)
    (adapter : (count : ℤ) ≤ capacity.adapterRemaining) (limit : 0 < capacity.queueLimit)
    (room : (count : ℤ) ≤ capacity.queueLimit - capacity.queueDepth) :
    count ≤ allowance capacity.available.1 := by
  have depthRange := bounded.queueDepth
  have limitRange := bounded.queueLimit
  have runnerRange := bounded.runnerAvailable
  simp only [InRange, available, allowance] at *
  split
  · omega
  split
  · omega
  split
  · omega
  simp only [Int.bmod_def]
  omega

theorem lt_allowance_of_overflows (bounded : capacity.Bounded) (overflows : capacity.Overflows) :
    capacity.runnerAvailable < allowance capacity.available.1 := by
  have depthRange := bounded.queueDepth
  have limitRange := bounded.queueLimit
  have runnerRange := bounded.runnerAvailable
  simp only [Overflows, InRange, available, allowance] at *
  rw [if_neg (by omega), if_neg (by omega), if_neg (by omega)]
  simp only [Int.bmod_def]
  omega

end Capacity

def granted (results : List Dispatch) : List Reservation :=
  (results.map Dispatch.reservation).filter fun reservation => reservation.keys ≠ []

theorem keysFor_ne_nil (step : Step) : keysFor step ≠ [] := by
  simp [keysFor]

theorem dispatchStep_cases (scheduler : Scheduler) (available : ℤ)
    (pressure : Option BackpressureReason) (step : Step) :
    (∃ result, result.step = cloneStep step ∧ result.reservation = default ∧
      dispatchStep scheduler available pressure step = (result, available, scheduler) ∧
      (available = 0 ∨ scheduler.breaker.allow step.tenant step.environment = false ∨
        scheduler.budget.blockedKeys step ≠ [])) ∨
    (available ≠ 0 ∧ scheduler.breaker.allow step.tenant step.environment = true ∧
      scheduler.budget.blockedKeys step = [] ∧
      dispatchStep scheduler available pressure step =
        ({ step := cloneStep step, reservation := ⟨step, keysFor step⟩ },
          Int.bmod (available - 1) (2 ^ 64),
          { scheduler with budget := (scheduler.budget.tryAcquire step).budget })) := by
  unfold dispatchStep
  by_cases idle : available = 0
  · left
    rw [if_pos idle]
    exact ⟨_, rfl, rfl, rfl, Or.inl idle⟩
  rw [if_neg idle]
  by_cases tripped : scheduler.breaker.allow step.tenant step.environment = false
  · left
    rw [if_pos tripped]
    exact ⟨_, rfl, rfl, rfl, Or.inr (Or.inl tripped)⟩
  rw [if_neg tripped]
  by_cases free : scheduler.budget.blockedKeys step = []
  · right
    refine ⟨idle, by simpa using tripped, free, ?_⟩
    simp [Budget.tryAcquire_of_free free]
  · left
    rw [if_pos (by rwa [Budget.tryAcquire_blocked_eq])]
    exact ⟨_, rfl, rfl, rfl, Or.inr (Or.inr free)⟩

/-- What holds of the results of a dispatch, whatever the capacity is. -/
structure Accounted (scheduler : Scheduler) (steps : List Step) (results : List Dispatch)
    (last : Scheduler) : Prop where
  /-- There is one result for every step, in the order of the steps. -/
  steps_eq : results.map Dispatch.step = steps.map cloneStep
  /-- A reservation is that of its step. -/
  reserved : List.Forall₂ (fun step result => result.reservation.keys ≠ [] →
    result.reservation = ⟨step, keysFor step⟩) steps results
  /-- No reservation is made for a production step of a tenant whose circuit is open. -/
  closed : ∀ result ∈ results, result.reservation.keys ≠ [] →
    result.step.environment = "production" →
    scheduler.breaker.isOpen.find (tenantKey result.step.tenant) false = false
  /-- The budget holds the keys of the reservations in addition, and nothing else changes. -/
  last_eq : last = { scheduler with
    budget := { scheduler.budget with
      active := scheduler.budget.active.acquire ((granted results).flatMap Reservation.keys) } }

theorem accounted_dispatchSteps (pressure : Option BackpressureReason) (steps : List Step)
    (available : ℤ) (scheduler : Scheduler) :
    Accounted scheduler steps (dispatchSteps pressure steps available scheduler).1
      (dispatchSteps pressure steps available scheduler).2 := by
  induction steps generalizing available scheduler with
  | nil => exact ⟨rfl, .nil, by simp [dispatchSteps], rfl⟩
  | cons step rest ih =>
    simp only [dispatchSteps]
    rcases dispatchStep_cases scheduler available pressure step with
      ⟨result, stepEq, empty, eq, -⟩ | ⟨-, allowed, free, eq⟩
    · have later := ih available scheduler
      simp only [eq]
      refine ⟨by simp [stepEq, later.steps_eq], .cons ?_ later.reserved, ?_, ?_⟩
      · intro held
        rw [empty] at held
        exact absurd rfl held
      · intro other member held
        rcases List.mem_cons.mp member with rfl | laterMem
        · rw [empty] at held
          exact absurd rfl held
        · exact later.closed other laterMem held
      · have skipped : granted (result ::
            (dispatchSteps pressure rest available scheduler).1) =
            granted (dispatchSteps pressure rest available scheduler).1 := by
          simp [granted, empty, show (default : Reservation).keys = [] from rfl]
        rw [skipped]
        exact later.last_eq
    · have later := ih (Int.bmod (available - 1) (2 ^ 64))
        { scheduler with budget := (scheduler.budget.tryAcquire step).budget }
      simp only [eq]
      refine ⟨by rw [List.map_cons, List.map_cons, later.steps_eq],
        .cons (fun _ => rfl) later.reserved, ?_, ?_⟩
      · intro other member held production
        rcases List.mem_cons.mp member with rfl | laterMem
        · simp only [CircuitBreaker.allow, decide_eq_true_eq] at allowed
          exact allowed.resolve_left (not_not.mpr production)
        · exact later.closed other laterMem held production
      · rw [later.last_eq]
        simp [granted, keysFor_ne_nil, Budget.tryAcquire_of_free free, Counter.acquire]

theorem length_granted_le (pressure : Option BackpressureReason) (steps : List Step)
    {available : ℤ} (inRange : InRange available) (scheduler : Scheduler) :
    (granted (dispatchSteps pressure steps available scheduler).1).length ≤
      allowance available := by
  induction steps generalizing available scheduler with
  | nil => simp [dispatchSteps, granted]
  | cons step rest ih =>
    simp only [dispatchSteps]
    rcases dispatchStep_cases scheduler available pressure step with
      ⟨result, -, empty, eq, -⟩ | ⟨remaining, -, -, eq⟩
    · have later := ih inRange scheduler
      simpa [eq, granted, empty, show (default : Reservation).keys = [] from rfl] using later
    · have later := ih (inRange_bmod (available - 1))
        { scheduler with budget := (scheduler.budget.tryAcquire step).budget }
      have counted := allowance_countdown inRange remaining
      simp only [eq]
      simp only [granted, List.map_cons, List.filter_cons, keysFor_ne_nil, ne_eq,
        not_false_eq_true, decide_true, if_true, List.length_cons] at later ⊢
      omega

/-- The steps can be held together. -/
def Acquirable : Budget → List Step → Prop
  | _, [] => True
  | budget, step :: rest =>
    budget.blockedKeys step = [] ∧ Acquirable (budget.tryAcquire step).budget rest

section

variable {pressure : Option BackpressureReason} {steps : List Step} {available : ℤ}
  {scheduler : Scheduler} (acquirable : Acquirable scheduler.budget steps)
  (allowed : ∀ step ∈ steps, scheduler.breaker.allow step.tenant step.environment = true)
  (inRange : InRange available) (enough : steps.length ≤ allowance available)

include acquirable allowed inRange enough

/-- Steps which can be held together are all granted, within the allowance. -/
theorem dispatchSteps_of_acquirable :
    (dispatchSteps pressure steps available scheduler).1 = steps.map fun step =>
      { step := cloneStep step, reservation := ⟨step, keysFor step⟩ } := by
  induction steps generalizing available scheduler with
  | nil => rfl
  | cons step rest ih =>
    have remaining : available ≠ 0 := by
      rintro rfl
      simp [allowance] at enough
    simp only [dispatchSteps]
    rcases dispatchStep_cases scheduler available pressure step with
      ⟨result, -, -, -, idle | tripped | blocked⟩ | ⟨-, -, -, eq⟩
    · exact absurd idle remaining
    · rw [allowed step List.mem_cons_self] at tripped
      cases tripped
    · exact absurd acquirable.1 blocked
    · have counted := allowance_countdown inRange remaining
      have later := @ih (Int.bmod (available - 1) (2 ^ 64))
        { scheduler with budget := (scheduler.budget.tryAcquire step).budget } acquirable.2
        (fun other member => allowed other (List.mem_cons_of_mem _ member))
        (inRange_bmod _) (by simp only [List.length_cons] at enough; omega)
      simp only [eq, later, List.map_cons]

theorem length_granted_of_acquirable :
    (granted (dispatchSteps pressure steps available scheduler).1).length = steps.length := by
  rw [dispatchSteps_of_acquirable acquirable allowed inRange enough, granted, List.map_map]
  have reserved : (steps.map (Dispatch.reservation ∘ fun step =>
      { step := cloneStep step, reservation := ⟨step, keysFor step⟩ })).filter
        (fun reservation => reservation.keys ≠ []) =
      steps.map (Dispatch.reservation ∘ fun step =>
        { step := cloneStep step, reservation := ⟨step, keysFor step⟩ }) := by
    rw [List.filter_eq_self]
    intro reservation member
    obtain ⟨step, -, rfl⟩ := List.mem_map.mp member
    simp [keysFor_ne_nil]
  rw [reserved, List.length_map]

end

/-- Steps without common keys can be held together, while nothing else holds their keys. -/
theorem acquirable_of_disjoint {budget : Budget} {steps : List Step} (valid : budget.limits.Valid)
    (disjoint : steps.Pairwise fun first second => (keysFor first).Disjoint (keysFor second))
    (unused : ∀ step ∈ steps, ∀ key ∈ keysFor step, budget.active.find key 0 = 0) :
    Acquirable budget steps := by
  induction steps generalizing budget with
  | nil => trivial
  | cons step rest ih =>
    obtain ⟨apart, restDisjoint⟩ := List.pairwise_cons.mp disjoint
    have free : budget.blockedKeys step = [] := by
      by_contra blocked
      obtain ⟨key, member, exhausted⟩ := (Budget.blockedKeys_ne_nil_iff budget step).mp blocked
      have positive := valid.limit_pos key
      rw [unused step List.mem_cons_self key member] at exhausted
      omega
    refine ⟨free, ?_⟩
    apply ih
    · rw [Budget.tryAcquire_limits]
      exact valid
    · exact restDisjoint
    · intro other member key needed
      rw [Budget.tryAcquire_of_free free, Counter.find_acquire_of_notMem]
      · exact unused other (List.mem_cons_of_mem _ member) key needed
      · intro held
        exact apart other member held needed

def stepOfTenant (length : ℕ) : Step :=
  ⟨"api", 0, String.ofList (List.replicate length 'a'), "staging", "global", "main", "core", "low",
    "runner", [], []⟩

theorem disjoint_stepOfTenant {first second : ℕ} (positive : 0 < first) (less : first < second) :
    (keysFor (stepOfTenant first)).Disjoint (keysFor (stepOfTenant second)) := by
  have tenant : ∀ {length}, 0 < length → (effectiveTenant (stepOfTenant length)).toList =
      List.replicate length 'a' := by
    intro length nonzero
    have named : (stepOfTenant length).tenant ≠ "" := by
      intro empty
      have := congrArg String.length empty
      simp [stepOfTenant] at this
      omega
    rw [effectiveTenant, if_neg named]
    simp [stepOfTenant]
  -- a name without a separator continues no other name
  have unrelated : ∀ {inner outer}, 0 < inner →
      ¬Nested (stepOfTenant outer) (stepOfTenant inner) := by
    rintro inner outer nonzero ⟨middle, eq, -⟩
    have separator : '/' ∈ (effectiveTenant (stepOfTenant inner)).toList := by simp [eq]
    rw [tenant nonzero] at separator
    have := List.eq_of_mem_replicate separator
    revert this
    decide
  refine (disjoint_keysFor_iff (Or.inl rfl) (Or.inl rfl) ?_).mpr ?_
  · intro same
    have lengths := congrArg (fun text => text.toList.length) same
    simp only [tenant positive, tenant (positive.trans less), List.length_replicate] at lengths
    omega
  · intro _
    exact ⟨unrelated (positive.trans less), unrelated positive⟩

def stepsOfTenants (count : ℕ) : List Step :=
  (List.range count).map fun index => stepOfTenant (index + 1)

@[simp]
theorem length_stepsOfTenants (count : ℕ) : (stepsOfTenants count).length = count := by
  simp [stepsOfTenants]

def idleScheduler : Scheduler where
  budget := { limits := singleLimits }
  breaker := { policy := ⟨1, 1, .finite 1⟩ }

example : new singleLimits ⟨1, 1, .finite 1⟩ = .ok idleScheduler := rfl

theorem acquirable_stepsOfTenants (count : ℕ) :
    Acquirable idleScheduler.budget (stepsOfTenants count) := by
  refine acquirable_of_disjoint singleLimits_valid ?_ (fun _ _ _ _ => rfl)
  rw [stepsOfTenants, List.pairwise_map]
  refine List.pairwise_lt_range.imp ?_
  intro first second less
  exact disjoint_stepOfTenant (Nat.succ_pos first) (Nat.succ_lt_succ less)

/-- The reservations of a dispatch stay within each of the three numbers of the capacity. -/
def WithinCapacity (capacity : Capacity) (results : List Dispatch) : Prop :=
  ((granted results).length : ℤ) ≤ max 0 capacity.runnerAvailable ∧
    ((granted results).length : ℤ) ≤ max 0 capacity.adapterRemaining ∧
    ((granted results).length : ℤ) ≤ max 0 (capacity.queueLimit - capacity.queueDepth)

/--
A dispatch is accounted for whatever the capacity is, and stays within the
capacity for all schedulers and steps exactly when the room in the queue is
computed without an overflow.
-/
theorem dispatch_within_capacity_iff (capacity : Capacity) (bounded : capacity.Bounded) :
    (∀ (scheduler : Scheduler) (steps : List Step),
      Accounted scheduler steps (scheduler.dispatch steps capacity).1
        (scheduler.dispatch steps capacity).2) ∧
    ((∀ (scheduler : Scheduler) (steps : List Step),
        WithinCapacity capacity (scheduler.dispatch steps capacity).1) ↔ ¬capacity.Overflows) := by
  refine ⟨fun scheduler steps => accounted_dispatchSteps _ steps _ scheduler, ?_, ?_⟩
  · intro within overflows
    have exceeds := Capacity.lt_allowance_of_overflows bounded overflows
    have runner := overflows.1
    have all := @length_granted_of_acquirable capacity.available.2
      (stepsOfTenants (capacity.runnerAvailable.toNat + 1)) capacity.available.1 idleScheduler
      (acquirable_stepsOfTenants _) (fun step _ => by simp [CircuitBreaker.allow, idleScheduler])
      (Capacity.inRange_available bounded) (by simp; omega)
    have counted := (within idleScheduler
      (stepsOfTenants (capacity.runnerAvailable.toNat + 1))).1
    simp only [dispatch, all, length_stepsOfTenants] at counted
    omega
  · intro exact scheduler steps
    have counted := length_granted_le capacity.available.2 steps
      (Capacity.inRange_available bounded) scheduler
    have bounds := Capacity.allowance_available_le bounded exact
    rw [dispatch, WithinCapacity]
    simp only
    omega

/-- One runner is given one of two steps. -/
theorem dispatch_within_capacity_one :
    let capacity : Capacity := ⟨1, 5, 2, 4⟩
    capacity.Bounded ∧ ¬capacity.Overflows ∧
      WithinCapacity capacity (idleScheduler.dispatch (stepsOfTenants 2) capacity).1 ∧
      (granted (idleScheduler.dispatch (stepsOfTenants 2) capacity).1).length = 1 := by
  intro capacity
  have bounded : capacity.Bounded := by
    constructor <;> decide
  have exact : ¬capacity.Overflows := by
    rintro ⟨-, -, -, overflow⟩
    revert overflow
    decide
  exact ⟨bounded, exact, (dispatch_within_capacity_iff capacity bounded).2.mpr exact _ _,
    by decide +kernel⟩

/-- A depth far below zero lets a single runner be given two steps. -/
theorem negative_depth_exceeds_runners :
    let capacity : Capacity := ⟨1, 1, -2 ^ 63, 1⟩
    capacity.Bounded ∧ new singleLimits ⟨1, 1, .finite 1⟩ = .ok idleScheduler ∧
      (granted (idleScheduler.dispatch (stepsOfTenants 2) capacity).1).length = 2 ∧
      ¬WithinCapacity capacity (idleScheduler.dispatch (stepsOfTenants 2) capacity).1 := by
  intro capacity
  have two : (granted (idleScheduler.dispatch (stepsOfTenants 2) capacity).1).length = 2 := by
    decide +kernel
  refine ⟨by constructor <;> decide, rfl, two, ?_⟩
  rintro ⟨runners, -, -⟩
  rw [two] at runners
  revert runners
  decide

theorem acquirable_pack (minimumPhase : ℤ) (ready : List Step) (budget : Budget) :
    Acquirable budget (pack minimumPhase ready budget).steps := by
  induction ready generalizing budget with
  | nil => trivial
  | cons step rest ih =>
    simp only [pack]
    split
    · trivial
    · by_cases free : budget.blockedKeys step = []
      · simp only [Budget.tryAcquire_blocked_eq, free, ne_eq, not_true_eq_false, if_false]
        exact ⟨free, ih _⟩
      · simp only [Budget.tryAcquire_of_blocked free, ne_eq, free, not_false_eq_true, if_true]
        exact ih budget

theorem acquirable_of_buildWaves {order : IterationOrder Step} {steps : List Step}
    {limits : Limits} {waves : List Wave} (built : buildWaves order steps limits = .ok waves) :
    ∀ wave ∈ waves, Acquirable { limits } wave.steps := by
  obtain ⟨valid, named, distinct⟩ := buildWaves_accepted (Or.inl ⟨waves, built⟩)
  have fresh : ∀ step ∈ steps, (∅ : GoMap String Step).get? step.id = none := by simp
  obtain ⟨pending, collected⟩ := exists_collect_eq_ok named distinct fresh
  have returned := run_eq_some_buildWaves order (newBudget_eq_ok_iff.mpr ⟨valid, rfl⟩) collected
  rw [built] at returned
  -- between two rounds the budget is empty
  have post := Loop.run_sound
    (fun state : WaveState => state.budget = { limits } ∧
      ∀ wave ∈ state.waves, Acquirable { limits } wave.steps)
    (fun result => ∀ waves, result = .ok waves →
      ∀ wave ∈ waves, Acquirable { limits } wave.steps) ?_ ?_ ?_ returned
  · exact post waves rfl
  · rintro state next ⟨empty, sound⟩ continued
    obtain ⟨first, rest, -, -, rfl⟩ := WaveState.round_eq_inl continued
    rw [WaveState.advance, empty]
    refine ⟨pack_released valid, ?_⟩
    intro wave member
    rcases List.mem_append.mp member with earlier | last
    · exact sound wave earlier
    · rw [List.mem_singleton.mp last]
      exact acquirable_pack _ _ _
  · rintro state result ⟨-, sound⟩ left waves rfl
    rcases state.round_cases order with ⟨-, eq⟩ | ⟨-, -, eq⟩ | ⟨_, _, -, ⟨-, eq⟩ | ⟨-, eq⟩⟩
    · rw [eq] at left
      cases left
      exact sound
    all_goals
      rw [eq] at left
      cases left
  · exact ⟨rfl, by simp⟩

/--
A fresh scheduler with the limits of the plan grants every step of every wave, when
the capacity is at least the size of the wave.
-/
theorem planned_waves_are_dispatchable (order : IterationOrder Step) (steps : List Step)
    (limits : Limits) (waves : List Wave) (built : buildWaves order steps limits = .ok waves)
    (policy : CircuitPolicy) (scheduler : Scheduler) (fresh : new limits policy = .ok scheduler)
    (wave : Wave) (planned : wave ∈ waves) (capacity : Capacity) (bounded : capacity.Bounded)
    (runner : (wave.steps.length : ℤ) ≤ capacity.runnerAvailable)
    (adapter : (wave.steps.length : ℤ) ≤ capacity.adapterRemaining)
    (limit : 0 < capacity.queueLimit)
    (room : (wave.steps.length : ℤ) ≤ capacity.queueLimit - capacity.queueDepth) :
    (scheduler.dispatch wave.steps capacity).1 = wave.steps.map fun step =>
      { step := cloneStep step, reservation := ⟨step, keysFor step⟩, blockedBy := [],
        pressure := none, error := none } := by
  have created : scheduler.budget = { limits } ∧ scheduler.breaker.isOpen = ∅ := by
    unfold new at fresh
    split at fresh
    · cases fresh
    · next budget accepted =>
      split at fresh
      · cases fresh
      · next breaker made =>
        cases fresh
        unfold newCircuitBreaker at made
        split at made
        · cases made
        · cases made
          exact ⟨(newBudget_eq_ok_iff.mp accepted).2, rfl⟩
  apply dispatchSteps_of_acquirable
  · rw [created.1]
    exact acquirable_of_buildWaves built wave planned
  · intro step _
    simp [CircuitBreaker.allow, created.2]
  · exact Capacity.inRange_available bounded
  · exact Capacity.le_allowance_available bounded runner adapter limit room

/-- Two independent steps form one wave, which two runners take. -/
theorem planned_waves_are_dispatchable_two :
    ∃ waves wave, buildWaves .stored [plainStep "api", plainStep "web"] defaultLimits = .ok waves ∧
      wave ∈ waves ∧ wave.steps.length = 2 ∧
      ∃ scheduler, new defaultLimits ⟨1, 1, .finite 1⟩ = .ok scheduler ∧
        (scheduler.dispatch wave.steps ⟨2, 2, 0, 2⟩).1 = wave.steps.map fun step =>
          { step := cloneStep step, reservation := ⟨step, keysFor step⟩ } := by
  have evaluated : (buildWaves .stored [plainStep "api", plainStep "web"]
      defaultLimits).toOption.map (fun waves => waves.map fun wave => wave.steps.length) =
        some [2] := by
    decide +kernel
  cases built : buildWaves .stored [plainStep "api", plainStep "web"] defaultLimits with
  | error error =>
    rw [built] at evaluated
    cases evaluated
  | ok waves =>
    rw [built] at evaluated
    simp only [Except.toOption, Option.map_some, Option.some.injEq] at evaluated
    cases waves with
    | nil => cases evaluated
    | cons wave rest =>
      have size : wave.steps.length = 2 := (List.cons.inj evaluated).1
      refine ⟨wave :: rest, wave, rfl, List.mem_cons_self, size, _, rfl, ?_⟩
      exact planned_waves_are_dispatchable .stored _ _ _ built ⟨1, 1, .finite 1⟩ _ rfl wave
        List.mem_cons_self ⟨2, 2, 0, 2⟩ (by constructor <;> decide) (by rw [size]; decide)
        (by rw [size]; decide) (by decide) (by rw [size]; decide)

end Themisy.Scheduler
