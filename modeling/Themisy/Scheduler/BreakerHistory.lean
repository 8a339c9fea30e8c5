import Themisy.Scheduler.Dispatch

/-!
# The circuit breaker over histories

The circuit of a tenant is a function of its production outcomes: its window consists
of the last of them, and it is open if the error rate of a large enough window has
reached the threshold at some time.

The error rate is a double. A window whose exact error rate is below the threshold
opens the circuit when the rounded one is not.
-/

namespace Themisy.Scheduler

/-- A call of `Record`. -/
structure Outcome where
  tenant : String
  environment : String
  failed : Bool

/-- The production outcomes of a tenant, in the order in which they were recorded. -/
def productionOutcomes (tenant : String) (calls : List Outcome) : List Bool :=
  (calls.filter fun call => call.environment = "production" ∧
    tenantKey call.tenant = tenantKey tenant).map Outcome.failed

/-- The last outcomes, as many as the window holds. -/
def lastOutcomes (windowSize : ℤ) (outcomes : List Bool) : List Bool :=
  outcomes.drop (outcomes.length - windowSize.toNat)

/-- The window is large enough, and its rounded error rate reaches the threshold. -/
def CircuitPolicy.Reached (policy : CircuitPolicy) (window : List Bool) : Prop :=
  policy.minimumSamples ≤ window.length ∧
    policy.errorRate.le (Float64.quotient (window.count true) window.length)

def CircuitBreaker.recordAll (breaker : CircuitBreaker) (calls : List Outcome) : CircuitBreaker :=
  calls.foldl (fun breaker call => (breaker.record call.tenant call.environment call.failed).2)
    breaker

section Histories

variable {policy : CircuitPolicy} {breaker : CircuitBreaker} {calls : List Outcome}

theorem productionOutcomes_append (tenant : String) (calls : List Outcome) (call : Outcome) :
    productionOutcomes tenant (calls ++ [call]) =
      if call.environment = "production" ∧ tenantKey call.tenant = tenantKey tenant then
        productionOutcomes tenant calls ++ [call.failed]
      else productionOutcomes tenant calls := by
  split
  · next own => simp [productionOutcomes, own]
  · next foreign => simp [productionOutcomes, foreign]

theorem bounds_of_newCircuitBreaker (made : newCircuitBreaker policy = .ok breaker) :
    breaker = { policy } ∧ 1 ≤ policy.minimumSamples ∧
      policy.minimumSamples ≤ policy.windowSize := by
  unfold newCircuitBreaker at made
  split at made
  · cases made
  · next valid =>
    cases made
    simp only [not_or, not_lt] at valid
    exact ⟨rfl, valid.1, valid.2.1⟩

/-- Trimming the window once keeps it at the last outcomes. -/
theorem lastOutcomes_append {size : ℤ} (positive : 1 ≤ size) (outcomes : List Bool)
    (failed : Bool) :
    lastOutcomes size (outcomes ++ [failed]) =
      let window := lastOutcomes size outcomes ++ [failed]
      if size < window.length then window.drop (window.length - size).toNat else window := by
  obtain ⟨count, rfl⟩ := Int.eq_ofNat_of_zero_le (by omega : 0 ≤ size)
  simp only [lastOutcomes, List.length_append, List.length_drop, List.length_singleton,
    Int.toNat_natCast]
  by_cases full : count ≤ outcomes.length
  · rw [if_pos (by push_cast; omega)]
    have one : ((outcomes.length - (outcomes.length - count) + 1 : ℕ) - (count : ℤ)).toNat = 1 := by
      omega
    rw [one, ← List.drop_append_of_le_length (by omega), List.drop_drop]
    congr 1
    omega
  · rw [if_neg (by push_cast; omega)]
    rw [show outcomes.length + 1 - count = 0 by omega, show outcomes.length - count = 0 by omega]
    rfl

/-- The state of the breaker after the calls. -/
structure CircuitBreaker.Follows (breaker : CircuitBreaker) (policy : CircuitPolicy)
    (calls : List Outcome) : Prop where
  same : breaker.policy = policy
  window : ∀ tenant, breaker.windows.find (tenantKey tenant) [] =
    lastOutcomes policy.windowSize (productionOutcomes tenant calls)
  opened : ∀ tenant, breaker.isOpen.find (tenantKey tenant) false = true ↔
    ∃ earlier, earlier <+: productionOutcomes tenant calls ∧
      policy.Reached (lastOutcomes policy.windowSize earlier)

theorem exists_beginning_append {outcomes : List Bool} {failed : Bool} {holds : List Bool → Prop} :
    (∃ earlier, earlier <+: outcomes ++ [failed] ∧ holds earlier) ↔
      (∃ earlier, earlier <+: outcomes ∧ holds earlier) ∨ holds (outcomes ++ [failed]) := by
  constructor
  · rintro ⟨earlier, begins, holdsEarlier⟩
    rcases List.prefix_concat_iff.mp begins with rfl | shorter
    · exact Or.inr holdsEarlier
    · exact Or.inl ⟨earlier, shorter, holdsEarlier⟩
  · rintro (⟨earlier, begins, holdsEarlier⟩ | whole)
    · exact ⟨earlier, begins.trans (List.prefix_append _ _), holdsEarlier⟩
    · exact ⟨_, List.prefix_refl _, whole⟩

theorem productionOutcomes_congr {tenant other : String}
    (same : tenantKey tenant = tenantKey other) (calls : List Outcome) :
    productionOutcomes tenant calls = productionOutcomes other calls := by
  simp only [productionOutcomes, same]

theorem CircuitBreaker.Follows.extendWindow (follows : breaker.Follows policy calls)
    (positive : 1 ≤ policy.windowSize) (tenant : String) (failed : Bool) :
    breaker.extendWindow (tenantKey tenant) failed =
      lastOutcomes policy.windowSize (productionOutcomes tenant calls ++ [failed]) := by
  rw [lastOutcomes_append positive]
  simp only [CircuitBreaker.extendWindow, follows.window, follows.same]

/-- A window which is large enough is not empty, and its error rate is the quotient. -/
theorem CircuitPolicy.reached_iff (positive : 1 ≤ policy.minimumSamples) (window : List Bool)
    (isOpen : Bool) :
    policy.Reached window ↔ policy.minimumSamples ≤ window.length ∧
      policy.errorRate.le (stateOf window isOpen).errorRate := by
  refine and_congr_right fun enough => ?_
  have nonempty : 0 < window.length := by omega
  simp only [stateOf, if_pos nonempty]

theorem CircuitBreaker.record_production (breaker : CircuitBreaker) (tenant : String)
    (failed : Bool) :
    let recorded := (breaker.record tenant "production" failed).2
    let window := breaker.extendWindow (tenantKey tenant) failed
    recorded.policy = breaker.policy ∧
      recorded.windows = breaker.windows.set (tenantKey tenant) window ∧
      ∀ key, recorded.isOpen.find key false = true ↔ breaker.isOpen.find key false = true ∨
        key = tenantKey tenant ∧ breaker.policy.minimumSamples ≤ window.length ∧
          breaker.policy.errorRate.le
            (stateOf window (breaker.isOpen.find (tenantKey tenant) false)).errorRate := by
  simp only [CircuitBreaker.record, ne_eq, not_true_eq_false, if_false]
  split
  · next reached =>
    refine ⟨rfl, rfl, fun key => ?_⟩
    rw [GoMap.find_set]
    split
    · next same => simp [same, reached]
    · next other => simp [other]
  · next below =>
    refine ⟨rfl, rfl, fun key => ?_⟩
    tauto

section

variable (follows : breaker.Follows policy calls)
  (positive : 1 ≤ policy.minimumSamples)
  (room : 1 ≤ policy.windowSize)

include follows positive room

theorem CircuitBreaker.Follows.record (call : Outcome) :
    (breaker.record call.tenant call.environment call.failed).2.Follows policy
      (calls ++ [call]) := by
  obtain ⟨recorded, environment, failed⟩ := call
  by_cases production : environment = "production"
  · subst production
    obtain ⟨same, windows, opened⟩ := breaker.record_production recorded failed
    have window := follows.extendWindow room recorded failed
    refine ⟨same.trans follows.same, fun tenant => ?_, fun tenant => ?_⟩
    · rw [windows, GoMap.find_set, productionOutcomes_append]
      by_cases own : tenantKey tenant = tenantKey recorded
      · rw [if_pos own, if_pos ⟨rfl, own.symm⟩, window, productionOutcomes_congr own]
      · rw [if_neg own, if_neg fun both => own both.2.symm, follows.window]
    · rw [opened, follows.opened, productionOutcomes_append]
      by_cases own : tenantKey tenant = tenantKey recorded
      · rw [if_pos ⟨rfl, own.symm⟩, exists_beginning_append, CircuitPolicy.reached_iff positive _
          (breaker.isOpen.find (tenantKey recorded) false), productionOutcomes_congr own, ← window,
          follows.same]
        simp only [own, true_and]
      · rw [if_neg fun both => own both.2.symm]
        simp only [own, false_and, or_false]
  · have foreign : ∀ tenant,
        productionOutcomes tenant (calls ++ [⟨recorded, environment, failed⟩]) =
        productionOutcomes tenant calls := by
      intro tenant
      rw [productionOutcomes_append, if_neg fun both => production both.1]
    simp only [CircuitBreaker.record, ne_eq, production, not_false_eq_true, if_true]
    refine ⟨follows.same, fun tenant => ?_, fun tenant => ?_⟩
    · rw [foreign]
      exact follows.window tenant
    · rw [foreign]
      exact follows.opened tenant

theorem CircuitBreaker.Follows.recordAll (more : List Outcome) :
    (breaker.recordAll more).Follows policy (calls ++ more) := by
  induction more generalizing breaker calls with
  | nil =>
    rw [List.append_nil]
    exact follows
  | cons call rest ih =>
    have later := ih (follows.record positive room call)
    rw [List.append_assoc] at later
    exact later

end

theorem follows_newCircuitBreaker (made : newCircuitBreaker policy = .ok breaker)
    (calls : List Outcome) : (breaker.recordAll calls).Follows policy calls := by
  obtain ⟨rfl, positive, room⟩ := bounds_of_newCircuitBreaker made
  have start : CircuitBreaker.Follows { policy } policy [] := by
    refine ⟨rfl, fun tenant => ?_, fun tenant => ?_⟩
    · simp [productionOutcomes, lastOutcomes]
    · simp only [GoMap.find_empty, Bool.false_eq_true, false_iff, not_exists, not_and]
      intro earlier begins reached
      rw [List.prefix_nil.mp begins] at reached
      have samples := reached.1
      simp only [lastOutcomes, List.drop_nil, List.length_nil] at samples
      omega
  exact start.recordAll positive (positive.trans room) calls

theorem CircuitBreaker.allow_production_iff {tenant : String} :
    breaker.allow tenant "production" = false ↔
      breaker.isOpen.find (tenantKey tenant) false = true := by
  simp [CircuitBreaker.allow]

/-- The window of a tenant consists of its last production outcomes, its production steps are
refused from the time at which the rounded error rate of a large enough window has reached the
threshold, and neither other tenants nor other environments matter. -/
theorem breaker_follows_outcomes (made : newCircuitBreaker policy = .ok breaker)
    (calls : List Outcome) (tenant : String) :
    (breaker.recordAll calls).windows.find (tenantKey tenant) [] =
        lastOutcomes policy.windowSize (productionOutcomes tenant calls) ∧
      ((breaker.recordAll calls).allow tenant "production" = false ↔
        ∃ earlier, earlier <+: productionOutcomes tenant calls ∧
          policy.Reached (lastOutcomes policy.windowSize earlier)) ∧
      (∀ call : Outcome, call.environment ≠ "production" ∨
          tenantKey call.tenant ≠ tenantKey tenant →
        (breaker.recordAll (calls ++ [call])).state tenant =
            (breaker.recordAll calls).state tenant ∧
          (breaker.recordAll (calls ++ [call])).allow tenant "production" =
            (breaker.recordAll calls).allow tenant "production") ∧
      (∀ environment, environment ≠ "production" →
        (breaker.recordAll calls).allow tenant environment = true) ∧
      ∀ more, (breaker.recordAll calls).allow tenant "production" = false →
        (breaker.recordAll (calls ++ more)).allow tenant "production" = false := by
  have follows := follows_newCircuitBreaker made
  have opened : ∀ calls, (breaker.recordAll calls).allow tenant "production" = false ↔ _ :=
    fun calls => CircuitBreaker.allow_production_iff.trans ((follows calls).opened tenant)
  refine ⟨(follows calls).window tenant, opened calls, ?_, ?_, ?_⟩
  · intro call foreign
    have outcomes :
        productionOutcomes tenant (calls ++ [call]) = productionOutcomes tenant calls := by
      rw [productionOutcomes_append, if_neg]
      tauto
    have isOpen : (breaker.recordAll (calls ++ [call])).isOpen.find (tenantKey tenant) false =
        (breaker.recordAll calls).isOpen.find (tenantKey tenant) false := by
      rw [Bool.eq_iff_iff, (follows _).opened, (follows _).opened, outcomes]
    refine ⟨?_, ?_⟩
    · simp only [CircuitBreaker.state, (follows _).window, outcomes, isOpen]
    · simp only [CircuitBreaker.allow, isOpen]
  · intro environment elsewhere
    simp [CircuitBreaker.allow, elsewhere]
  · intro more closed
    rw [opened] at closed ⊢
    obtain ⟨earlier, begins, reached⟩ := closed
    refine ⟨earlier, begins.trans ?_, reached⟩
    simp only [productionOutcomes, List.filter_append, List.map_append]
    exact List.prefix_append _ _

end Histories

/-- Two failures among four outcomes open a circuit with the threshold one half. -/
theorem breaker_follows_outcomes_half :
    let policy : CircuitPolicy := ⟨4, 10, .finite (1 / 2)⟩
    let calls : List Outcome := [true, false, true, false].map (⟨"tenant-a", "production", ·⟩)
    ∃ breaker, newCircuitBreaker policy = .ok breaker ∧
      (breaker.recordAll calls).allow "tenant-a" "production" = false ∧
      (breaker.recordAll calls).allow "tenant-a" "staging" = true := by
  intro policy calls
  have made : newCircuitBreaker policy = .ok { policy } := if_neg (by decide +kernel)
  obtain ⟨-, opened, -, elsewhere, -⟩ := breaker_follows_outcomes made calls "tenant-a"
  have reached : policy.Reached
      (lastOutcomes policy.windowSize (productionOutcomes "tenant-a" calls)) :=
    ⟨by decide +kernel, by decide +kernel⟩
  exact ⟨{ policy }, made, opened.mpr ⟨_, List.prefix_refl _, reached⟩,
    elsewhere "staging" (by decide)⟩

/-- The double next to one tenth is larger than one tenth. One failure among ten outcomes opens
the circuit, although ten times the threshold is more than one. -/
theorem circuit_opens_below_threshold :
    let rate : ℚ := 3602879701896397 / 2 ^ 55
    let policy : CircuitPolicy := ⟨10, 10, .finite rate⟩
    let calls : List Outcome := (true :: List.replicate 9 false).map (⟨"tenant", "production", ·⟩)
    Float64.nearest (1 / 10) = rate ∧
    ∃ breaker, newCircuitBreaker policy = .ok breaker ∧
      (breaker.recordAll calls).allow "tenant" "production" = false ∧
      ∀ earlier, earlier <+: productionOutcomes "tenant" calls →
        ¬(policy.minimumSamples ≤ (lastOutcomes policy.windowSize earlier).length ∧
          rate * (lastOutcomes policy.windowSize earlier).length ≤
            (lastOutcomes policy.windowSize earlier).count true) := by
  intro rate policy calls
  refine ⟨by decide +kernel, { policy }, if_neg (by decide +kernel), by decide +kernel, ?_⟩
  have beginnings : ∀ earlier ∈ (productionOutcomes "tenant" calls).inits,
      ¬(policy.minimumSamples ≤ (lastOutcomes policy.windowSize earlier).length ∧
        rate * (lastOutcomes policy.windowSize earlier).length ≤
          (lastOutcomes policy.windowSize earlier).count true) := by
    decide +kernel
  exact fun earlier begins => beginnings earlier ((List.mem_inits _ _).mpr begins)

end Themisy.Scheduler
