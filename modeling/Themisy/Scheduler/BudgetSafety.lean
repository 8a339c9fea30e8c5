import Mathlib.Logic.Relation
import Themisy.Scheduler.Budget

/-!
# Safety of concurrency budgets over whole runs

A run of a budget interleaves `tryAcquire` calls for arbitrary steps with `release`
calls, each granted reservation being released at most once.

The active table counts the occurrences of every key in the outstanding reservations.
An acquisition is granted only while the counter of each of its keys is below the
limit, and the counter is at least the number of reservations holding the key; so the
holders never exceed the limit. An empty ledger leaves an empty table.
-/

namespace Themisy.Scheduler

namespace Limits

/-- What `validate` accepts: every default and every configured entry is positive. -/
structure Valid (limits : Limits) : Prop where
  tenantGlobal : 1 ≤ limits.tenantGlobal
  defaultPerDimension : 1 ≤ limits.defaultPerDimension
  sharedFailureDomain : 1 ≤ limits.sharedFailureDomain
  entries : ∀ named ∈ limits.dimensions, ∀ key value,
    named.2.get? key = some value → key ≠ "" ∧ 1 ≤ value

theorem invalidEntry_eq_none_iff (values : GoMap String ℤ) :
    invalidEntry values = none ↔
      ∀ key value, values.get? key = some value → key ≠ "" ∧ 1 ≤ value := by
  simp only [invalidEntry, List.findSome?_eq_none_iff]
  constructor
  · intro none key value found
    have entry : (⟨key, value⟩ : (_ : String) × ℤ) ∈ values.entries :=
      GoMap.mem_entries_iff.mpr found
    have accepted := none _ entry
    simp only [ite_eq_right_iff, reduceCtorEq, imp_false, not_or, not_lt] at accepted
    exact accepted
  · rintro positive ⟨key, value⟩ entry
    have accepted := positive key value (GoMap.mem_entries_iff.mp entry)
    simp only [ite_eq_right_iff, reduceCtorEq, imp_false, not_or, not_lt]
    exact accepted

theorem validate_eq_ok_iff (limits : Limits) : limits.validate = .ok () ↔ limits.Valid := by
  have lookups : (limits.dimensions.findSome? fun named =>
      (invalidEntry named.2).map (LimitsError.entryNotPositive named.1)) = none ↔
      ∀ named ∈ limits.dimensions, ∀ key value,
        named.2.get? key = some value → key ≠ "" ∧ 1 ≤ value := by
    simp only [List.findSome?_eq_none_iff, Option.map_eq_none_iff, invalidEntry_eq_none_iff]
  unfold validate
  constructor
  · intro accepted
    split at accepted
    · cases accepted
    · next defaults =>
      simp only [not_or, not_lt] at defaults
      split at accepted
      · cases accepted
      · next noEntry =>
        exact ⟨defaults.1, defaults.2.1, defaults.2.2, lookups.mp noEntry⟩
  · intro valid
    have noEntry := lookups.mpr valid.entries
    have := valid.tenantGlobal
    have := valid.defaultPerDimension
    have := valid.sharedFailureDomain
    rw [if_neg (by omega), noEntry]

theorem defaultLimits_valid : defaultLimits.Valid := by
  refine ⟨by decide, by decide, by decide, ?_⟩
  intro named configured key value found
  simp only [dimensions, defaultLimits, List.mem_cons, List.not_mem_nil, or_false] at configured
  rcases configured with rfl | rfl | rfl | rfl | rfl <;> simp at found

variable {limits : Limits}

theorem Valid.configuredLimit_pos (valid : limits.Valid) {values : GoMap String ℤ}
    (listed : values ∈ limits.dimensions.map Prod.snd) (key : String) :
    1 ≤ configuredLimit values key limits.defaultPerDimension := by
  obtain ⟨dimension, configured, rfl⟩ := List.mem_map.mp listed
  unfold configuredLimit
  split
  · next value found => exact (valid.entries _ configured key value found).2
  · exact valid.defaultPerDimension

theorem Valid.limit_pos (valid : limits.Valid) (key : BudgetKey) : 1 ≤ limits.limit key := by
  unfold limit
  cases key.dimension with
  | tenant => exact valid.tenantGlobal
  | environment | region | cluster | team | riskTier =>
    exact valid.configuredLimit_pos (by simp [dimensions]) key.limitKey
  | failureDomain => exact valid.sharedFailureDomain
  | service => exact le_refl _

end Limits

theorem newBudget_eq_ok_iff {limits : Limits} {budget : Budget} :
    newBudget limits = .ok budget ↔ limits.Valid ∧ budget = { limits } := by
  rw [← Limits.validate_eq_ok_iff]
  unfold newBudget
  cases validated : limits.validate with
  | error error => simp
  | ok accepted => simp [eq_comm]

namespace Budget

theorem blockedKeys_ne_nil_iff (budget : Budget) (step : Step) :
    budget.blockedKeys step ≠ [] ↔
      ∃ key ∈ keysFor step, budget.limits.limit key ≤ budget.active.find key 0 := by
  simp [blockedKeys, List.filterMap_eq_nil_iff]

variable {budget : Budget} {step : Step}

theorem tryAcquire_of_blocked (blocked : budget.blockedKeys step ≠ []) :
    budget.tryAcquire step = ⟨budget, default, budget.blockedKeys step⟩ := by
  simp [tryAcquire, blocked]

theorem tryAcquire_of_free (free : budget.blockedKeys step = []) :
    budget.tryAcquire step =
      ⟨{ budget with active := budget.active.acquire (keysFor step) },
        ⟨step, keysFor step⟩, []⟩ := by
  simp [tryAcquire, free]

theorem tryAcquire_blocked_eq (budget : Budget) (step : Step) :
    (budget.tryAcquire step).blocked = budget.blockedKeys step := by
  by_cases free : budget.blockedKeys step = []
  · rw [tryAcquire_of_free free, free]
  · rw [tryAcquire_of_blocked free]

@[simp]
theorem tryAcquire_limits (budget : Budget) (step : Step) :
    (budget.tryAcquire step).budget.limits = budget.limits := by
  by_cases free : budget.blockedKeys step = []
  · rw [tryAcquire_of_free free]
  · rw [tryAcquire_of_blocked free]

end Budget

/-- The key of a step which only one reservation may hold. -/
def serviceKey (step : Step) : BudgetKey :=
  ⟨.service, effectiveTenant step ++ "/" ++ step.environment ++ "/" ++ step.id, step.id⟩

theorem serviceKey_mem_keysFor (step : Step) : serviceKey step ∈ keysFor step := by
  simp [serviceKey, keysFor]

theorem limit_serviceKey (limits : Limits) (step : Step) : limits.limit (serviceKey step) = 1 := rfl

/-- A budget together with the reservations which are granted and not yet released. -/
structure Ledger where
  budget : Budget
  outstanding : List Reservation := []

namespace Ledger

def tryAcquire (ledger : Ledger) (step : Step) : Ledger :=
  let acquisition := ledger.budget.tryAcquire step
  ⟨acquisition.budget,
    if acquisition.blocked = [] then acquisition.reservation :: ledger.outstanding
    else ledger.outstanding⟩

def release (ledger : Ledger) (reservation : Reservation) : Ledger :=
  ⟨ledger.budget.release reservation, ledger.outstanding.erase reservation⟩

/-- One call of a run: any step may be tried, and any outstanding reservation released. -/
inductive Call : Ledger → Ledger → Prop where
  | tryAcquire (ledger : Ledger) (step : Step) : Call ledger (ledger.tryAcquire step)
  | release (ledger : Ledger) (reservation : Reservation)
      (held : reservation ∈ ledger.outstanding) : Call ledger (ledger.release reservation)

def holders (ledger : Ledger) (key : BudgetKey) : ℕ :=
  ledger.outstanding.countP fun reservation => key ∈ keysFor reservation.step

def occurrences (ledger : Ledger) : List BudgetKey :=
  ledger.outstanding.flatMap Reservation.keys

/-- The invariant of a run under accepted limits. -/
structure Consistent (limits : Limits) (ledger : Ledger) : Prop where
  limits_eq : ledger.budget.limits = limits
  keys_eq : ∀ reservation ∈ ledger.outstanding, reservation.keys = keysFor reservation.step
  counts : Counter.Counts ledger.budget.active ledger.occurrences
  bounded : ∀ key, (ledger.holders key : ℤ) ≤ limits.limit key

/-- The counter of a key is at least the number of reservations holding it. -/
theorem holders_le_count {ledger : Ledger}
    (keysEq : ∀ reservation ∈ ledger.outstanding, reservation.keys = keysFor reservation.step)
    (key : BudgetKey) : ledger.holders key ≤ ledger.occurrences.count key := by
  obtain ⟨budget, outstanding⟩ := ledger
  simp only [holders, occurrences] at keysEq ⊢
  induction outstanding with
  | nil => simp
  | cons reservation rest ih =>
    have headKeys := keysEq reservation (by simp)
    have tail := ih fun other member => keysEq other (by simp [member])
    rw [List.flatMap_cons, List.count_append, List.countP_cons]
    by_cases holds : key ∈ keysFor reservation.step
    · have positive : 0 < reservation.keys.count key := by
        rw [headKeys]
        exact List.count_pos_iff.mpr holds
      simp only [holds, decide_true, if_true]
      omega
    · simp only [holds, decide_false, Bool.false_eq_true, if_false]
      omega

namespace Consistent

variable {limits : Limits} {ledger : Ledger}

theorem start (valid : limits.Valid) : Consistent limits ⟨{ limits }, []⟩ := by
  refine ⟨rfl, by simp, Counter.counts_empty, ?_⟩
  intro key
  have := valid.limit_pos key
  simp only [holders, List.countP_nil]
  omega

theorem perm (consistent : Consistent limits ledger) {outstanding : List Reservation}
    (rearranged : ledger.outstanding.Perm outstanding) :
    Consistent limits { ledger with outstanding } := by
  refine ⟨consistent.limits_eq, ?_, consistent.counts.perm (rearranged.flatMap_right _), ?_⟩
  · exact fun reservation member => consistent.keys_eq reservation (rearranged.mem_iff.mpr member)
  · intro key
    have bounded := consistent.bounded key
    rw [holders, rearranged.countP_eq] at bounded
    exact bounded

theorem tryAcquire (consistent : Consistent limits ledger) (step : Step) :
    Consistent limits (ledger.tryAcquire step) := by
  by_cases blocked : ledger.budget.blockedKeys step = []
  · have granted : ledger.tryAcquire step =
        ⟨{ ledger.budget with active := ledger.budget.active.acquire (keysFor step) },
          ⟨step, keysFor step⟩ :: ledger.outstanding⟩ := by
      simp [Ledger.tryAcquire, Budget.tryAcquire_of_free blocked]
    rw [granted]
    refine ⟨consistent.limits_eq, ?_, consistent.counts.acquire _, ?_⟩
    · intro reservation member
      rcases List.mem_cons.mp member with rfl | old
      · rfl
      · exact consistent.keys_eq reservation old
    · intro key
      have old := consistent.bounded key
      simp only [holders, List.countP_cons] at old ⊢
      by_cases wanted : key ∈ keysFor step
      · -- the counter is below the limit, and no smaller than the number of holders
        have free : ledger.budget.active.find key 0 < limits.limit key := by
          by_contra exhausted
          have := (ledger.budget.blockedKeys_ne_nil_iff step).mpr
            ⟨key, wanted, by rw [consistent.limits_eq]; omega⟩
          exact this blocked
        rw [consistent.counts.find_eq key] at free
        have := holders_le_count consistent.keys_eq key
        simp only [holders] at this
        simp only [wanted, decide_true, if_true]
        omega
      · simpa [wanted] using old
  · have unchanged : ledger.tryAcquire step = ledger := by
      simp [Ledger.tryAcquire, Budget.tryAcquire_of_blocked blocked, blocked]
    rwa [unchanged]

theorem release (consistent : Consistent limits ledger) {reservation : Reservation}
    (held : reservation ∈ ledger.outstanding) :
    Consistent limits (ledger.release reservation) := by
  have rearranged := List.perm_cons_erase held
  refine ⟨consistent.limits_eq, ?_, ?_, ?_⟩
  · intro other member
    exact consistent.keys_eq other (List.mem_of_mem_erase member)
  · apply Counter.Counts.release
    exact consistent.counts.perm (rearranged.flatMap_right Reservation.keys)
  · intro key
    have fewer : (ledger.release reservation).holders key ≤ ledger.holders key :=
      List.Sublist.countP_le List.erase_sublist
    have := consistent.bounded key
    omega

theorem of_run (valid : limits.Valid)
    (run : Relation.ReflTransGen Call ⟨{ limits }, []⟩ ledger) : Consistent limits ledger := by
  induction run with
  | refl => exact start valid
  | tail _ call ih =>
    cases call with
    | tryAcquire step => exact ih.tryAcquire step
    | release reservation held => exact ih.release held

end Consistent

/--
In every run of a budget under accepted limits: the reservations holding a key
never exceed its limit; an acquisition is blocked exactly when one of its
counters has reached the limit, and then it leaves the budget as it was; and
once everything granted has been released, no counter remains.
-/
theorem holders_le_limit_of_run {limits : Limits} {budget : Budget} {ledger : Ledger}
    (created : newBudget limits = .ok budget)
    (run : Relation.ReflTransGen Call ⟨budget, []⟩ ledger) :
    (∀ key, (ledger.holders key : ℤ) ≤ ledger.budget.limits.limit key) ∧
      ledger.budget.limits = limits ∧
      (∀ step, (ledger.budget.tryAcquire step).blocked ≠ [] ↔
        ∃ key ∈ keysFor step,
          ledger.budget.limits.limit key ≤ ledger.budget.active.find key 0) ∧
      (∀ step, (ledger.budget.tryAcquire step).blocked ≠ [] →
        (ledger.budget.tryAcquire step).budget = ledger.budget) ∧
      (ledger.outstanding = [] → ledger.budget.active = ∅) := by
  obtain ⟨valid, rfl⟩ := newBudget_eq_ok_iff.mp created
  have consistent := Consistent.of_run valid run
  refine ⟨?_, consistent.limits_eq, ?_, ?_, ?_⟩
  · intro key
    rw [consistent.limits_eq]
    exact consistent.bounded key
  · intro step
    rw [Budget.tryAcquire_blocked_eq]
    exact ledger.budget.blockedKeys_ne_nil_iff step
  · intro step blocked
    rw [Budget.tryAcquire_blocked_eq] at blocked
    rw [Budget.tryAcquire_of_blocked blocked]
  · intro released
    have counts := consistent.counts
    simp only [occurrences, released, List.flatMap_nil] at counts
    exact counts.eq_empty

/-- A step which names one failure domain twice is counted twice and released completely. -/
theorem holders_le_limit_repeated_domain :
    let api : Step := { (default : Step) with id := "api", failureDomains := ["db", "db"] }
    let key : BudgetKey := ⟨.failureDomain, "default//db", "db"⟩
    let acquired := Ledger.tryAcquire ⟨{ limits := defaultLimits }, []⟩ api
    acquired.budget.active.find key 0 = 2 ∧ acquired.holders key = 1 ∧
      (acquired.release ⟨api, keysFor api⟩).budget.active = ∅ := by
  intro api key acquired
  have created : newBudget defaultLimits = .ok { limits := defaultLimits } := by rfl
  have run : Relation.ReflTransGen Call ⟨{ limits := defaultLimits }, []⟩
      (acquired.release ⟨api, keysFor api⟩) :=
    (Relation.ReflTransGen.single (.tryAcquire _ api)).tail (.release _ _ (by decide +kernel))
  refine ⟨by decide +kernel, by decide +kernel, ?_⟩
  exact (holders_le_limit_of_run created run).2.2.2.2 (by decide +kernel)

end Ledger

end Themisy.Scheduler
