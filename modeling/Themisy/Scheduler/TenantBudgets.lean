import Themisy.Scheduler.WaveCorrectness

/-!
# Budgets of different tenants

The keys of a budget are joined from free texts. Two equal keys of one dimension agree
on the last part and on everything before it, which separates the tenants in every
dimension but one: the tenant `a` in the region `b/staging/c` and the tenant
`a/staging/b` in the region `c` share the budgets of their clusters.
-/

namespace Themisy.Scheduler

def Step.Deployed (step : Step) : Prop :=
  step.environment = "staging" ∨ step.environment = "production"

/--
The tenant of the second step is that of the first one, continued by the
beginning of its environment and region, which the second step completes.
-/
def Nested (first second : Step) : Prop :=
  ∃ middle, effectiveTenant second = effectiveTenant first ++ "/" ++ middle ∧
    first.environment ++ "/" ++ first.region =
      middle ++ "/" ++ (second.environment ++ "/" ++ second.region)

/-- The clusters of two steps are told apart, or their tenants and regions are. -/
def Separate (first second : Step) : Prop :=
  first.cluster = second.cluster → ¬Nested first second ∧ ¬Nested second first

variable {key : BudgetKey} {second first observer : Step} {condition : Step → Prop}
  {budget : Budget}

theorem mem_keysFor {step : Step} :
    key ∈ keysFor step ↔
      key = ⟨.tenant, effectiveTenant step, effectiveTenant step⟩ ∨
      key = ⟨.environment, effectiveTenant step ++ "/" ++ step.environment, step.environment⟩ ∨
      key = ⟨.region, effectiveTenant step ++ "/" ++ step.environment ++ "/" ++ step.region,
        step.region⟩ ∨
      key = ⟨.cluster, effectiveTenant step ++ "/" ++ step.environment ++ "/" ++ step.region ++
        "/" ++ step.cluster, step.cluster⟩ ∨
      key = ⟨.team, effectiveTenant step ++ "/" ++ step.team, step.team⟩ ∨
      key = ⟨.riskTier, effectiveTenant step ++ "/" ++ step.riskTier, step.riskTier⟩ ∨
      key = ⟨.service, effectiveTenant step ++ "/" ++ step.environment ++ "/" ++ step.id,
        step.id⟩ ∨
      ∃ failureDomain ∈ step.failureDomains, key = ⟨.failureDomain,
        effectiveTenant step ++ "/" ++ step.environment ++ "/" ++ failureDomain,
        failureDomain⟩ := by
  simp only [keysFor, List.mem_append, List.mem_cons, List.not_mem_nil, or_false, List.mem_map,
    mem_sortStrings, or_assoc, eq_comm]

theorem join_right_inj {first second last : String} :
    first ++ "/" ++ last = second ++ "/" ++ last ↔ first = second := by
  rw [String.append_left_inj, String.append_left_inj]

/-- The environment is the part behind the last separator. -/
theorem tenant_eq_of_join_eq (deployed : first.Deployed) (again : second.Deployed)
    {left right : String}
    (same : left ++ "/" ++ first.environment = right ++ "/" ++ second.environment) :
    left = right := by
  have unseparated : ∀ {step : Step}, step.Deployed → ∀ start rest,
      step.environment ≠ start ++ "/" ++ rest := by
    intro step named start rest joined
    have member : '/' ∈ step.environment.toList := by simp [joined]
    rcases named with named | named
    all_goals
      rw [named] at member
      revert member
      decide
  rcases GoText.join_eq_join_iff.mp same with ⟨eq, -⟩ | ⟨middle, -, joined⟩ | ⟨middle, -, joined⟩
  · exact eq
  · exact absurd joined (unseparated deployed middle second.environment)
  · exact absurd joined (unseparated again middle first.environment)

/-- Different tenants have the same path to a region exactly when they are nested. -/
theorem region_paths_eq_iff (different : effectiveTenant first ≠ effectiveTenant second) :
    effectiveTenant first ++ "/" ++ first.environment ++ "/" ++ first.region =
        effectiveTenant second ++ "/" ++ second.environment ++ "/" ++ second.region ↔
      Nested first second ∨ Nested second first := by
  have grouped : ∀ step : Step,
      effectiveTenant step ++ "/" ++ step.environment ++ "/" ++ step.region =
        effectiveTenant step ++ "/" ++ (step.environment ++ "/" ++ step.region) := by
    intro step
    simp only [String.append_assoc]
  rw [grouped first, grouped second, GoText.join_eq_join_iff]
  simp only [different, false_and, false_or, Nested]

/-- The keys of two tenants are told apart unless the tenants are nested around one cluster. -/
theorem disjoint_keysFor_iff (deployed : first.Deployed) (again : second.Deployed)
    (different : effectiveTenant first ≠ effectiveTenant second) :
    (keysFor first).Disjoint (keysFor second) ↔ Separate first second := by
  constructor
  · intro disjoint sameCluster
    rw [← not_or, ← region_paths_eq_iff different]
    intro samePath
    refine disjoint (mem_keysFor.mpr (Or.inr (Or.inr (Or.inr (Or.inl rfl)))))
      (mem_keysFor.mpr (Or.inr (Or.inr (Or.inr (Or.inl ?_)))))
    rw [samePath, sameCluster]
  · intro separate key member shared
    rw [mem_keysFor] at member shared
    -- equal keys are of one dimension, and agree on the text of their limit
    rcases member with rfl | rfl | rfl | rfl | rfl | rfl | rfl | ⟨failureDomain, -, rfl⟩
    all_goals
      simp only [BudgetKey.mk.injEq, reduceCtorEq, false_and, and_false, exists_false, or_false,
        false_or, true_and] at shared
    · exact different shared.1
    · exact different (tenant_eq_of_join_eq deployed again shared.1)
    · obtain ⟨samePath, sameRegion⟩ := shared
      rw [sameRegion, join_right_inj] at samePath
      exact different (tenant_eq_of_join_eq deployed again samePath)
    · obtain ⟨samePath, sameCluster⟩ := shared
      rw [sameCluster, join_right_inj, region_paths_eq_iff different] at samePath
      exact not_or.mpr (separate sameCluster) samePath
    · obtain ⟨samePath, sameTeam⟩ := shared
      rw [sameTeam, join_right_inj] at samePath
      exact different samePath
    · obtain ⟨samePath, sameTier⟩ := shared
      rw [sameTier, join_right_inj] at samePath
      exact different samePath
    · obtain ⟨samePath, sameID⟩ := shared
      rw [sameID, join_right_inj] at samePath
      exact different (tenant_eq_of_join_eq deployed again samePath)
    · obtain ⟨failureDomain, -, samePath, rfl⟩ := shared
      rw [join_right_inj] at samePath
      exact different (tenant_eq_of_join_eq deployed again samePath)

/-- A call of the budget on behalf of a step which satisfies the given condition. -/
inductive Budget.Call (condition : Step → Prop) : Budget → Budget → Prop where
  | tryAcquire (budget : Budget) (step : Step) (allowed : condition step) :
      Call condition budget (budget.tryAcquire step).budget
  | release (budget : Budget) (step : Step) (allowed : condition step) :
      Call condition budget (budget.release ⟨step, keysFor step⟩)

/-- A call touches no counter but those of its own keys. -/
theorem Budget.Call.blockedKeys_eq {next : Budget} (called : Budget.Call condition budget next)
    (disjoint : ∀ step, condition step → (keysFor step).Disjoint (keysFor observer)) :
    next.blockedKeys observer = budget.blockedKeys observer := by
  have unread : ∀ other : Budget, other.limits = budget.limits →
      (∀ key ∈ keysFor observer, other.active.find key 0 = budget.active.find key 0) →
      other.blockedKeys observer = budget.blockedKeys observer := by
    intro other limits counters
    apply List.filterMap_congr
    intro key member
    rw [limits, counters key member]
  cases called with
  | tryAcquire step allowed =>
    by_cases free : budget.blockedKeys step = []
    · rw [Budget.tryAcquire_of_free free]
      refine unread _ rfl ?_
      intro key member
      apply Counter.find_acquire_of_notMem
      intro held
      exact disjoint step allowed held member
    · rw [Budget.tryAcquire_of_blocked free]
  | release step allowed =>
    refine unread _ rfl ?_
    intro key member
    apply Counter.find_release_of_notMem
    intro held
    exact disjoint step allowed held member

/-- Whole sequences of calls of one tenant leave the steps of the other one as they are. -/
theorem blockedKeys_eq_of_calls {last : Budget}
    (calls : Relation.ReflTransGen (Budget.Call condition) budget last)
    (disjoint : ∀ step, condition step → (keysFor step).Disjoint (keysFor observer)) :
    last.blockedKeys observer = budget.blockedKeys observer := by
  induction calls with
  | refl => rfl
  | tail _ called ih => rw [called.blockedKeys_eq disjoint, ih]

/-- Every key may be held once. -/
def singleLimits : Limits where
  tenantGlobal := 1
  defaultPerDimension := 1
  sharedFailureDomain := 1

theorem singleLimits_valid : singleLimits.Valid := by
  rw [← Limits.validate_eq_ok_iff]
  rfl

theorem limit_singleLimits (key : BudgetKey) : singleLimits.limit key = 1 := by
  unfold Limits.limit
  cases key.dimension <;> rfl

/-- Where every key may be held once, a step blocks every step with which it shares a key. -/
theorem blockedKeys_ne_nil_of_shared (held : key ∈ keysFor first) (needed : key ∈ keysFor second) :
    (Budget.tryAcquire { limits := singleLimits } first).budget.blockedKeys second ≠ [] := by
  rw [Budget.tryAcquire_of_free (Budget.blockedKeys_empty singleLimits_valid first),
    Budget.blockedKeys_ne_nil_iff]
  have counted := Counter.counts_empty.acquire (keysFor first)
  have positive : 0 < (keysFor first ++ []).count key := by simpa using held
  refine ⟨key, needed, ?_⟩
  rw [counted.find_eq key, limit_singleLimits]
  omega

/--
The keys of two tenants are disjoint exactly when the steps are separate. No
sequence of calls of a tenant for separate steps changes what the other step is
blocked by; a step which is not separate can block the other one.
-/
theorem tenants_share_no_budget_iff (first second : Step) (deployed : first.Deployed)
    (again : second.Deployed) (different : effectiveTenant first ≠ effectiveTenant second) :
    ((keysFor first).Disjoint (keysFor second) ↔ Separate first second) ∧
    (∀ budget last : Budget, Relation.ReflTransGen (Budget.Call fun step => step.Deployed ∧
        effectiveTenant step = effectiveTenant first ∧ Separate step second) budget last →
      last.blockedKeys second = budget.blockedKeys second) ∧
    (¬Separate first second → ∃ (limits : Limits) (budget : Budget),
      newBudget limits = .ok budget ∧ budget.blockedKeys second = [] ∧
        (budget.tryAcquire first).budget.blockedKeys second ≠ []) := by
  refine ⟨disjoint_keysFor_iff deployed again different, ?_, ?_⟩
  · intro budget last calls
    apply blockedKeys_eq_of_calls calls
    rintro step ⟨stepDeployed, sameTenant, separate⟩
    refine (disjoint_keysFor_iff stepDeployed again ?_).mpr separate
    rw [sameTenant]
    exact different
  · intro together
    rw [← disjoint_keysFor_iff deployed again different] at together
    simp only [List.Disjoint, not_forall, not_false_eq_true] at together
    obtain ⟨key, held, needed, -⟩ := together
    exact ⟨singleLimits, { limits := singleLimits },
      newBudget_eq_ok_iff.mpr ⟨singleLimits_valid, rfl⟩,
      Budget.blockedKeys_empty singleLimits_valid second,
      blockedKeys_ne_nil_of_shared held needed⟩

/-- Two tenants in one region, whose names are not nested. -/
theorem tenants_share_no_budget_unrelated :
    let first := plainStep "api"
    let second := { first with tenant := "b" }
    Separate first second ∧ (keysFor first).Disjoint (keysFor second) ∧
      (Budget.tryAcquire { limits := singleLimits } first).budget.blockedKeys second = [] := by
  intro first second
  have unrelated : ∀ middle, effectiveTenant second ≠ effectiveTenant first ++ "/" ++ middle ∧
      effectiveTenant first ≠ effectiveTenant second ++ "/" ++ middle := by
    intro middle
    constructor
    all_goals
      intro eq
      have heads := congrArg (fun text => text.toList.head?) eq
      simp [first, second, plainStep, effectiveTenant] at heads
  have separate : Separate first second := by
    intro _
    constructor
    · rintro ⟨middle, eq, -⟩
      exact (unrelated middle).1 eq
    · rintro ⟨middle, eq, -⟩
      exact (unrelated middle).2 eq
  have result := tenants_share_no_budget_iff first second (Or.inl rfl) (Or.inl rfl) (by decide)
  refine ⟨separate, result.1.mpr separate, ?_⟩
  rw [result.2.1 _ _ (.single (.tryAcquire _ first ⟨Or.inl rfl, rfl, separate⟩))]
  exact Budget.blockedKeys_empty singleLimits_valid second

/-- A tenant whose name continues that of another one is blocked by its step. -/
theorem nested_tenants_share_cluster_budget :
    let first := { plainStep "api" with region := "b/staging/c" }
    let second : Step :=
      ⟨"web", 0, "a/staging/b", "staging", "c", "main", "edge", "high", "runner", [], []⟩
    first.Deployed ∧ second.Deployed ∧ effectiveTenant first ≠ effectiveTenant second ∧
      ¬(keysFor first).Disjoint (keysFor second) ∧
      ∃ budget, newBudget singleLimits = .ok budget ∧ budget.blockedKeys second = [] ∧
        (budget.tryAcquire first).budget.blockedKeys second =
          [⟨.cluster, "a/staging/b/staging/c/main", 1⟩] := by
  intro first second
  refine ⟨Or.inl rfl, Or.inl rfl, by decide, ?_, { limits := singleLimits }, rfl, by decide +kernel,
    by decide +kernel⟩
  intro disjoint
  refine @disjoint ⟨.cluster, "a/staging/b/staging/c/main", "main"⟩ ?_ ?_
  · decide +kernel
  · decide +kernel

end Themisy.Scheduler
