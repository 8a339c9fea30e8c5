import Themisy.Collections.Counter
import Themisy.Collections.Sorting
import Themisy.Encoding.GoText

/-!
# Concurrency budgets

This file embeds `internal/scheduler/budget.go`. `tryAcquire` takes one unit of every
key of a step, or nothing at all when some key is exhausted, and `release` gives the
units of a reservation back. A call is one atomic transition of the table.

A step may list the same failure domain several times. The table then counts
occurrences, and a counter may exceed its limit. What stays bounded is the number of
outstanding reservations holding a key; `Ledger` records these next to the budget.
-/

namespace Themisy.Scheduler

/-- The scheduling projection of a planned release step. -/
structure Step where
  id : String
  phase : ℤ
  tenant : String
  environment : String
  region : String
  cluster : String
  team : String
  riskTier : String
  runnerGroup : String
  failureDomains : List String
  dependencies : List String
  deriving DecidableEq, Inhabited

/-- The complete set of concurrency caps. -/
structure Limits where
  tenantGlobal : ℤ
  defaultPerDimension : ℤ
  environment : GoMap String ℤ := ∅
  region : GoMap String ℤ := ∅
  cluster : GoMap String ℤ := ∅
  team : GoMap String ℤ := ∅
  riskTier : GoMap String ℤ := ∅
  sharedFailureDomain : ℤ

def defaultLimits : Limits where
  tenantGlobal := 20
  defaultPerDimension := 20
  sharedFailureDomain := 1

/-- Why a set of limits is refused. -/
inductive LimitsError where
  /-- all default concurrency limits must be positive -/
  | defaultNotPositive
  /-- the named dimension has an entry whose key is empty or whose limit is not positive -/
  | entryNotPositive (dimension key : String)
  deriving DecidableEq

def LimitsError.message : LimitsError → String
  | defaultNotPositive => "all default concurrency limits must be positive"
  | entryNotPositive dimension key =>
    dimension ++ " concurrency limit " ++ GoText.quote key ++ " must be positive"

namespace Limits

/-- The configured dimensions under the names their errors carry. -/
def dimensions (limits : Limits) : List (String × GoMap String ℤ) :=
  [("environment", limits.environment), ("region", limits.region),
    ("cluster", limits.cluster), ("team", limits.team), ("risk_tier", limits.riskTier)]

/-- The first entry of a dimension with an empty key or a limit below one. -/
def invalidEntry (values : GoMap String ℤ) : Option String :=
  values.entries.findSome? fun entry =>
    if entry.1 = "" ∨ entry.2 < 1 then some entry.1 else none

/--
Go visits the dimensions and their entries in an unspecified order, which only
decides the entry an error names.
-/
def validate (limits : Limits) : Except LimitsError Unit :=
  if limits.tenantGlobal < 1 ∨ limits.defaultPerDimension < 1 ∨
      limits.sharedFailureDomain < 1 then
    .error .defaultNotPositive
  else
    match limits.dimensions.findSome? fun named =>
        (invalidEntry named.2).map (LimitsError.entryNotPositive named.1) with
    | some error => .error error
    | none => .ok ()

end Limits

/-- The resources which are limited. -/
inductive Dimension where
  | tenant
  | environment
  | region
  | cluster
  | team
  | riskTier
  | failureDomain
  | service
  deriving DecidableEq

def Dimension.text : Dimension → String
  | tenant => "tenant/global"
  | environment => "environment"
  | region => "region"
  | cluster => "cluster"
  | team => "team"
  | riskTier => "risk-tier"
  | failureDomain => "shared-failure-domain"
  | service => "service+environment"

structure Blocked where
  dimension : Dimension
  key : String
  limit : ℤ
  deriving DecidableEq

structure BudgetKey where
  dimension : Dimension
  key : String
  limitKey : String
  deriving DecidableEq

/-- A step with the keys it occupies. -/
structure Reservation where
  step : Step
  keys : List BudgetKey
  deriving DecidableEq, Inhabited

def effectiveTenant (step : Step) : String :=
  if step.tenant = "" then "default" else step.tenant

def keysFor (step : Step) : List BudgetKey :=
  let tenant := effectiveTenant step
  [⟨.tenant, tenant, tenant⟩,
    ⟨.environment, tenant ++ "/" ++ step.environment, step.environment⟩,
    ⟨.region, tenant ++ "/" ++ step.environment ++ "/" ++ step.region, step.region⟩,
    ⟨.cluster,
      tenant ++ "/" ++ step.environment ++ "/" ++ step.region ++ "/" ++ step.cluster,
      step.cluster⟩,
    ⟨.team, tenant ++ "/" ++ step.team, step.team⟩,
    ⟨.riskTier, tenant ++ "/" ++ step.riskTier, step.riskTier⟩,
    ⟨.service, tenant ++ "/" ++ step.environment ++ "/" ++ step.id, step.id⟩] ++
  (sortStrings step.failureDomains).map fun failureDomain =>
    ⟨.failureDomain, tenant ++ "/" ++ step.environment ++ "/" ++ failureDomain, failureDomain⟩

/-- The limits, and the units in use for each key. -/
@[ext]
structure Budget where
  limits : Limits
  active : Counter BudgetKey := ∅

def newBudget (limits : Limits) : Except LimitsError Budget :=
  match limits.validate with
  | .error error => .error error
  | .ok () => .ok { limits }

def configuredLimit (values : GoMap String ℤ) (key : String) (fallback : ℤ) : ℤ :=
  match values.get? key with
  | some value => value
  | none => fallback

namespace Limits

/-- The limit of a budget key; `Budget.limit` reads nothing but the limits. -/
def limit (limits : Limits) (key : BudgetKey) : ℤ :=
  match key.dimension with
  | .tenant => limits.tenantGlobal
  | .environment => configuredLimit limits.environment key.limitKey limits.defaultPerDimension
  | .region => configuredLimit limits.region key.limitKey limits.defaultPerDimension
  | .cluster => configuredLimit limits.cluster key.limitKey limits.defaultPerDimension
  | .team => configuredLimit limits.team key.limitKey limits.defaultPerDimension
  | .riskTier => configuredLimit limits.riskTier key.limitKey limits.defaultPerDimension
  | .failureDomain => limits.sharedFailureDomain
  | .service => 1

end Limits

/-- What one call of `tryAcquire` returns, with the budget it leaves behind. -/
structure Acquisition where
  budget : Budget
  reservation : Reservation
  blocked : List Blocked

namespace Budget

/-- The keys of a step which are exhausted, in the order of `keysFor`. -/
def blockedKeys (budget : Budget) (step : Step) : List Blocked :=
  (keysFor step).filterMap fun key =>
    if budget.limits.limit key ≤ budget.active.find key 0 then
      some ⟨key.dimension, key.key, budget.limits.limit key⟩
    else none

def tryAcquire (budget : Budget) (step : Step) : Acquisition :=
  let blocked := budget.blockedKeys step
  if blocked ≠ [] then ⟨budget, default, blocked⟩
  else
    ⟨{ budget with active := budget.active.acquire (keysFor step) },
      ⟨step, keysFor step⟩, []⟩

def release (budget : Budget) (reservation : Reservation) : Budget :=
  { budget with active := budget.active.release reservation.keys }

end Budget

end Themisy.Scheduler
