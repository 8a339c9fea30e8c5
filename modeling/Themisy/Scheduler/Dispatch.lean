import Themisy.Encoding.Float64
import Themisy.Scheduler.Waves

/-!
# Dispatching steps

This file embeds `circuit_breaker.go`, `backpressure.go` and `scheduler.go` of
`internal/scheduler`. `dispatch` reserves the budget of a list of steps, one after
the other, as long as there is capacity and the circuit of the tenant is closed;
`complete` gives a reservation back and records the outcome. Mutexes make every call
one atomic transition.
-/

namespace Themisy.Scheduler

structure CircuitPolicy where
  minimumSamples : ℤ
  windowSize : ℤ
  errorRate : Float64

structure CircuitState where
  isOpen : Bool := false
  samples : ℤ := 0
  failures : ℤ := 0
  errorRate : Float64 := .finite 0
  deriving DecidableEq

/-- The windows of outcomes and the open circuits, by tenant. -/
structure CircuitBreaker where
  policy : CircuitPolicy
  windows : GoMap String (List Bool) := ∅
  isOpen : GoMap String Bool := ∅

def newCircuitBreaker (policy : CircuitPolicy) : Except String CircuitBreaker :=
  if policy.minimumSamples < 1 ∨ policy.windowSize < policy.minimumSamples ∨
      policy.errorRate.le (.finite 0) ∨ (Float64.finite 1).lt policy.errorRate then
    .error "invalid circuit breaker policy"
  else .ok { policy }

def tenantKey (tenant : String) : String :=
  if tenant = "" then "default" else tenant

def stateOf (window : List Bool) (isOpen : Bool) : CircuitState :=
  let failures : ℤ := window.count true
  { isOpen
    samples := window.length
    failures
    errorRate := if 0 < window.length then Float64.quotient failures window.length else .finite 0 }

namespace CircuitBreaker

variable (breaker : CircuitBreaker)

/-- Whether steps of the tenant are dispatched. -/
def allow (tenant environment : String) : Bool :=
  environment ≠ "production" ∨ breaker.isOpen.find (tenantKey tenant) false = false

/-- The last outcomes of a tenant, after one more. -/
def extendWindow (key : String) (failed : Bool) : List Bool :=
  let window := breaker.windows.find key [] ++ [failed]
  if breaker.policy.windowSize < window.length then
    window.drop (window.length - breaker.policy.windowSize).toNat
  else window

def record (tenant environment : String) (failed : Bool) : CircuitState × CircuitBreaker :=
  if environment ≠ "production" then ({}, breaker)
  else
    let key := tenantKey tenant
    let window := breaker.extendWindow key failed
    let state := stateOf window (breaker.isOpen.find key false)
    let recorded := { breaker with windows := breaker.windows.set key window }
    if breaker.policy.minimumSamples ≤ window.length ∧
        breaker.policy.errorRate.le state.errorRate then
      ({ state with isOpen := true },
        { recorded with isOpen := breaker.isOpen.set key true })
    else (state, recorded)

def state (tenant : String) : CircuitState :=
  let key := tenantKey tenant
  stateOf (breaker.windows.find key []) (breaker.isOpen.find key false)

end CircuitBreaker

inductive BackpressureReason where
  | runnerCapacity
  | adapterRate
  | queueDepth
  deriving DecidableEq

/-- The capacity which a caller reports, in 64-bit integers. -/
structure Capacity where
  runnerAvailable : ℤ
  adapterRemaining : ℤ
  queueDepth : ℤ := 0
  queueLimit : ℤ

/-- The number of steps which may be dispatched; the difference wraps around. -/
def Capacity.available (capacity : Capacity) : ℤ × Option BackpressureReason :=
  if capacity.runnerAvailable ≤ 0 then (0, some .runnerCapacity)
  else if capacity.adapterRemaining ≤ 0 then (0, some .adapterRate)
  else if capacity.queueLimit ≤ 0 ∨ capacity.queueLimit ≤ capacity.queueDepth then
    (0, some .queueDepth)
  else
    (min capacity.runnerAvailable (min capacity.adapterRemaining
      (Int.bmod (capacity.queueLimit - capacity.queueDepth) (2 ^ 64))), none)

inductive DispatchError where
  | backpressure
  | circuitOpen
  deriving DecidableEq

def DispatchError.text : DispatchError → String
  | backpressure => "dispatch backpressured"
  | circuitOpen => "production circuit breaker is open"

/-- A step with its reservation, or what holds it back. -/
structure Dispatch where
  step : Step
  /-- The reservation of a step which was not dispatched has no keys. -/
  reservation : Reservation := default
  blockedBy : List Blocked := []
  pressure : Option BackpressureReason := none
  error : Option DispatchError := none

end Themisy.Scheduler

namespace Themisy

/-- The budget and the breaker which all releases share. -/
structure Scheduler where
  budget : Scheduler.Budget
  breaker : Scheduler.CircuitBreaker

namespace Scheduler

def new (limits : Limits) (policy : CircuitPolicy) : Except String Scheduler :=
  match newBudget limits with
  | .error error => .error error.message
  | .ok budget =>
    match newCircuitBreaker policy with
    | .error message => .error message
    | .ok breaker => .ok { budget, breaker }

/-- Dispatch one step, with the capacity which is left; counting it down wraps around. -/
def dispatchStep (scheduler : Scheduler) (available : ℤ) (pressure : Option BackpressureReason)
    (step : Step) : Dispatch × ℤ × Scheduler :=
  let result : Dispatch := { step := cloneStep step }
  if available = 0 then
    ({ result with pressure, error := some .backpressure }, available, scheduler)
  else if scheduler.breaker.allow step.tenant step.environment = false then
    ({ result with error := some .circuitOpen }, available, scheduler)
  else
    let acquisition := scheduler.budget.tryAcquire step
    if acquisition.blocked ≠ [] then
      ({ result with blockedBy := acquisition.blocked }, available, scheduler)
    else
      ({ result with reservation := acquisition.reservation }, Int.bmod (available - 1) (2 ^ 64),
        { scheduler with budget := acquisition.budget })

def dispatchSteps (pressure : Option BackpressureReason) :
    List Step → ℤ → Scheduler → List Dispatch × Scheduler
  | [], _, scheduler => ([], scheduler)
  | step :: rest, available, scheduler =>
    let (result, left, next) := dispatchStep scheduler available pressure step
    let (results, last) := dispatchSteps pressure rest left next
    (result :: results, last)

def dispatch (scheduler : Scheduler) (steps : List Step) (capacity : Capacity) :
    List Dispatch × Scheduler :=
  let (available, pressure) := capacity.available
  dispatchSteps pressure steps available scheduler

def complete (scheduler : Scheduler) (dispatch : Dispatch) (failed : Bool) :
    CircuitState × Scheduler :=
  let budget := if dispatch.reservation.keys ≠ [] then
      scheduler.budget.release dispatch.reservation
    else scheduler.budget
  let (state, breaker) :=
    scheduler.breaker.record dispatch.step.tenant dispatch.step.environment failed
  (state, { budget, breaker })

def circuitState (scheduler : Scheduler) (tenant : String) : CircuitState :=
  scheduler.breaker.state tenant

end Themisy.Scheduler
