import Themisy.Scheduler.BudgetSafety
import Themisy.Scheduler.Dispatch
import Themisy.Workflow.Release

/-!
# The schedules of the activities

This file embeds `AcquireSchedule` and `CompleteSchedule` of
`internal/workflow/activities.go`. The activities of a worker share one scheduler
and one table of the steps which it has dispatched, under the run and the step;
a mutex makes every call one atomic transition.

The dispatched steps are the ledger of the budget: the budget counts exactly the
keys which they hold.
-/

namespace Themisy.Workflow

open Domain

/-- The part of the activities which the schedule is in. -/
structure Schedules where
  scheduler : Scheduler
  scheduled : GoMap String Scheduler.Dispatch := ∅

def scheduleKey (runID stepID : String) : String :=
  runID ++ "\x00" ++ stepID

namespace Schedules

/-- New activities have dispatched nothing. -/
def new (scheduler : Scheduler) : Schedules := { scheduler }

variable (schedules : Schedules)

def acquireSchedule (capacity : Scheduler.Capacity) (runID : String) (step : Scheduler.Step) :
    Except GoError ScheduleResult × Schedules :=
  let key := scheduleKey runID step.id
  match schedules.scheduled.get? key with
  | some _ => (.ok { allowed := true }, schedules)
  | none =>
    match schedules.scheduler.dispatch [step] capacity with
    | ([result], scheduler) =>
      match result.error with
      | some error =>
        (.ok { reason := error.text, blockedBy := result.blockedBy },
          { schedules with scheduler })
      | none =>
        if result.blockedBy ≠ [] then
          (.ok { reason := "concurrency budget exhausted", blockedBy := result.blockedBy },
            { schedules with scheduler })
        else
          (.ok { allowed := true },
            { scheduler, scheduled := schedules.scheduled.set key result })
    | (_, scheduler) =>
      (.error (.plain "scheduler returned an invalid result count"),
        { schedules with scheduler })

def completeSchedule (runID stepID : String) (failed : Bool) :
    Scheduler.CircuitState × Schedules :=
  let key := scheduleKey runID stepID
  match schedules.scheduled.get? key with
  | none => (schedules.scheduler.circuitState "", schedules)
  | some dispatch =>
    let (state, scheduler) := schedules.scheduler.complete dispatch failed
    (state, { scheduler, scheduled := schedules.scheduled.delete key })

/-- The reservation which dispatching a step makes. -/
def reservationOf (step : Scheduler.Step) : Scheduler.Reservation :=
  ⟨step, Scheduler.keysFor step⟩

variable {schedules} {capacity : Scheduler.Capacity} {runID : String} {step : Scheduler.Step}

theorem acquireSchedule_cases :
    (∃ dispatch, schedules.scheduled.get? (scheduleKey runID step.id) = some dispatch ∧
      schedules.acquireSchedule capacity runID step = (.ok { allowed := true }, schedules)) ∨
    (schedules.scheduled.get? (scheduleKey runID step.id) = none ∧
      ∃ result, result.allowed = false ∧
      schedules.acquireSchedule capacity runID step = (.ok result, schedules)) ∨
    (schedules.scheduled.get? (scheduleKey runID step.id) = none ∧
      schedules.scheduler.budget.blockedKeys step = [] ∧
      schedules.acquireSchedule capacity runID step = (.ok { allowed := true },
        { scheduler := { schedules.scheduler with
            budget := (schedules.scheduler.budget.tryAcquire step).budget }
          scheduled := schedules.scheduled.set (scheduleKey runID step.id)
            { step := Scheduler.cloneStep step, reservation := reservationOf step } })) := by
  cases found : schedules.scheduled.get? (scheduleKey runID step.id) with
  | some dispatch => exact Or.inl ⟨dispatch, rfl, by simp only [acquireSchedule, found]⟩
  | none =>
    refine Or.inr ?_
    simp only [acquireSchedule, found, Scheduler.dispatch, Scheduler.dispatchSteps,
      Scheduler.dispatchStep]
    by_cases idle : capacity.available.1 = 0
    · simp only [if_pos idle]
      exact Or.inl ⟨trivial, _, rfl, rfl⟩
    by_cases tripped : schedules.scheduler.breaker.allow step.tenant step.environment = false
    · simp only [if_neg idle, if_pos tripped]
      exact Or.inl ⟨trivial, _, rfl, rfl⟩
    simp only [if_neg idle, if_neg tripped]
    by_cases free : schedules.scheduler.budget.blockedKeys step = []
    · refine Or.inr ⟨trivial, free, ?_⟩
      simp [Scheduler.Budget.tryAcquire_of_free free, reservationOf]
    · simp only [Scheduler.Budget.tryAcquire_of_blocked free, if_pos free]
      exact Or.inl ⟨trivial, _, rfl, rfl⟩

theorem completeSchedule_cases {stepID : String} {failed : Bool} :
    (schedules.scheduled.get? (scheduleKey runID stepID) = none ∧
      (schedules.completeSchedule runID stepID failed).2 = schedules) ∨
    ∃ dispatch breaker, schedules.scheduled.get? (scheduleKey runID stepID) = some dispatch ∧
      (schedules.completeSchedule runID stepID failed).2 =
        { scheduler :=
            { budget := if dispatch.reservation.keys ≠ [] then
                  schedules.scheduler.budget.release dispatch.reservation
                else schedules.scheduler.budget
              breaker }
          scheduled := schedules.scheduled.delete (scheduleKey runID stepID) } := by
  cases found : schedules.scheduled.get? (scheduleKey runID stepID) with
  | none => exact Or.inl ⟨rfl, by simp only [completeSchedule, found]⟩
  | some dispatch =>
    refine Or.inr ⟨dispatch, (schedules.scheduler.breaker.record dispatch.step.tenant
      dispatch.step.environment failed).2, rfl, ?_⟩
    simp only [completeSchedule, found]
    rfl

/-- The budget with the reservations of the dispatched steps. -/
def ledger (schedules : Schedules) : Scheduler.Ledger :=
  ⟨schedules.scheduler.budget, schedules.scheduled.values.map Scheduler.Dispatch.reservation⟩

/-- The budget counts the dispatched steps. -/
def Consistent (limits : Scheduler.Limits) (schedules : Schedules) : Prop :=
  schedules.ledger.Consistent limits

variable {limits : Scheduler.Limits}

theorem Consistent.acquireSchedule (consistent : schedules.Consistent limits)
    (capacity : Scheduler.Capacity) (runID : String) (step : Scheduler.Step) :
    (schedules.acquireSchedule capacity runID step).2.Consistent limits := by
  rcases schedules.acquireSchedule_cases with
    ⟨_, -, eq⟩ | ⟨-, _, -, eq⟩ | ⟨missing, free, eq⟩
  · rw [eq]
    exact consistent
  · rw [eq]
    exact consistent
  · have acquired := Scheduler.Ledger.Consistent.tryAcquire consistent step
    rw [eq]
    simp only [Consistent, ledger, GoMap.values_set missing, List.map_cons]
    simp only [Scheduler.Ledger.tryAcquire, ledger, Scheduler.Budget.tryAcquire_of_free free,
      if_true] at acquired
    rw [Scheduler.Budget.tryAcquire_of_free free]
    exact acquired

theorem Consistent.completeSchedule (consistent : schedules.Consistent limits)
    (runID stepID : String) (failed : Bool) :
    (schedules.completeSchedule runID stepID failed).2.Consistent limits := by
  rcases schedules.completeSchedule_cases with ⟨-, eq⟩ | ⟨dispatch, breaker, found, eq⟩
  · rw [eq]
    exact consistent
  · have moved := (GoMap.values_perm_delete found).map Scheduler.Dispatch.reservation
    have rearranged := Scheduler.Ledger.Consistent.perm consistent moved
    have released := rearranged.release List.mem_cons_self
    have holds : dispatch.reservation.keys ≠ [] := by
      rw [rearranged.keys_eq _ List.mem_cons_self]
      simp [Scheduler.keysFor]
    simp only [Scheduler.Ledger.release, List.map_cons, List.erase_cons_head] at released
    rw [eq, if_pos holds]
    exact released

theorem Consistent.find_eq (consistent : schedules.Consistent limits) (key : Scheduler.BudgetKey) :
    schedules.scheduler.budget.active.find key 0 =
      ((schedules.scheduled.values.flatMap fun dispatch => dispatch.reservation.keys).count key : ℤ)
      := by
  have counted := Scheduler.Ledger.Consistent.counts consistent
  simp only [Scheduler.Ledger.occurrences, ledger, List.flatMap_map] at counted
  exact counted.find_eq key

end Schedules

end Themisy.Workflow
