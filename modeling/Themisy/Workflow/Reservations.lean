import Themisy.Workflow.Simulation

/-!
# The schedule which a release holds

A release holds the schedule of a step from the answer of `AcquireSchedule` until that
of `CompleteSchedule`. It acquires one schedule at a time, deploys a service only while
it holds its schedule, and completes no other than the one it holds. When it returns,
the schedule has been completed, unless persisting the run, sleeping or completing the
schedule has failed just before.
-/

namespace Themisy.Workflow.Release

open Domain Interaction

/-- What an answer does to the schedule which is held. -/
def scheduleChange : Event requests → Option (Option Scheduler.Step)
  | ⟨.acquireSchedule _ step, .ok result⟩ => if result.allowed then some (some step) else none
  | ⟨.completeSchedule _ _ _, .ok _⟩ => some none
  | _ => none

/-- The step whose schedule the history has acquired and not completed. -/
def held (history : History) : Option Scheduler.Step :=
  (latest scheduleChange history).join

variable {history : History} {event : Event requests}

theorem held_append_none (quiet : scheduleChange event = none) :
    held (history ++ [event]) = held history := by
  rw [held, latest_append_none quiet, held]

theorem held_append_some {step : Option Scheduler.Step}
    (change : scheduleChange event = some step) : held (history ++ [event]) = step := by
  simp [held, latest_append, change]

/-- The scheduler's view of the step of a service. -/
structure Represents (input : ReleaseRun) (service : String) (step : Scheduler.Step) : Prop where
  id : step.id = service
  keys : ∀ releaseStep : ReleaseStep, releaseStep.service = service →
    Scheduler.keysFor step = Scheduler.keysFor (schedulingStep input releaseStep)

variable {run : ReleaseRun} {goal : Goal} {index : ℕ}

theorem represents_schedulingStep {input : ReleaseRun} (same : runOutline run = runOutline input)
    (step : ReleaseStep) : Represents input step.service (schedulingStep run step) := by
  have plan : run.plan = input.plan :=
    (congrArg ReleaseRun.plan same :)
  have tenantID : run.tenantID = input.tenantID :=
    (congrArg ReleaseRun.tenantID same :)
  have environment : run.environment = input.environment :=
    (congrArg ReleaseRun.environment same :)
  have region : run.region = input.region :=
    (congrArg ReleaseRun.region same :)
  have cluster : run.cluster = input.cluster :=
    (congrArg ReleaseRun.cluster same :)
  refine ⟨schedulingStep_id run step, ?_⟩
  intro other service
  simp only [schedulingStep, plan, service, tenantID, environment, region, cluster]
  split <;> rfl

def serviceAt (input : ReleaseRun) (index : ℕ) : Option String :=
  input.steps[index]?.map ReleaseStep.service

/-- The workflow keeps the schedule of its step while it persists a run with such a goal. -/
def Goal.serves (input : ReleaseRun) : Goal → Option String
  | execute index | verify index _ _ | rollback index _ _ => serviceAt input index
  | _ => none

/-- The service whose schedule the workflow holds at a location. -/
def Location.serves (input : ReleaseRun) : Location → Option String
  | stamp goal _ | store goal _ => goal.serves input
  | deploying _ _ step => some step.service
  | completing _ _ service _ => some service
  | observing _ _ step _ _ | verifying _ _ step _ _ | checking _ _ step _ _ _
  | rollingBack _ _ step _ _ | rollbackObserving _ _ step _ _ | rollbackVerifying _ _ step _ _
  | rollbackChecking _ _ step _ _ => some step.service
  | _ => none

/-- The schedule which is held is that of the location. -/
def Holds (input : ReleaseRun) (history : History) (location : Location) : Prop :=
  match location.serves input with
  | some service => ∃ step, held history = some step ∧ Represents input service step
  | none => held history = none

section Moves

variable {digest : Digest} {order : StepOrder} {total : ℕ}
  {input : ReleaseRun} {history : History} {location next : Location}
  {event : Event requests}

theorem Holds.keep (holds : Holds input history location)
    (same : next.serves input = location.serves input) (quiet : scheduleChange event = none) :
    Holds input (history ++ [event]) next := by
  unfold Holds at *
  rw [same, held_append_none quiet]
  exact holds

theorem Location.Opening.serves (opening : location.Opening) : location.serves input = none := by
  cases opening <;> rfl

theorem Reaches.serviceAt {step : ReleaseStep}
    (reached : Reaches digest order total input history location)
    (member : (index, step) ∈ location.step) :
    Release.serviceAt input index = some step.service := by
  obtain ⟨original, found, same⟩ := reached.step member
  have service : step.service = original.service :=
    (congrArg ReleaseStep.service same :)
  rw [Release.serviceAt, found, Option.map_some, service]

theorem Stores.serves (stores : Stores order total goal run location)
    (reached : Reaches digest order total input history location)
    (running : location.isFinished = false) : location.serves input = goal.serves input := by
  cases stores with
  | begin | succeed => exact opening_enter.serves
  | resumePoll _ begins => exact begins.opening.serves
  | execute | verify | rollback => exact (reached.serviceAt rfl).symm
  | beginFailed | resumeCancelled | finish | missing => cases running
  | _ => rfl

/-- The schedule is completed before a run is persisted with which the step ends. -/
def Location.EndsStep (input : ReleaseRun) : Location → Prop
  | completing goal _ _ _ => goal.serves input = none
  | _ => True

theorem Location.Opening.endsStep (opening : location.Opening) : location.EndsStep input := by
  cases opening <;> trivial

theorem Moves.endsStep (moves : Moves digest order total location event next) :
    next.EndsStep input := by
  cases moves with
  | stored _ _ stores =>
    cases stores with
    | begin | succeed => exact opening_enter.endsStep
    | resumePoll _ begins => exact begins.opening.endsStep
    | _ => trivial
  | begins begins => exact begins.opening.endsStep
  | _ => first | rfl | trivial

theorem Reaches.endsStep (reached : Reaches digest order total input history location) :
    location.EndsStep input := by
  cases reached with
  | start => trivial
  | move _ moves => exact moves.endsStep

theorem Reaches.holds (reached : Reaches digest order total input history location)
    (running : location.isFinished = false) : Holds input history location := by
  induction reached with
  | start => rfl
  | @move history location next event reached moves ih =>
    have there := reached.move moves
    cases moves with
    | stored _ _ stores => exact (ih rfl).keep (stores.serves there running) rfl
    | begins begins => exact (ih rfl).keep begins.opening.serves rfl
    | @acquired index run step result allowed =>
      have change : scheduleChange ⟨.acquireSchedule run.id (schedulingStep run step), .ok result⟩ =
          some (some (schedulingStep run step)) := by
        simp only [scheduleChange, if_pos allowed]
      have outline := reached.outline run rfl
      simp only [Holds, Location.serves, Goal.serves, reached.serviceAt rfl,
        held_append_some change]
      exact ⟨_, rfl, represents_schedulingStep outline step⟩
    | @backpressured index run step result refused =>
      refine (ih rfl).keep rfl ?_
      simp [scheduleChange, refused]
    | completed goal run service failed =>
      have ends : goal.serves input = none := reached.endsStep
      simp only [Holds, Location.serves, ends]
      exact held_append_some rfl
    | deployed | rolls => exact (ih rfl).keep (reached.serviceAt rfl) rfl
    | _ => first | exact (ih rfl).keep rfl rfl | cases running

/-- The requests use the schedule which is held. -/
def Scheduling (input : ReleaseRun) (history : History) : Op → Prop
  | .persistRun persist => persist.run.id = input.id
  | .acquireSchedule runID _ => runID = input.id ∧ held history = none
  | .completeSchedule runID stepID _ => runID = input.id ∧
      ∃ step, held history = some step ∧ step.id = stepID
  | .deploy request => ∃ step, held history = some step ∧ Represents input request.service step
  | _ => True

theorem scheduling_of_asks {op : Op} (reached : Reaches digest order total input history location)
    (asks : location.Asks op) : Scheduling input history op := by
  have sameID : ∀ run ∈ location.run, run.id = input.id := fun run member =>
    (congrArg ReleaseRun.id (reached.outline run member) :)
  cases location with
  | store goal run =>
    obtain ⟨audits, eventType, rfl⟩ := asks
    exact sameID run rfl
  | acquiring index run step =>
    obtain rfl := asks
    exact ⟨sameID run rfl, reached.holds rfl⟩
  | completing goal run service failed =>
    obtain rfl := asks
    obtain ⟨step, holds, represents⟩ := reached.holds rfl
    exact ⟨sameID run rfl, step, holds, represents.id⟩
  | deploying index run step =>
    obtain rfl := asks
    exact reached.holds rfl
  | finished exit => cases asks
  | _ =>
    obtain rfl := asks
    trivial

/-- The service which was deployed, while the workflow persists a run with such a goal. -/
def Goal.deployed (input : ReleaseRun) : Goal → Option String
  | verify index _ _ | rollback index _ _ => serviceAt input index
  | _ => none

/-- The service which was deployed and whose schedule is not completed yet. -/
def Location.deployed (input : ReleaseRun) : Location → Option String
  | stamp goal _ | store goal _ => goal.deployed input
  | observing _ _ step _ _ | verifying _ _ step _ _ | checking _ _ step _ _ _
  | rollingBack _ _ step _ _ | rollbackObserving _ _ step _ _ | rollbackVerifying _ _ step _ _
  | rollbackChecking _ _ step _ _ => some step.service
  | _ => none

/-- The workflow was told the outcome of a deployment. -/
def DeploysService (service : String) (event : Event requests) : Prop :=
  ∃ request answer, event = ⟨.deploy request, answer⟩ ∧ request.service = service

/-- The workflow was told the outcome of completing a schedule. -/
def CompletesSchedule : Event requests → Prop
  | ⟨.completeSchedule _ _ _, _⟩ => True
  | _ => False

theorem Goal.deployed_eq_none (idle : goal.serves input = none) : goal.deployed input = none := by
  cases goal <;> first | exact idle | rfl

theorem Location.Opening.deployed (opening : location.Opening) :
    location.deployed input = none := by
  cases opening <;> rfl

variable {service : String} {exit : Exit}

theorem Stores.deployed (stores : Stores order total goal run location)
    (reached : Reaches digest order total input history location)
    (deployed : service ∈ location.deployed input) : service ∈ goal.deployed input := by
  cases stores with
  | begin | succeed =>
    rw [opening_enter.deployed] at deployed
    cases deployed
  | resumePoll _ begins =>
    rw [begins.opening.deployed] at deployed
    cases deployed
  | verify | rollback =>
    cases deployed
    exact reached.serviceAt rfl
  | _ => cases deployed

theorem Reaches.deployed (reached : Reaches digest order total input history location)
    (deployed : service ∈ location.deployed input) :
    Since (DeploysService service) CompletesSchedule history := by
  induction reached with
  | start => cases deployed
  | @move history location next event reached moves ih =>
    have there := reached.move moves
    rw [since_append]
    cases moves with
    | stored _ _ stores => exact Or.inl ⟨ih (stores.deployed there deployed), id⟩
    | begins begins =>
      rw [begins.opening.deployed] at deployed
      cases deployed
    | @deployed index run step result =>
      have same : Release.serviceAt input index = some service := deployed
      rw [reached.serviceAt rfl, Option.some.injEq] at same
      exact Or.inr ⟨_, _, rfl, same⟩
    | @rolls index run step =>
      have same : Release.serviceAt input index = some service := deployed
      rw [reached.serviceAt rfl] at same
      exact Or.inl ⟨ih same, id⟩
    | completed goal run =>
      have none := goal.deployed_eq_none reached.endsStep
      have some : goal.deployed input = some service := deployed
      rw [none] at some
      cases some
    | _ => first | exact Or.inl ⟨ih deployed, id⟩ | cases deployed

/-- The failures with which the workflow returns and leaves its schedule alone. -/
def Interrupts : Event requests → Prop
  | ⟨.persistRun _, .error _⟩ => True
  | ⟨.sleep _, .error _⟩ => True
  | ⟨.completeSchedule _ _ _, .error _⟩ => True
  | _ => False

theorem getElem?_ne_none (same : runOutline run = runOutline input)
    (bound : index < input.steps.length) : run.steps[index]? ≠ none := by
  have steps : run.steps.map stepOutline = input.steps.map stepOutline :=
    (congrArg ReleaseRun.steps same :)
  have length := congrArg List.length steps
  rw [List.length_map, List.length_map] at length
  rw [Ne, List.getElem?_eq_none_iff]
  omega

/-- A persisted run is returned without a schedule, unless it lacks the step. -/
theorem Stores.serves_of_finished (stores : Stores order total goal run (.finished exit)) :
    goal.serves input = none ∨ ∃ index, goal.index = some index ∧ run.steps[index]? = none := by
  generalize ended : Location.finished exit = location at stores
  cases stores with
  | begin | succeed | beginFailed | resumePoll | resumeCancelled | finish => exact Or.inl rfl
  | missing reads none => exact Or.inr ⟨_, reads, none⟩
  | _ => cases ended

/-- The workflow returns without a schedule, or right after one of these failures. -/
theorem held_of_finished
    (reached : Reaches digest order input.steps.length input history (.finished exit)) :
    held history = none ∨
      ∃ before event, history = before ++ [event] ∧ Interrupts event ∧ held before ≠ none := by
  generalize ended : Location.finished exit = location at reached
  cases reached with
  | start => cases ended
  | @move before location _ event reached moves =>
    subst ended
    have idle : location.serves input = none → location.isFinished = false →
        scheduleChange event = none → held (before ++ [event]) = none := by
      intro none running quiet
      have holds := reached.holds running
      rw [Holds, none] at holds
      rw [held_append_none quiet]
      exact holds
    have interrupted : Interrupts event → scheduleChange event = none →
        held (before ++ [event]) = none ∨ ∃ earlier last,
          before ++ [event] = earlier ++ [last] ∧ Interrupts last ∧ held earlier ≠ none := by
      intro interrupts quiet
      by_cases none : held before = none
      · exact Or.inl (by rw [held_append_none quiet, none])
      · exact Or.inr ⟨before, event, rfl, interrupts, none⟩
    cases moves with
    | @stored goal run _ _ _ stores =>
      rcases stores.serves_of_finished with none | ⟨index, reads, none⟩
      · exact Or.inl (idle none rfl rfl)
      · have bound := reached.place (goal.index_eq_place reads)
        exact absurd none (getElem?_ne_none (reached.outline run rfl) bound)
    | storeFailed | completeFailed | observeFailed | rollbackObserveFailed =>
      exact interrupted trivial rfl
    | begins | evaluateFailed | requestMissing | waitMissing | acquireFailed =>
      exact Or.inl (idle rfl rfl rfl)

end Moves

end Themisy.Workflow.Release
