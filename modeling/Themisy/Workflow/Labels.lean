import Themisy.Workflow.Outline

/-!
# The status of a run follows from the location

Whatever run the workflow starts with, its status is determined by where the
workflow is, up to the way in which a run ends. While the run is paused, it also
knows the status which it is resumed with.
-/

namespace Themisy.Workflow.Release

open Domain Interaction

def Wait.runStatus : Wait → RunStatus
  | poll => .running
  | approval => .waitingApproval

def isEnd : RunStatus → Bool
  | .succeeded | .cancelled | .blocked | .failed | .escalated => true
  | .pending | .running | .paused | .waitingApproval => false

/-- The status of a run which is persisted with a goal. -/
def Goal.Labelled (run : ReleaseRun) : Goal → Prop
  | pause wait _ => run.status = .paused ∧ run.pausedFrom = some wait.runStatus
  | resume wait _ => run.status = wait.runStatus
  | await _ => run.status = .waitingApproval
  | finish => isEnd run.status = true
  | _ => run.status = .running

/-- The status of the run at a location. -/
def Location.Labelled : Location → Prop
  | stamp goal run | store goal run | completing goal run _ _ => goal.Labelled run
  | paused wait _ run => run.status = .paused ∧ run.pausedFrom = some wait.runStatus
  | waiting _ run | selecting _ run _ _ | deciding _ run _ => run.status = .waitingApproval
  | finished (.ok run) => isEnd run.status = true
  | finished (.error _) => True
  | location => ∀ run ∈ location.run, run.status = .running

section Labelled

variable {digest : Digest} {order : StepOrder} {total index : ℕ}
  {input run : ReleaseRun} {location next : Location} {event : Event requests}
  {history : History}

theorem Goal.Labelled.congr {goal : Goal} {later : ReleaseRun} (labelled : goal.Labelled run)
    (status : later.status = run.status) (pausedFrom : later.pausedFrom = run.pausedFrom) :
    goal.Labelled later := by
  cases goal <;> simpa only [Goal.Labelled, status, pausedFrom] using labelled

theorem Goal.Labelled.not_cancelled {wait : Wait}
    (labelled : (Goal.resume wait index).Labelled run) : run.status ≠ .cancelled := by
  intro cancelled
  have resumed : run.status = wait.runStatus := labelled
  rw [cancelled] at resumed
  cases wait <;> cases resumed

theorem labelled_enter (running : run.status = .running) :
    (enter total index run).Labelled := by
  unfold enter
  split
  · rintro _ ⟨⟩
    exact running
  · rfl

theorem Begins.labelled (begins : Begins total index run location)
    (running : run.status = .running) : location.Labelled := by
  cases begins with
  | done => exact labelled_enter running
  | unmet => rfl
  | evaluate =>
    rintro _ ⟨⟩
    exact running
  | missing => trivial

theorem Stores.labelled {goal : Goal} (stores : Stores order total goal run location)
    (labelled : goal.Labelled run) : location.Labelled := by
  cases stores with
  | begin assigned =>
    obtain ⟨wave, rfl⟩ := exists_waves_of_assignWaves assigned
    exact labelled_enter labelled
  | succeed => exact labelled_enter labelled
  | resumePoll _ begins => exact begins.labelled labelled
  | resumeCancelled cancelled => exact absurd cancelled labelled.not_cancelled
  | deny => rfl
  | pause | finish | await | resumeApproval => exact labelled
  | beginFailed | missing => trivial
  | _ =>
    rintro _ ⟨⟩
    exact labelled

theorem Moves.labelled (moves : Moves digest order total location event next)
    (labelled : location.Labelled) : next.Labelled := by
  cases moves with
  | stamp => exact Goal.Labelled.congr labelled rfl rfl
  | stored _ _ stores => exact stores.labelled (Goal.Labelled.congr labelled rfl rfl)
  | begins begins => exact begins.labelled (labelled _ rfl)
  | pollPaused => exact ⟨rfl, congrArg some (labelled _ rfl)⟩
  | selectPaused => exact ⟨rfl, congrArg some labelled⟩
  | @resumed wait _ run =>
    obtain ⟨-, pausedFrom⟩ := labelled
    simp only [Location.Labelled, Goal.Labelled, resumedRun, pausedFrom, Option.getD_some]
  | pollCancelled | cancelled | selectCancelled | selectExpired | revoked | denied
  | backpressured | deployFailed | verifyFailed | escalated | rollbackFailed | rollbackVerifyFailed
  | rollbackPassed | rollbackRejected | requested | approved => rfl
  | evaluated | acquired | deployed | deployedUnverified | passed | rolls =>
    have running := labelled _ rfl
    exact running
  | poll | observed | verified | rolledBack | rollbackObserved | rollbackVerified =>
    have running := labelled _ rfl
    rintro later ⟨⟩
    exact running
  | storeFailed | evaluateFailed | requestMissing | waitMissing | acquireFailed | completeFailed
  | observeFailed | rollbackObserveFailed => trivial
  | _ => exact labelled

theorem Reaches.labelled (reached : Reaches digest order total input history location) :
    location.Labelled := by
  induction reached with
  | start => rfl
  | move _ moves ih => exact moves.labelled ih

end Labelled

end Themisy.Workflow.Release
