import Themisy.Interaction.Retry
import Themisy.Workflow.Reservations
import Themisy.Workflow.Schedules

/-!
# Attempts at activities

Temporal retries an activity until it is told an outcome, so an activity may run
several times for one request of the workflow, and may have run although the
workflow sees a failure. This file relates what the attempts of one workflow have
done to the schedule with what the workflow knows about it.
-/

namespace Themisy.Workflow.Release

open Domain Interaction

def Op.isActivity : Op → Bool
  | persistRun _ | evaluateStep _ _ | acquireSchedule _ _ | completeSchedule _ _ _ | deploy _
  | verify _ | rollback _ => true
  | _ => false

/-- The answer is the failure of an activity. -/
def Fails : (op : Op) → op.Res → Prop
  | .persistRun _, .error _ | .evaluateStep _ _, .error _ | .acquireSchedule _ _, .error _
  | .completeSchedule _ _ _, .error _ | .deploy _, .error _ | .verify _, .error _
  | .rollback _, .error _ => True
  | _, _ => False

/-- The workflow is told what the last attempt has returned, or that the activity has failed. -/
structure Reports (op : Op) (attempt : Attempt op.Res) : Prop where
  repeated : attempt.told = none → op.isActivity = true
  truthful : ∀ answer ∈ attempt.told, attempt.ran = some answer ∨ Fails op answer
  legal : ∀ answer ∈ attempt.told, Legal op answer

/-- The executions of a workflow whose activities are retried. -/
abbrev Tries (digest : Digest) (order : StepOrder) (input : ReleaseRun)
    (trace : List (Event requests.attempts)) (rest : Prog requests.attempts Exit) : Prop :=
  Runs (Machine.free (S := requests.attempts) Reports) ()
    (releaseWorkflow digest order input).retried trace () rest

def attemptChange : Event requests.attempts → Option (Option Scheduler.Step)
  | ⟨.acquireSchedule _ step, ⟨some (.ok result), _⟩⟩ =>
    if result.allowed then some (some step) else none
  | ⟨.completeSchedule _ _ _, ⟨some _, _⟩⟩ => some none
  | _ => none

/-- The step whose schedule the attempts have acquired and not completed. -/
def taken (trace : List (Event requests.attempts)) : Option Scheduler.Step :=
  (latest attemptChange trace).join

def Completes : Event requests.attempts → Prop
  | ⟨.completeSchedule _ _ _, ⟨some _, _⟩⟩ => True
  | _ => False

/-- A deployment was tried, and no schedule was completed since. -/
def Ongoing (trace : List (Event requests.attempts)) (request : DeployInput) : Prop :=
  Since (S := requests.attempts) (fun event => ∃ attempt, event = ⟨.deploy request, attempt⟩)
    Completes trace

variable {trace : List (Event requests.attempts)} {event : Event requests.attempts}

theorem taken_append_none (quiet : attemptChange event = none) :
    taken (trace ++ [event]) = taken trace := by
  rw [taken, latest_append_none quiet, taken]

theorem taken_append_some {step : Option Scheduler.Step}
    (change : attemptChange event = some step) :
    taken (trace ++ [event]) = step := by
  simp [taken, latest_append, change]

variable {op : Op} {attempt : Attempt op.Res} {runID : String} {digest : Digest}
  {order : StepOrder} {input : ReleaseRun} {previous rest : Prog requests.attempts Exit}

/-- The location at which a retried workflow makes its next request. -/
theorem location_of_tries (tries : Tries digest order input trace rest)
    {next : Attempt op.Res → Prog requests.attempts Exit}
    (requested : rest.head = .request op next) :
    ∃ location, Reaches digest order input.steps.length input (told trace) location ∧
      location.Asks op := by
  obtain ⟨stopped, rfl, run⟩ :=
    Runs.of_retried (fun op attempt reports => Reports.legal reports) tries
  cases stoppedHead : stopped.head with
  | done value =>
    rw [Prog.head_retried_done stoppedHead] at requested
    cases requested
  | request stoppedOp stoppedNext =>
    rw [Prog.head_retried_request stoppedHead] at requested
    cases requested
    exact (releaseWorkflow_follows (fun _ _ _ _ legal => legal) run).2 _ _ stoppedHead

theorem finished_of_tries {exit : Exit} (tries : Tries digest order input trace (.pure exit)) :
    Reaches digest order input.steps.length input (told trace) (.finished exit) := by
  obtain ⟨stopped, same, run⟩ :=
    Runs.of_retried (fun op attempt reports => Reports.legal reports) tries
  cases stoppedHead : stopped.head with
  | done value =>
    rw [Prog.head_eq_done] at stoppedHead
    subst stoppedHead
    cases same
    exact (releaseWorkflow_follows (fun _ _ _ _ legal => legal) run).1 exit rfl
  | request op next =>
    have requested := Prog.head_retried_request stoppedHead
    rw [← same] at requested
    cases requested

section

variable (tries : Tries digest order input (trace ++ [⟨op, attempt⟩]) rest)
  (untold : attempt.told = none)

include tries untold

theorem Tries.head_of_untold : ∃ next, rest.head = .request op next := by
  obtain ⟨⟨⟩, previous, follow, first, asked, -, rfl⟩ := tries.last
  obtain ⟨stopped, rfl, -⟩ :=
    Runs.of_retried (fun op attempt reports => Reports.legal reports) first
  cases stoppedHead : stopped.head with
  | done value =>
    rw [Prog.head_retried_done stoppedHead] at asked
    cases asked
  | request stoppedOp stoppedNext =>
    have same := Prog.head_retried_request stoppedHead
    rw [same] at asked
    cases asked
    simp only [untold]
    exact ⟨_, same⟩

theorem Tries.repeats {again : Op} {next : Attempt again.Res → Prog requests.attempts Exit}
    (requested : rest.head = .request again next) : again = op := by
  obtain ⟨_, same⟩ := tries.head_of_untold untold
  rw [same] at requested
  cases requested
  rfl

end

section

variable (tries : Tries digest order input trace rest)

include tries

/-- A deployment which the workflow has not ended goes on, unless it completes the schedule. -/
theorem Tries.ongoing {service : String}
    (since : Since (DeploysService service) CompletesSchedule (told trace)) :
    (∃ request, Ongoing trace request ∧ request.service = service) ∨
      ∀ op next, rest.head = .request op next →
        ∃ runID stepID failed, op = .completeSchedule runID stepID failed := by
  induction trace using List.reverseRecOn generalizing rest with
  | nil => exact absurd since not_since_nil
  | append_singleton before event ih =>
    obtain ⟨op, attempt⟩ := event
    obtain ⟨⟨⟩, previous, follow, first, asked, -, rfl⟩ := tries.last
    -- a request other than a completion does not end the deployment
    have goesOn : Since (DeploysService service) CompletesSchedule (told before) →
        (∀ runID stepID failed, op ≠ .completeSchedule runID stepID failed) →
        ∃ request, Ongoing (before ++ [⟨op, attempt⟩]) request ∧ request.service = service := by
      intro earlier other
      rcases ih first earlier with ⟨request, ongoing, same⟩ | completing
      · refine ⟨request, since_append.mpr (Or.inl ⟨ongoing, ?_⟩), same⟩
        cases op with
        | completeSchedule runID stepID failed => exact absurd rfl (other runID stepID failed)
        | _ => exact id
      · obtain ⟨runID, stepID, failed, same⟩ := completing _ _ asked
        exact absurd same (other runID stepID failed)
    cases outcome : attempt.told with
    | none =>
      rw [told_append_none _ outcome] at since
      cases op with
      | completeSchedule runID stepID failed =>
        exact Or.inr fun op next requested => ⟨_, _, _, tries.repeats outcome requested⟩
      | _ => exact Or.inl (goesOn since nofun)
    | some answer =>
      rw [told_append_some _ outcome] at since
      rcases since_append.mp since with ⟨earlier, uncompleted⟩ | ⟨request, _, same, named⟩
      · refine Or.inl (goesOn earlier ?_)
        rintro runID stepID failed rfl
        exact uncompleted trivial
      · cases same
        exact Or.inl ⟨request, since_append.mpr (Or.inr ⟨attempt, rfl⟩), named⟩

/-- Verifications and rollbacks are part of the deployment. -/
theorem Tries.ongoing_of_verify {deployment : Deployment}
    {next : Attempt (Op.verify deployment).Res → Prog requests.attempts Exit}
    (requested : rest.head = .request (.verify deployment) next) :
    ∃ request, Ongoing trace request := by
  obtain ⟨location, reached, asks⟩ := location_of_tries tries requested
  have deployed : ∃ service, service ∈ location.deployed input := by
    cases location with
    | verifying | rollbackVerifying => exact ⟨_, rfl⟩
    | store =>
      obtain ⟨_, _, impossible⟩ := asks
      cases impossible
    | _ => cases asks
  obtain ⟨service, member⟩ := deployed
  rcases tries.ongoing (reached.deployed member) with ⟨request, ongoing, -⟩ | completing
  · exact ⟨request, ongoing⟩
  · obtain ⟨_, _, _, impossible⟩ := completing _ _ requested
    cases impossible

theorem Tries.ongoing_of_rollback {rollback : RollbackInput}
    {next : Attempt (Op.rollback rollback).Res → Prog requests.attempts Exit}
    (requested : rest.head = .request (.rollback rollback) next) :
    ∃ request, Ongoing trace request ∧ request.service = rollback.deploy.service := by
  obtain ⟨location, reached, asks⟩ := location_of_tries tries requested
  have deployed : rollback.deploy.service ∈ location.deployed input := by
    cases location with
    | rollingBack index run step input reason =>
      cases asks
      obtain ⟨original, found, same⟩ := reached.step rfl
      obtain ⟨again, foundAgain, request⟩ := reached.deployInput rfl
      rw [found] at foundAgain
      cases foundAgain
      rw [request]
      exact congrArg (fun step => some step.service) same
    | store =>
      obtain ⟨_, _, impossible⟩ := asks
      cases impossible
    | _ => cases asks
  rcases tries.ongoing (reached.deployed deployed) with found | completing
  · exact found
  · obtain ⟨_, _, _, impossible⟩ := completing _ _ requested
    cases impossible

end

/--
How the schedule which the attempts have taken relates to the one which the
workflow holds. They differ only while the workflow waits to be told the outcome
of an attempt which has run, or has returned without being told it.
-/
inductive Aware (input : ReleaseRun) (trace : List (Event requests.attempts))
    (rest : Prog requests.attempts Exit) : Prop where
  | settled (same : taken trace = held (told trace))
      (window : ∀ request, Ongoing trace request → ∃ step, taken trace = some step ∧
        Represents input request.service step)
  | acquiring {step : Scheduler.Step} (idle : held (told trace) = none)
      (closed : ∀ request, ¬Ongoing trace request) (took : taken trace = some step)
      (again : ∀ op next, rest.head = .request op next → ∃ runID, op = .acquireSchedule runID step)
  | completing (released : taken trace = none) (closed : ∀ request, ¬Ongoing trace request)
      (again : ∀ op next, rest.head = .request op next →
        ∃ runID stepID failed, op = .completeSchedule runID stepID failed)

theorem Aware.closed (aware : Aware input trace rest) (idle : held (told trace) = none) :
    ∀ request, ¬Ongoing trace request := by
  cases aware with
  | settled same window =>
    intro request ongoing
    obtain ⟨step, took, -⟩ := window request ongoing
    rw [same, idle] at took
    cases took
  | acquiring _ closed | completing _ closed => exact closed

/-- After a failure to acquire or to complete a schedule, the workflow makes no request. -/
theorem Tries.ended {answer : op.Res}
    (tries : Tries digest order input (trace ++ [⟨op, attempt⟩]) rest)
    (answered : attempt.told = some answer)
    (failed : ∀ location next, Moves digest order input.steps.length location ⟨op, answer⟩ next →
      next.isFinished = true) {later : Op}
    {next : Attempt later.Res → Prog requests.attempts Exit} : rest.head ≠ .request later next := by
  intro requested
  obtain ⟨location, reached, asks⟩ := location_of_tries tries requested
  rw [told_append_some _ answered] at reached
  obtain ⟨before, -, moves⟩ := reached.last
  have finished := failed before location moves
  cases location with
  | finished exit => exact asks
  | _ => cases finished

variable {stepID : String} {failed : Bool}
  {next : Attempt (Op.completeSchedule runID stepID failed).Res → Prog requests.attempts Exit}

section

variable (aware : Aware input trace previous)

include aware

theorem Aware.taken_of_acquire {step : Scheduler.Step}
    {next : Attempt (Op.acquireSchedule runID step).Res → Prog requests.attempts Exit}
    (asked : previous.head = .request (.acquireSchedule runID step) next)
    (idle : held (told trace) = none) : taken trace = none ∨ taken trace = some step := by
  cases aware with
  | settled same => exact Or.inl (by rw [same, idle])
  | acquiring _ _ took again =>
    obtain ⟨_, same⟩ := again _ _ asked
    cases same
    exact Or.inr took
  | completing released => exact Or.inl released

theorem Aware.taken_of_complete {step : Scheduler.Step}
    (asked : previous.head = .request (.completeSchedule runID stepID failed) next)
    (holds : held (told trace) = some step) : taken trace = none ∨ taken trace = some step := by
  cases aware with
  | settled same => exact Or.inr (by rw [same, holds])
  | acquiring _ _ _ again =>
    obtain ⟨_, same⟩ := again _ _ asked
    cases same
  | completing released => exact Or.inl released

theorem Aware.acquire {step : Scheduler.Step}
    {attempt : Attempt (Op.acquireSchedule runID step).Res}
    {next : Attempt (Op.acquireSchedule runID step).Res → Prog requests.attempts Exit}
    (asked : previous.head = .request (.acquireSchedule runID step) next)
    (reports : Reports (.acquireSchedule runID step) attempt) (idle : held (told trace) = none)
    (granted : ∀ result, attempt.ran = some (.ok result) → taken trace ≠ none →
      result.allowed = true)
    (tries : Tries digest order input (trace ++ [⟨.acquireSchedule runID step, attempt⟩]) rest) :
    Aware input (trace ++ [⟨.acquireSchedule runID step, attempt⟩]) rest := by
  have closed : ∀ request,
      ¬Ongoing (trace ++ [⟨.acquireSchedule runID step, attempt⟩]) request := by
    intro request ongoing
    rcases since_append.mp ongoing with ⟨earlier, -⟩ | ⟨_, same⟩
    · exact aware.closed idle request earlier
    · cases same
  have before := aware.taken_of_acquire asked idle
  have after : taken (trace ++ [⟨.acquireSchedule runID step, attempt⟩]) = none ∨
      taken (trace ++ [⟨.acquireSchedule runID step, attempt⟩]) = some step := by
    cases change : attemptChange ⟨.acquireSchedule runID step, attempt⟩ with
    | none => rwa [taken_append_none change]
    | some took =>
      rw [taken_append_some change]
      unfold attemptChange at change
      split at change
      · next eq =>
        cases eq
        split at change <;> cases change
        exact Or.inr rfl
      · next eq => cases eq
      · cases change
  -- the workflow does not know about an attempt which it was not told
  have unaware : held (told (trace ++ [⟨.acquireSchedule runID step, attempt⟩])) = none →
      (∀ op next, rest.head = .request op next → op = .acquireSchedule runID step) →
      Aware input (trace ++ [⟨.acquireSchedule runID step, attempt⟩]) rest := by
    intro idleAfter again
    rcases after with none | took
    · exact .settled (by rw [none, idleAfter]) (fun _ ongoing => absurd ongoing (closed _))
    · exact .acquiring idleAfter closed took fun op next requested =>
        ⟨runID, again op next requested⟩
  cases outcome : attempt.told with
  | none =>
    refine unaware (by rw [told_append_none _ outcome, idle]) fun op next requested => ?_
    exact tries.repeats outcome requested
  | some answer =>
    have heldAfter : held (told (trace ++ [⟨.acquireSchedule runID step, attempt⟩])) =
        (scheduleChange ⟨.acquireSchedule runID step, answer⟩).getD none := by
      rw [told_append_some _ outcome]
      cases change : scheduleChange ⟨.acquireSchedule runID step, answer⟩ with
      | none => rw [held_append_none change, idle]; rfl
      | some took => rw [held_append_some change]; rfl
    cases answer with
    | error failure =>
      refine unaware heldAfter fun op next requested => absurd requested ?_
      refine tries.ended outcome ?_
      intro location next moves
      cases moves
      rfl
    | ok result =>
      have ran : attempt.ran = some (.ok result) :=
        (reports.truthful _ outcome).resolve_right nofun
      cases allowed : result.allowed with
      | true =>
        have changed : attemptChange ⟨.acquireSchedule runID step, attempt⟩ =
            some (some step) := by
          obtain ⟨_, _⟩ := attempt
          cases ran
          simp [attemptChange, allowed]
        refine .settled ?_ (fun _ ongoing => absurd ongoing (closed _))
        rw [taken_append_some changed, heldAfter]
        simp [scheduleChange, allowed]
      | false =>
        have idleBefore : taken trace = none := by
          by_contra took
          rw [granted result ran took] at allowed
          cases allowed
        have quiet : attemptChange ⟨.acquireSchedule runID step, attempt⟩ = none := by
          obtain ⟨_, _⟩ := attempt
          cases ran
          simp [attemptChange, allowed]
        refine .settled ?_ (fun _ ongoing => absurd ongoing (closed _))
        rw [taken_append_none quiet, idleBefore, heldAfter]
        simp [scheduleChange, allowed]

theorem Aware.complete {attempt : Attempt (Op.completeSchedule runID stepID failed).Res}
    (asked : previous.head = .request (.completeSchedule runID stepID failed) next)
    (reports : Reports (.completeSchedule runID stepID failed) attempt)
    (tries : Tries digest order input (trace ++ [⟨.completeSchedule runID stepID failed, attempt⟩])
      rest) : Aware input (trace ++ [⟨.completeSchedule runID stepID failed, attempt⟩]) rest := by
  -- unless it is told that the schedule was completed, the workflow makes no other request
  have again : attempt.told ≠ some (.ok ()) → ∀ op next, rest.head = .request op next →
      ∃ runID stepID failed, op = .completeSchedule runID stepID failed := by
    intro uncertain op next requested
    cases outcome : attempt.told with
    | none => exact ⟨_, _, _, tries.repeats outcome requested⟩
    | some answer =>
      cases answer with
      | ok => exact absurd outcome uncertain
      | error failure =>
        refine absurd requested (tries.ended outcome ?_)
        intro location next moves
        cases moves
        rfl
  have unchanged : attempt.told ≠ some (.ok ()) →
      held (told (trace ++ [⟨.completeSchedule runID stepID failed, attempt⟩])) =
        held (told trace) := by
    intro uncertain
    cases outcome : attempt.told with
    | none => rw [told_append_none _ outcome]
    | some answer =>
      cases answer with
      | ok => exact absurd outcome uncertain
      | error failure => rw [told_append_some _ outcome, held_append_none rfl]
  obtain ⟨ran, outcome⟩ := attempt
  cases ran with
  | some result =>
    have closed : ∀ request, ¬Ongoing
        (trace ++ [⟨.completeSchedule runID stepID failed, ⟨some result, outcome⟩⟩]) request := by
      intro request ongoing
      rcases since_append.mp ongoing with ⟨-, uncompleted⟩ | ⟨_, same⟩
      · exact uncompleted trivial
      · cases same
    by_cases certain : outcome = some (.ok ())
    · refine .settled ?_ (fun _ ongoing => absurd ongoing (closed _))
      rw [taken_append_some rfl, told_append_some _ certain, held_append_some rfl]
    · exact .completing (taken_append_some rfl) closed (again certain)
  | none =>
    have uncertain : outcome ≠ some (.ok ()) := by
      intro certain
      rcases reports.truthful _ certain with ran | fails
      · cases ran
      · exact fails
    have earlier : ∀ request, Ongoing
        (trace ++ [⟨.completeSchedule runID stepID failed, ⟨none, outcome⟩⟩]) request →
        Ongoing trace request := by
      intro request ongoing
      rcases since_append.mp ongoing with ⟨earlier, -⟩ | ⟨_, same⟩
      · exact earlier
      · cases same
    cases aware with
    | settled same window =>
      refine .settled ?_ ?_
      · rw [taken_append_none rfl, unchanged uncertain, same]
      · intro request ongoing
        rw [taken_append_none rfl]
        exact window request (earlier request ongoing)
    | acquiring _ _ _ again =>
      obtain ⟨_, same⟩ := again _ _ asked
      cases same
    | completing released closed =>
      refine .completing ?_ ?_ (again uncertain)
      · rw [taken_append_none rfl, released]
      · exact fun request ongoing => closed request (earlier request ongoing)

/-- A workflow which makes another request knows what it holds. -/
theorem Aware.same {next : Attempt op.Res → Prog requests.attempts Exit}
    (asked : previous.head = .request op next)
    (other : (∀ runID step, op ≠ .acquireSchedule runID step) ∧
      ∀ runID stepID failed, op ≠ .completeSchedule runID stepID failed) :
    taken trace = held (told trace) ∧ ∀ request, Ongoing trace request → ∃ step,
      taken trace = some step ∧ Represents input request.service step := by
  cases aware with
  | settled same window => exact ⟨same, window⟩
  | acquiring _ _ _ again =>
    obtain ⟨runID, same⟩ := again _ _ asked
    exact absurd same (other.1 _ _)
  | completing _ _ again =>
    obtain ⟨runID, stepID, failed, same⟩ := again _ _ asked
    exact absurd same (other.2 _ _ _)

end

theorem held_told_append (attempt : Attempt op.Res)
    (quiet : ∀ answer, scheduleChange ⟨op, answer⟩ = none) :
    held (told (trace ++ [⟨op, attempt⟩])) = held (told trace) := by
  cases outcome : attempt.told with
  | none => rw [told_append_none _ outcome]
  | some answer => rw [told_append_some _ outcome, held_append_none (quiet answer)]

theorem Aware.step (aware : ∀ rest, Tries digest order input trace rest → Aware input trace rest)
    (granted : ∀ runID step result answer,
      (⟨op, attempt⟩ : Event requests.attempts) =
        ⟨.acquireSchedule runID step, ⟨some (.ok result), answer⟩⟩ →
      taken trace ≠ none → result.allowed = true)
    (tries : Tries digest order input (trace ++ [⟨op, attempt⟩]) rest) :
    Aware input (trace ++ [⟨op, attempt⟩]) rest := by
  obtain ⟨⟨⟩, previous, next, first, asked, reports, rfl⟩ := tries.last
  obtain ⟨location, reached, asks⟩ := location_of_tries first asked
  have scheduling := scheduling_of_asks reached asks
  have before := aware previous first
  cases op with
  | acquireSchedule runID step =>
    refine before.acquire asked reports scheduling.2 ?_ tries
    intro result ran
    obtain ⟨_, answer⟩ := attempt
    cases ran
    exact granted runID step result answer rfl
  | completeSchedule runID stepID failed => exact before.complete asked reports tries
  | deploy request =>
    obtain ⟨same, window⟩ := before.same asked ⟨nofun, nofun⟩
    obtain ⟨step, holds, represents⟩ := scheduling
    have took : taken (trace ++ [⟨.deploy request, attempt⟩]) = some step := by
      rw [taken_append_none rfl, same, holds]
    refine .settled ?_ ?_
    · rw [took, held_told_append attempt fun _ => rfl, holds]
    · intro other ongoing
      rcases since_append.mp ongoing with ⟨earlier, -⟩ | ⟨_, again⟩
      · rw [taken_append_none rfl]
        exact window other earlier
      · cases again
        exact ⟨step, took, represents⟩
  | _ =>
    obtain ⟨same, window⟩ := before.same asked ⟨nofun, nofun⟩
    refine .settled ?_ ?_
    · rw [taken_append_none rfl, held_told_append attempt fun _ => rfl, same]
    · intro request ongoing
      rw [taken_append_none rfl]
      rcases since_append.mp ongoing with ⟨earlier, -⟩ | ⟨_, again⟩
      · exact window request earlier
      · cases again

end Themisy.Workflow.Release
