import Themisy.Workflow.Rehearsal
import Themisy.Workflow.Simulation

/-!
# The shapes of finished releases

A release whose steps are all pending at the start returns a run of one of the
final shapes, and has stored it. A rollback which has failed, or was not verified
to pass, has escalated the run.
-/

namespace Themisy.Workflow.Release

open Domain Interaction Planning

def Op.isRollback : Op → Bool
  | rollback _ => true
  | _ => false

/-- A rollback has failed, or a verification after a rollback has failed or did not pass. -/
inductive RollbackFailed : History → Prop where
  | rollback (history : History) (input : RollbackInput) (failure : ActivityFailure) :
      RollbackFailed (history ++ [⟨.rollback input, .error failure⟩])
  | verify {history : History} {input : RollbackInput} {result : RollbackResult}
      {deployment : Deployment} {answer : Except ActivityFailure VerificationResult}
      (rolledBack : (⟨.rollback input, .ok result⟩ : Event requests) ∈ history)
      (failed : ∀ verification, answer = .ok verification → verification.outcome ≠ .pass) :
      RollbackFailed (history ++ [⟨.verify deployment, answer⟩])
  | later {history : History} (failed : RollbackFailed history)
      (event : Event requests) : RollbackFailed (history ++ [event])

/-- Nothing was rolled back. -/
def Unrolled (history : History) : Prop :=
  ∀ event ∈ history, event.1.isRollback = false

variable {digest : Digest} {order : StepOrder} {total : ℕ} {input run : ReleaseRun} {goal : Goal}
  {history : History} {location next : Location} {event : Event requests}

theorem Unrolled.append (unrolled : Unrolled history) (other : event.1.isRollback = false) :
    Unrolled (history ++ [event]) := by
  intro later member
  rcases List.mem_append.mp member with earlier | last
  · exact unrolled later earlier
  · rw [List.mem_singleton.mp last]
    exact other

theorem rollbackFailed_append (failed : RollbackFailed (history ++ [event])) :
    RollbackFailed history ∨ (∃ input failure, event = ⟨.rollback input, .error failure⟩) ∨
      ∃ deployment answer, event = ⟨.verify deployment, answer⟩ ∧ ¬Unrolled history ∧
        ∀ verification, answer = .ok verification → verification.outcome ≠ .pass := by
  generalize whole : history ++ [event] = longer at failed
  cases failed with
  | rollback earlier input failure =>
    obtain ⟨-, same⟩ := List.append_inj' whole rfl
    cases same
    exact Or.inr (Or.inl ⟨input, failure, rfl⟩)
  | verify rolledBack failed =>
    obtain ⟨rfl, same⟩ := List.append_inj' whole rfl
    cases same
    refine Or.inr (Or.inr ⟨_, _, rfl, fun unrolled => ?_, failed⟩)
    cases unrolled _ rolledBack
  | later failed =>
    obtain ⟨rfl, -⟩ := List.append_inj' whole rfl
    exact Or.inl failed

theorem Unrolled.not_failed (unrolled : Unrolled history) : ¬RollbackFailed history := by
  intro failed
  induction failed with
  | rollback => cases unrolled _ (List.mem_append_right _ List.mem_cons_self)
  | verify rolledBack => cases unrolled _ (List.mem_append_left _ rolledBack)
  | later _ event ih =>
    exact ih fun earlier member => unrolled earlier (List.mem_append_left _ member)

theorem rollbackFailed_of_append (failed : RollbackFailed (history ++ [event]))
    (other : event.1.isRollback = false ∧ ∀ deployment, event.1 ≠ .verify deployment) :
    RollbackFailed history := by
  rcases rollbackFailed_append failed with earlier | ⟨_, _, rfl⟩ | ⟨_, _, rfl, -, -⟩
  · exact earlier
  · cases other.1
  · exact absurd rfl (other.2 _)

/-- What a failed rollback means for a run which is persisted with a goal. -/
def Goal.Escalates (history : History) (run : ReleaseRun) : Goal → Prop
  | finish => RollbackFailed history → run.status = .escalated
  | _ => Unrolled history

/-- A rollback which has failed leads to an escalation. -/
def Location.Escalates (history : History) : Location → Prop
  | stamp goal run | store goal run | completing goal run _ _ => goal.Escalates history run
  | rollbackObserving _ _ _ _ _ | rollbackVerifying _ _ _ _ _ => ¬RollbackFailed history
  | rollbackChecking _ _ _ result _ => RollbackFailed history → result.outcome ≠ .pass
  | finished (.ok run) => RollbackFailed history → run.status = .escalated
  | finished (.error _) => True
  | _ => Unrolled history

theorem Location.Opening.escalates (opening : location.Opening) (unrolled : Unrolled history) :
    location.Escalates history := by
  cases opening with
  | finish => exact fun failed => absurd failed unrolled.not_failed
  | poll | evaluate => exact unrolled
  | panic => trivial

theorem Stores.escalates (stores : Stores order total goal run location)
    (escalates : goal.Escalates history run) : location.Escalates history := by
  cases stores with
  | begin | succeed => exact opening_enter.escalates escalates
  | resumePoll _ begins => exact begins.opening.escalates escalates
  | deny | resumeCancelled => exact fun failed => absurd failed (Unrolled.not_failed escalates)
  | beginFailed | missing => trivial
  | _ => exact escalates

theorem Goal.Escalates.append {later : ReleaseRun} (escalates : goal.Escalates history run)
    (status : later.status = run.status)
    (other : event.1.isRollback = false ∧ ∀ deployment, event.1 ≠ .verify deployment) :
    goal.Escalates (history ++ [event]) later := by
  cases goal with
  | finish =>
    intro failed
    rw [status]
    exact escalates (rollbackFailed_of_append failed other)
  | _ => exact Unrolled.append escalates other.1

theorem Moves.escalates (moves : Moves digest order total location event next)
    (escalates : location.Escalates history) : next.Escalates (history ++ [event]) := by
  cases moves with
  | stamp => exact Goal.Escalates.append escalates rfl ⟨rfl, nofun⟩
  | stored _ _ stores =>
    exact stores.escalates (Goal.Escalates.append escalates rfl ⟨rfl, nofun⟩)
  | completed => exact Goal.Escalates.append escalates rfl ⟨rfl, nofun⟩
  | begins begins => exact begins.opening.escalates (Unrolled.append escalates rfl)
  | rollbackFailed | rollbackVerifyFailed | rollbackRejected => exact fun _ => rfl
  | rolledBack =>
    intro failed
    rcases rollbackFailed_append failed with earlier | ⟨_, _, same⟩ | ⟨_, _, same, -, -⟩
    · exact Unrolled.not_failed escalates earlier
    · cases same
    · cases same
  | rollbackObserved => exact fun failed => escalates (rollbackFailed_of_append failed ⟨rfl, nofun⟩)
  | rollbackVerified =>
    intro failed
    rcases rollbackFailed_append failed with earlier | ⟨_, _, same⟩ | ⟨_, _, same, -, rejected⟩
    · exact absurd earlier escalates
    · cases same
    · cases same
      exact rejected _ rfl
  | rollbackPassed _ pass =>
    exact fun failed => absurd pass (escalates (rollbackFailed_of_append failed ⟨rfl, nofun⟩))
  | storeFailed | evaluateFailed | requestMissing | waitMissing | acquireFailed | completeFailed
  | observeFailed | rollbackObserveFailed => trivial
  | _ =>
    first
    | exact Unrolled.append escalates rfl
    | exact fun failed => absurd failed (Unrolled.append escalates rfl).not_failed

theorem Reaches.escalates {input : ReleaseRun}
    (reached : Reaches digest order total input history location) :
    location.Escalates history := by
  induction reached with
  | start => exact fun event member => absurd member List.not_mem_nil
  | move _ moves ih => exact moves.escalates ih

/--
The store while a release runs. `PersistRun` may have been tried before, and other
calls interleave with it; nothing else changes the stored run of the release.
-/
def RecordEffect (id : String) (memory : Store.Memory) : (op : Op) → op.Res → Store.Memory → Prop
  | .persistRun input, .ok run, next => ∃ before events,
      Runs Activities.sharedStore before (Activities.persistRun input) events next (.pure (.ok run))
  | .persistRun _, .error _, _ => True
  | _, _, next => next.runs.get? id = memory.runs.get? id

/-- The requests of one release are answered by activities over a store. -/
def recorded (id : String) : Machine requests where
  World := Store.Memory
  answers := RecordEffect id

theorem legal_of_recorded {id : String} (memory : Store.Memory) (op : Op) (answer : op.Res)
    (next : Store.Memory) (effect : (recorded id).answers memory op answer next) :
    Legal op answer := by
  cases op with
  | persistRun input =>
    cases answer with
    | ok run =>
      obtain ⟨before, events, ran⟩ := effect
      exact legal_of_runs ran
    | error failure => trivial
  | _ => trivial

theorem enter_ne_finished (total index : ℕ) (run : ReleaseRun) (exit : Exit) :
    enter total index run ≠ .finished exit := by
  unfold enter
  split <;> nofun

theorem Begins.not_returned {index : ℕ} {current : ReleaseRun} :
    ¬Begins total index current (.finished (.ok run)) := by
  intro begins
  generalize ended : Location.finished (.ok run) = location at begins
  cases begins with
  | done => exact enter_ne_finished _ _ _ _ ended.symm
  | unmet | evaluate | missing => cases ended

theorem Stores.eq_of_returned {goal : Goal} {stored : ReleaseRun}
    (stores : Stores order total goal stored (.finished (.ok run))) : run = stored := by
  generalize ended : Location.finished (.ok run) = location at stores
  cases stores with
  | begin | succeed => exact absurd ended.symm (enter_ne_finished _ _ _ _)
  | resumePoll _ begins =>
    subst ended
    exact absurd begins Begins.not_returned
  | finish | resumeCancelled =>
    cases ended
    rfl
  | _ => cases ended

theorem persisted_of_finished
    (reached : Reaches digest order total input history (.finished (.ok run))) :
    ∃ before persist, history = before ++ [⟨.persistRun persist, .ok run⟩] := by
  generalize ended : Location.finished (.ok run) = location at reached
  cases reached with
  | start => cases ended
  | @move before location _ event reached moves =>
    subst ended
    cases moves with
    | stored audits eventType stores =>
      rw [stores.eq_of_returned]
      exact ⟨before, _, rfl⟩
    | begins begins => exact absurd begins Begins.not_returned

/--
A release whose steps are all pending at the start and which returns a run has
stored it. The run has one of the final shapes, the deployments were those of its
first steps and ended at the step which it has stopped at, and a rollback which
has failed or was not verified to pass has escalated it.
-/
theorem shape_of_returned (pending : ∀ step ∈ input.steps, step.status = .pending)
    {memory last : Store.Memory} {events : History}
    (ran : Runs (recorded input.id) memory (releaseWorkflow digest order input) events last
      (.pure (.ok run))) :
    last.runs.get? run.id = some run ∧ runOutline run = runOutline input ∧
      (∃ deployed, Final input.steps.length deployed run.status (statuses run) ∧
        deployments events = (input.steps.take deployed).map (deployInput input)) ∧
      (RollbackFailed events → run.status = .escalated) := by
  have reached := (releaseWorkflow_follows legal_of_recorded ran).1 _ rfl
  obtain ⟨fits, first⟩ := reached.fits pending
  refine ⟨?_, reached.outline run rfl, ⟨_, fits, first⟩, reached.escalates⟩
  obtain ⟨before, persist, rfl⟩ := persisted_of_finished reached
  obtain ⟨middle, _, _, -, -, answered, -⟩ := ran.last
  obtain ⟨_, _, ranPersist⟩ := answered
  exact Activities.stored_of_runs ranPersist

/-- The verification of a deployment fails, and so does its rollback. -/
def failedRelease : Strategy requests Store.Memory
  | memory, .persistRun input =>
    match play (Activities.cooperate default) 20 memory (Activities.persistRun input) with
    | (_, next, .pure (.ok run)) => (.ok run, next)
    | _ => (.error ⟨"store unavailable"⟩, memory)
  | memory, .verify _ => (.ok { (default : VerificationResult) with status := .fail }, memory)
  | memory, .rollback _ => (.error ⟨"adapter unavailable"⟩, memory)
  | memory, op => (smooth op, memory)

theorem failedRelease_recorded (id : String) (memory : Store.Memory) (op : Op) :
    (recorded id).answers memory op (failedRelease memory op).1 (failedRelease memory op).2 := by
  cases op with
  | persistRun input =>
    have allowed : ∀ memory op, Activities.sharedStore.answers memory op
        (Activities.cooperate default memory op).1 (Activities.cooperate default memory op).2 :=
      Activities.storeEffect_cooperate default
    have ran : ∀ played, play (Activities.cooperate default) 20 memory
        (Activities.persistRun input) = played → Runs Activities.sharedStore memory
          (Activities.persistRun input) played.1 played.2.1 played.2.2 := by
      rintro _ rfl
      exact runs_play allowed 20 memory (Activities.persistRun input)
    simp only [failedRelease]
    split
    · next events next run played => exact ⟨memory, events, ran _ played⟩
    · trivial
  | _ => rfl

/-- The first of two steps is escalated and the second one is cancelled. -/
theorem shape_of_returned_escalated :
    ∃ plan events last run,
      let input := runOf ["web", "api"] plan
      Plans catalog ["web", "api"] plan ∧
      Runs (recorded "run") (Store.newMemory.replaceRun input)
        (releaseWorkflow default .stored input) events last (.pure (.ok run)) ∧
      last.runs.get? run.id = some run ∧ run.status = .escalated ∧
      statuses run = [.escalated, .cancelled] ∧
      (deployments events).map DeployInput.service = ["api"] := by
  let played (plan : ReleasePlan) :=
    play failedRelease 40 (Store.newMemory.replaceRun (runOf ["web", "api"] plan))
      (rehearsal ["web", "api"] plan)
  have evaluated : rehearse catalog ["web", "api"] (fun plan =>
      (ended (fun run => (run.status, statuses run)) (played plan).2.2,
        (deployments (played plan).1).map DeployInput.service)) =
        .ok (some (.escalated, [.escalated, .cancelled]), ["api"]) := by
    decide +kernel
  obtain ⟨plan, plans, reached⟩ := exists_of_rehearse evaluated
  obtain ⟨finished, deployed⟩ := Prod.mk.inj reached
  obtain ⟨run, returned, shape⟩ := exists_of_ended finished
  have ran : Runs (recorded "run") (Store.newMemory.replaceRun (runOf ["web", "api"] plan))
      (rehearsal ["web", "api"] plan) (played plan).1
      (played plan).2.1 (.pure (.ok run)) := by
    rw [← returned]
    exact runs_play (failedRelease_recorded "run") 40 _ _
  have pending : ∀ step ∈ (runOf ["web", "api"] plan).steps, step.status = .pending := by
    intro step member
    obtain ⟨_, _, _, _, rfl⟩ := Application.exists_planned_of_mem_newSteps member
    rfl
  obtain ⟨status, steps⟩ := Prod.mk.inj shape
  exact ⟨plan, _, _, run, plans, ran, (shape_of_returned pending ran).1, status, steps, deployed⟩

end Themisy.Workflow.Release
