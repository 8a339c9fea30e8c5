import Themisy.Workflow.Statuses
import Themisy.Workflow.WaveOrder

/-!
# The workflow follows the state machine

Every execution of the release workflow is a path of the state machine of `Locations`:
whatever the activities answer and whichever signals arrive, each request is one which
the machine may make, and what the workflow returns is what the machine finishes with.

When the steps of a release are those of a plan and are all pending at the start, the
workflow finds a dependency unmet exactly when it is listed after the step which has it.
-/

namespace Themisy.Workflow.Release

open Domain Interaction

/-- A release whose steps are those of its plan, and are all pending. -/
structure Unstarted (input : ReleaseRun) : Prop where
  planned : Planned input
  pending : ∀ step ∈ input.steps, step.status = .pending

/-- Every service of the release which the one at an index depends on is listed before it. -/
def Preceded (input : ReleaseRun) (index : ℕ) (service : String) : Prop :=
  ∀ planned ∈ input.plan.steps, planned.service = service →
    ∀ dependency ∈ planned.orderingDependencies,
      dependency ∈ input.steps.map ReleaseStep.service →
        dependency ∈ (input.steps.map ReleaseStep.service).take index

/-- What an unstarted release never requests: to block a step without need, or to evaluate
a step before its dependencies. -/
def Quiet (input : ReleaseRun) : Op → Prop
  | .persistRun persist => Unstarted input → DependenciesFirst input.plan →
      ∀ audit ∈ persist.audits, audit.action ≠ "dependency.block"
  | .evaluateStep _ step => Unstarted input →
      ∃ index, (input.steps.map ReleaseStep.service)[index]? = some step.service ∧
        Preceded input index step.service | _ => True
 /-- The listed services are those which have succeeded. -/
def Tracks (succeeded : GoMap String Bool) (services : List String) : Prop :=
  ∀ service, succeeded.find service false = true ↔ service ∈ services

variable {succeeded : GoMap String Bool} {step : ReleaseStep} {input run : ReleaseRun}
  {audits : List AuditIntent} {eventType : String} {goal : Goal} {index : ℕ}

theorem Tracks.set {services : List String} (tracks : Tracks succeeded services)
    (service : String) : Tracks (succeeded.set service true) (services ++ [service]) := by
  intro other
  rw [GoMap.find_set, List.mem_append, List.mem_singleton, ← tracks other]
  split
  · next same => simp [same]
  · next different => simp [different]

theorem Planned.preceded (planned : Planned input) (first : DependenciesFirst input.plan)
    {service : String} (listed : (input.steps.map ReleaseStep.service)[index]? = some service) :
    Preceded input index service := by
  intro source member named dependency needed selected
  rw [planned.services] at listed selected ⊢
  by_contra later
  rw [List.getElem?_map, Option.map_eq_some_iff] at listed
  obtain ⟨step, found, rfl⟩ := listed
  obtain rfl := List.inj_on_of_nodup_map planned.distinct member (List.mem_of_getElem? found) named
  have split : input.plan.steps = input.plan.steps.take index ++
      source :: input.plan.steps.drop (index + 1) := by
    rw [← List.singleton_append, ← Option.toList_some, ← found,
      ← List.drop_eq_getElem?_toList_append, List.take_append_drop]
  have ordered := first
  rw [DependenciesFirst, split, List.pairwise_append] at ordered
  rw [split, List.map_append, List.map_cons] at selected
  rw [← List.map_take] at later
  rcases List.mem_cons.mp ((List.mem_append.mp selected).resolve_left later) with same | after
  · exact planned.acyclic source.service (.single ⟨source, member, rfl, same ▸ needed,
      List.mem_map_of_mem member⟩)
  · obtain ⟨other, otherMem, rfl⟩ := List.mem_map.mp after
    exact (List.pairwise_cons.mp ordered.2.1).1 other otherMem needed

theorem unmetDependency_eq_none_iff (same : runOutline run = runOutline input)
    (tracks : Tracks succeeded ((input.steps.map ReleaseStep.service).take index)) :
    unmetDependency run.plan step.service (selectedServices input) succeeded = none ↔
      Preceded input index step.service := by
  have plan : run.plan = input.plan := (congrArg ReleaseRun.plan same :)
  simp only [unmetDependency, List.find?_eq_none, List.mem_flatMap, List.mem_filter,
    selectedServices, textSet_find, decide_eq_true_eq, tracks _, not_and, not_not, plan, Preceded]
  constructor
  · intro met source member named dependency needed
    exact met dependency ⟨source, ⟨member, named⟩, needed⟩
  · rintro preceded dependency ⟨source, ⟨member, named⟩, needed⟩
    exact preceded source member named dependency needed

/-- A release: its digest, the order in which it visits maps, and its input. -/
structure Setting where
  digest : Digest
  order : StepOrder
  input : ReleaseRun

namespace Setting

variable (release : Setting)

/-- The locations which a history of the release leads to. -/
abbrev Reaches : History → Location → Prop :=
  Release.Reaches release.digest release.order release.input.steps.length release.input

/-- Requests are made at the locations which the history reaches, and returns finish it. -/
abbrev Follows {α : Type} (post : α → History → Prop) (history : History) (program : Call α) :
    Prop :=
  Settles (S := requests) Legal
    (fun history op => (∃ location, release.Reaches history location ∧ location.Asks op) ∧
      Quiet release.input op)
    (fun exit history => release.Reaches history (.finished exit)) post history program

/-- The history continues wherever the workflow does with a persisted run. -/
def Continues (goal : Goal) (run : ReleaseRun) (history : History) : Prop :=
  ∀ location, Stores release.order release.input.steps.length goal run location →
    release.Reaches history location

def Ended (run : ReleaseRun) (history : History) : Prop :=
  run.status ≠ .running ∧ release.Reaches history (.finished (.ok run))

/-- Where the wait for an approval has led. -/
def Settled (index : ℕ) (run : ReleaseRun) (history : History) : Prop :=
  release.Ended run history ∨
    run.status = .running ∧ release.Continues (.approve index) run history

/-- The release is about to acquire the schedule of a step, if the run has the step. -/
def Acquiring (index : ℕ) (run : ReleaseRun) (history : History) : Prop :=
  (run.steps[index]? = none → release.Reaches history (.finished (.error .panic))) ∧
    ∀ step, run.steps[index]? = some step → release.Reaches history (.acquiring index run step)

/-- The deployment of a step has been answered, and recorded in the run. -/
def Deployed (index : ℕ) (recorded : ReleaseRun) (deploy : DeployInput) (result : DeployResult)
    (history : History) : Prop :=
  ∃ run step before, run.steps[index]? = some step ∧
    recorded = executedRun run index result.execution ∧ deploy = deployInput run step ∧
    release.Reaches before (.deploying index run step) ∧
    history = before ++ [⟨.deploy deploy, .ok result⟩]

end Setting

section Stages

variable {release : Setting} {run : ReleaseRun} {index : ℕ} {history : History}

namespace Follows

variable {α β : Type} {post : α → History → Prop}

theorem leave (finished : release.Reaches history (.finished (.ok run))) :
    release.Follows post history (Release.leave run) :=
  .throw finished

theorem activity {answer : Except ActivityFailure β} {follow : β → Call α}
    (fails : ∀ failure, answer = .error failure →
      release.Reaches history (.finished (.error (.activity failure))))
    (continues : ∀ value, answer = .ok value → release.Follows post history (follow value)) :
    release.Follows post history (Release.succeed answer >>= follow) := by
  cases answer with
  | error failure => exact .throw (fails failure rfl)
  | ok value => exact continues value rfl

theorem stepAt {follow : ReleaseStep → Call α} (missing : run.steps[index]? = none →
      release.Reaches history (.finished (.error .panic)))
    (continues : ∀ step, run.steps[index]? = some step →
      release.Follows post history (follow step)) :
    release.Follows post history (Release.stepAt run index >>= follow) := by
  unfold Release.stepAt
  split
  · next step found => exact continues step found
  · next none => exact .throw (missing none)

theorem persist (reached : release.Reaches history (.store goal run))
    (quiet : Quiet release.input (.persistRun ⟨run, audits, eventType⟩)) :
    release.Follows (fun next later => next = Activities.persisted run ∧
      release.Continues goal next later) history (Release.persist run audits eventType) := by
  have asked : Location.Asks (.store goal run) (.persistRun ⟨run, audits, eventType⟩) :=
    ⟨audits, eventType, rfl⟩
  refine .ask ⟨⟨_, reached, asked⟩, quiet⟩ fun answer legal => ?_
  cases answer with
  | error failure => exact .throw (reached.move (.storeFailed audits eventType failure))
  | ok stored =>
    obtain rfl : stored = Activities.persisted run := legal
    exact .pure ⟨rfl, fun location stores => reached.move (.stored audits eventType stores)⟩

theorem persistNow (reached : release.Reaches history (.stamp goal run))
    (quiet : Quiet release.input (.persistRun ⟨run, audits, eventType⟩)) :
    release.Follows (fun next later =>
      (∃ updatedAt, next = Activities.persisted { run with updatedAt }) ∧
        release.Continues goal next later) history (Release.persistNow run audits eventType) := by
  refine .ask ⟨⟨_, reached, rfl⟩, trivial⟩ fun updatedAt _ => ?_
  refine .mono (persist (reached.move (.stamp goal run updatedAt)) quiet) ?_
  rintro next later ⟨rfl, continues⟩
  exact ⟨⟨updatedAt, rfl⟩, continues⟩

theorem finish (reached : release.Reaches history (.stamp .finish run))
    (quiet : Quiet release.input (.persistRun ⟨run, audits, eventType⟩)) :
    release.Follows post history (Release.finish run audits eventType) := by
  refine .bind (persistNow reached quiet) ?_
  rintro next later ⟨-, continues⟩
  exact leave (continues _ (.finish next))

theorem completeScheduling {runID service : String} {failed : Bool} {follow : Unit → Call α}
    (reached : release.Reaches history (.completing goal run service failed))
    (same : runID = run.id) (continues : ∀ later, release.Reaches later (.stamp goal run) →
      release.Follows post later (follow ())) :
    release.Follows post history
      (Release.completeScheduling runID service failed >>= follow) := by
  subst same
  simp only [Release.completeScheduling, bind_assoc]
  refine .ask ⟨⟨_, reached, rfl⟩, trivial⟩ fun answer _ => activity ?_ ?_
  · rintro failure rfl
    exact reached.move (.completeFailed goal run service failed failure)
  · rintro ⟨⟩ rfl
    exact continues _ (reached.move (.completed goal run service failed))

end Follows

theorem cancelRun_follows {actor : String}
    (reached : release.Reaches history (.stamp .finish (cancelledRun run index))) :
    release.Follows release.Ended history (cancelRun run index actor) := by
  refine .mono (Follows.persistNow reached fun _ _ => by simp) ?_
  rintro next later ⟨⟨updatedAt, rfl⟩, continues⟩
  exact ⟨by simp [Activities.persisted], continues _ (.finish _)⟩

theorem waitForResume_follows {wait : Wait}
    (reached : release.Reaches history (.stamp (.pause wait index) (pausedRun run))) :
    release.Follows (fun next later =>
      (next.status = .cancelled ∧ release.Reaches later (.finished (.ok next))) ∨
      next.steps = run.steps ∧ release.Continues (.resume wait index) next later)
      history (waitForResume run index) := by
  refine .bind (Follows.persistNow reached fun _ _ => by simp) ?_
  rintro paused later ⟨⟨updatedAt, rfl⟩, continues⟩
  refine .repeatUntil (fun current history => current.steps = run.steps ∧
    release.Reaches history (.paused wait index current)) ?_ ?_
    ⟨rfl, continues _ (.pause wait index _)⟩
  · rintro current history ⟨-, reached⟩
    exact ⟨⟨_, reached, rfl⟩, trivial⟩
  · rintro current history (signal | signal) ⟨same, reached⟩ -
    · by_cases named : signal.actor ≠ ""
      · simp only [resumeOrCancel, if_pos named]
        refine .bind (Follows.persistNow (reached.move (.resumed named)) fun _ _ => by simp) ?_
        rintro next last ⟨⟨resumedAt, rfl⟩, continues⟩
        exact .pure (Or.inr ⟨same, continues⟩)
      · simp only [resumeOrCancel, if_neg named]
        exact .pure ⟨same, reached.move (.resumeIgnored (not_not.mp named))⟩
    · by_cases named : signal.actor ≠ ""
      · simp only [resumeOrCancel, if_pos named]
        refine .bind (Follows.persistNow (reached.move (.cancelled named)) fun _ _ => by simp) ?_
        rintro next last ⟨⟨cancelledAt, rfl⟩, continues⟩
        exact .pure (Or.inl ⟨rfl, continues _ (.finish _)⟩)
      · simp only [resumeOrCancel, if_neg named]
        exact .pure ⟨same, reached.move (.cancelIgnored (not_not.mp named))⟩

theorem decideApproval_follows {signal : ApprovalSignal}
    (reached : release.Reaches history (.deciding index run signal)) :
    release.Follows (release.Settled index) history (decideApproval run index signal) := by
  refine .ask ⟨⟨_, reached, rfl⟩, trivial⟩ fun decidedAt _ => ?_
  by_cases revoke : signal.effectiveAction = "revoke"
  · rw [if_pos revoke]
    refine .mono (Follows.persist (reached.move (.revoked decidedAt revoke))
      fun _ => by simp [decisionAudit]) ?_
    rintro next later ⟨rfl, continues⟩
    exact Or.inl ⟨nofun, continues _ (.finish _)⟩
  by_cases approve : signal.effectiveAction ≠ "approve"
  · rw [if_neg revoke, if_pos approve]
    refine .mono (Follows.persist (reached.move (.denied decidedAt ⟨revoke, approve⟩))
      fun _ => by simp [decisionAudit]) ?_
    rintro next later ⟨rfl, continues⟩
    exact Or.inl ⟨nofun, continues _ (.finish _)⟩
  · rw [if_neg revoke, if_neg approve]
    refine .mono (Follows.persist (reached.move (.approved decidedAt (not_not.mp approve)))
      fun _ => by simp [decisionAudit]) ?_
    rintro next later ⟨rfl, continues⟩
    exact Or.inr ⟨rfl, continues⟩

theorem awaitDecision_follows {now : Time}
    (reached : release.Reaches history (.waiting index run)) :
    release.Follows (fun outcome later =>
      match outcome with
      | .inl again => release.Reaches later (.waiting index again)
      | .inr next => release.Settled index next later)
      (history ++ [⟨.now, now⟩]) (awaitDecision index run now) := by
  have missing : (∀ step, run.steps[index]? = some step → step.approval = none) →
      release.Reaches (history ++ [⟨.now, now⟩]) (.finished (.error .panic)) :=
    fun none => reached.move (.waitMissing now none)
  simp only [awaitDecision, approvalAt, bind_assoc]
  refine Follows.stepAt (fun none => missing (by simp [none])) fun step found => ?_
  split
  · next approval carried =>
    have selecting := reached.move (.waits now found carried)
    refine .ask ⟨⟨_, selecting, rfl⟩, trivial⟩ fun event _ => ?_
    by_cases cancels : event.cancelSignal.actor ≠ ""
    · rw [if_pos cancels]
      cases event with
      | cancel signal =>
        refine .bind (cancelRun_follows (selecting.move (.selectCancelled cancels))) ?_
        exact fun next later ended => .pure (Or.inl ended)
      | approval signal | pause signal | expired => exact absurd rfl cancels
    by_cases pauses : event.pauseSignal.actor ≠ ""
    · rw [if_neg cancels, if_pos pauses]
      cases event with
      | pause signal =>
        refine .bind (waitForResume_follows (selecting.move (.selectPaused pauses))) ?_
        intro resumed later resumes
        by_cases cancelled : resumed.status = .cancelled
        · rw [if_pos cancelled]
          refine .pure (Or.inl ⟨by simp [cancelled], ?_⟩)
          rcases resumes with ⟨-, finished⟩ | ⟨-, continues⟩
          · exact finished
          · exact continues _ (.resumeCancelled cancelled)
        · rw [if_neg cancelled]
          rcases resumes with ⟨status, -⟩ | ⟨-, continues⟩
          · exact absurd status cancelled
          · exact .pure (continues _ (.resumeApproval cancelled))
      | approval signal | cancel signal | expired => exact absurd rfl pauses
    by_cases expired : event = .expired
    · subst expired
      rw [if_neg cancels, if_neg pauses, if_pos rfl]
      refine .bind (Follows.persistNow (selecting.move (.selectExpired _ _ _ _))
        fun _ _ => by simp) ?_
      rintro next later ⟨⟨updatedAt, rfl⟩, continues⟩
      exact .pure (Or.inl ⟨nofun, continues _ (.finish _)⟩)
    rw [if_neg cancels, if_neg pauses, if_neg expired]
    by_cases accepted : Accepted run.requestedBy approval event.signal
    · rw [if_pos accepted]
      cases event with
      | approval signal =>
        refine .bind (decideApproval_follows (selecting.move (.selectAccepted accepted))) ?_
        exact fun next later decided => .pure decided
      | pause signal | cancel signal => exact absurd rfl accepted.2.1
      | expired => exact absurd rfl expired
    · rw [if_neg accepted]
      exact .pure (selecting.move
        (.selectIgnored expired ⟨not_not.mp cancels, not_not.mp pauses⟩ accepted))
  · next none =>
    refine .throw (missing ?_)
    intro other foundOther
    rw [found] at foundOther
    cases foundOther
    exact none

variable {decision : PolicyDecision} {deploy : DeployInput}

theorem awaitApproval_follows (reached : release.Reaches history (.requesting index run decision)) :
    release.Follows (release.Settled index) history
      (awaitApproval release.digest run index decision) := by
  refine .ask ⟨⟨_, reached, rfl⟩, trivial⟩ fun now _ => Follows.stepAt ?_ fun step found => ?_
  · exact fun none => reached.move (.requestMissing decision now none)
  have requested := reached.move (.requested decision now found)
  refine .bind (Follows.persist requested fun _ _ => by simp) ?_
  rintro waiting later ⟨-, continues⟩
  refine .repeatUntil (fun run history =>
    release.Reaches history (.waiting index run)) ?_ ?_
    (continues _ (.await index waiting))
  · intro run history reached
    exact ⟨⟨_, reached, rfl⟩, trivial⟩
  · intro run history now reached _
    refine .mono (awaitDecision_follows reached) ?_
    rintro (again | next) later result
    · exact result
    · exact result

theorem pollSignals_follows (reached : release.Reaches history (.poll index run)) :
    release.Follows (fun next later => next.steps = run.steps ∧ ∀ location,
      Begins release.input.steps.length index next location → release.Reaches later location)
      history (pollSignals run index) := by
  refine .ask ⟨⟨_, reached, rfl⟩, trivial⟩ fun cancelled _ => ?_
  cases cancelled with
  | true =>
    refine .bind (cancelRun_follows (reached.move (.pollCancelled index run))) ?_
    exact fun next later ended => Follows.leave ended.2
  | false =>
    have polled := reached.move (.poll index run)
    refine .ask ⟨⟨_, polled, rfl⟩, trivial⟩ fun paused _ => ?_
    cases paused with
    | false => exact .pure ⟨rfl, fun location begins => polled.move (.begins begins)⟩
    | true =>
      refine .bind (waitForResume_follows (polled.move (.pollPaused index run))) ?_
      intro resumed later resumes
      by_cases cancelled : resumed.status = .cancelled
      · rw [if_pos cancelled]
        refine Follows.leave ?_
        rcases resumes with ⟨-, finished⟩ | ⟨-, continues⟩
        · exact finished
        · exact continues _ (.resumeCancelled cancelled)
      · rw [if_neg cancelled]
        rcases resumes with ⟨status, -⟩ | ⟨same, continues⟩
        · exact absurd status cancelled
        · exact .pure ⟨same, fun location begins => continues _ (.resumePoll cancelled begins)⟩

theorem evaluatePolicy_follows (reached : release.Reaches history (.evaluating index run step))
    (quiet : Quiet release.input (.evaluateStep run step)) :
    release.Follows (fun value later => value.2.decision ≠ .deny ∧
      release.Continues (.evaluate index value.2) value.1 later) history
      (evaluatePolicy run index step) := by
  refine .ask ⟨⟨_, reached, rfl⟩, quiet⟩ fun answer _ => Follows.activity ?_ ?_
  · rintro failure rfl
    exact reached.move (.evaluateFailed index run step failure)
  · rintro decision rfl
    refine .bind (Follows.persistNow (reached.move (.evaluated index run step decision))
      fun _ _ => by simp) ?_
    rintro next later ⟨-, continues⟩
    by_cases denied : decision.decision = .deny
    · rw [if_pos denied]
      exact Follows.finish (continues _ (.deny denied)) fun _ _ => by simp
    · rw [if_neg denied]
      exact .pure ⟨denied, continues⟩

theorem obtainApproval_follows (permitted : decision.decision ≠ .deny)
    (continues : release.Continues (.evaluate index decision) run history) :
    release.Follows (release.Acquiring index) history
      (obtainApproval release.digest run index decision) := by
  unfold obtainApproval
  by_cases required : decision.decision = .requireApproval
  · rw [if_pos required]
    refine .bind (awaitApproval_follows (continues _ (.request required))) ?_
    rintro approved later (⟨status, finished⟩ | ⟨status, continues⟩)
    · rw [if_pos status]
      exact Follows.leave finished
    · rw [if_neg (not_not.mpr status)]
      exact .pure ⟨fun none => continues _ (.missing rfl none),
        fun step found => continues _ (.approve found)⟩
  · rw [if_neg required]
    have allowed : decision.decision = .allow := by
      cases kind : decision.decision with
      | allow => rfl
      | deny => exact absurd kind permitted
      | requireApproval => exact absurd kind required
    exact .pure ⟨fun none => continues _ (.missing rfl none),
      fun step found => continues _ (.allow allowed found)⟩

theorem acquireSchedule_follows (reached : release.Acquiring index run history) :
    release.Follows (fun _ later => release.Reaches later
      (.stamp (.execute index) (markedRun run index .executing))) history
      (acquireSchedule run index) := by
  refine Follows.stepAt reached.1 fun step found => ?_
  have acquiring := reached.2 step found
  refine .ask ⟨⟨_, acquiring, rfl⟩, trivial⟩ fun answer _ => Follows.activity ?_ ?_
  · rintro failure rfl
    exact acquiring.move (.acquireFailed index run step failure)
  · rintro result rfl
    by_cases allowed : result.allowed = true
    · rw [if_pos allowed]
      exact .pure (acquiring.move (.acquired allowed))
    · rw [if_neg allowed]
      exact Follows.finish (acquiring.move (.backpressured (Bool.eq_false_iff.mpr allowed)))
        fun _ _ => by simp

theorem getElem?_setStep {change : ReleaseStep → ReleaseStep}
    (found : run.steps[index]? = some step) :
    (setStep run index change).steps[index]? = some (change step) := by
  simp [setStep, found]

theorem deployStep_follows (reached : release.Reaches history
      (.stamp (.execute index) (markedRun run index .executing))) :
    release.Follows (fun value later =>
      release.Deployed index value.1 value.2.1 value.2.2 later) history (deployStep run index) := by
  refine .bind (Follows.persistNow reached fun _ _ => by simp) ?_
  rintro executing later ⟨-, continues⟩
  refine Follows.stepAt (fun none => continues _ (.missing rfl none)) fun step found => ?_
  have deploying := continues _ (.execute found)
  refine .ask ⟨⟨_, deploying, rfl⟩, trivial⟩ fun answer _ => ?_
  cases answer with
  | error failure =>
    refine Follows.completeScheduling
      (deploying.move (.deployFailed index executing step failure)) rfl fun last stamped => ?_
    exact Follows.finish stamped fun _ _ => by simp
  | ok result => exact .pure ⟨executing, step, later, found, rfl, rfl, deploying, rfl⟩

theorem performRollback_follows {α : Type} {post : α → History → Prop}
    {rollback : RollbackInput} {reason : String} {follow : ReleaseRun → Call α}
    (reached : release.Reaches history (.rollingBack index run step rollback reason))
    (continues : ∀ rolled later, release.Reaches later
      (.completing .finish (cancelDownstream (index + 1) rolled) step.service true) →
      release.Follows post later (follow rolled)) :
    release.Follows post history (performRollback run index step rollback reason >>= follow) := by
  simp only [performRollback, bind_assoc]
  refine .ask ⟨⟨_, reached, rfl⟩, trivial⟩ fun answer _ => ?_
  cases answer with
  | error failure =>
    exact continues _ _ (reached.move (.rollbackFailed index run step rollback reason failure))
  | ok result =>
    have observing := reached.move (.rolledBack index run step rollback reason result)
    simp only [sleep, bind_assoc]
    refine .ask ⟨⟨_, observing, rfl⟩, trivial⟩ fun slept _ => Follows.activity ?_ ?_
    · rintro failure rfl
      exact observing.move (.rollbackObserveFailed _ _ _ _ _ failure)
    rintro ⟨⟩ rfl
    have verifying := observing.move (.rollbackObserved _ _ _ _ _)
    refine .ask ⟨⟨_, verifying, rfl⟩, trivial⟩ fun verified _ => ?_
    cases verified with
    | error failure =>
      exact continues _ _ (verifying.move (.rollbackVerifyFailed _ _ _ _ _ failure))
    | ok verification =>
      have checking := verifying.move (.rollbackVerified _ _ _ _ _ verification)
      simp only [bind_assoc]
      refine .ask ⟨⟨_, checking, rfl⟩, trivial⟩ fun checkedAt _ => ?_
      by_cases failed : verification.outcome ≠ .pass
      · rw [if_pos failed]
        exact continues _ _ (checking.move (.rollbackRejected checkedAt failed))
      · rw [if_neg failed]
        exact continues _ _ (checking.move (.rollbackPassed checkedAt (not_not.mp failed)))

theorem verifyStep_follows {deployed : DeployResult} (reached : release.Reaches history
      (.stamp (.verify index deploy deployed) (markedRun run index .verifying))) :
    release.Follows (fun next later => release.Continues (.succeed index) next later) history
      (verifyStep run index deploy deployed) := by
  refine .bind (Follows.persistNow reached fun _ _ => by simp) ?_
  rintro next later ⟨-, continues⟩
  refine Follows.stepAt (fun none => continues _ (.missing rfl none)) fun step found => ?_
  have observing := continues _ (.verify found)
  simp only [sleep, bind_assoc]
  refine .ask ⟨⟨_, observing, rfl⟩, trivial⟩ fun slept _ => Follows.activity ?_ ?_
  · rintro failure rfl
    exact observing.move (.observeFailed _ _ _ _ _ failure)
  rintro ⟨⟩ rfl
  have verifying := observing.move (.observed _ _ _ _ _)
  refine .ask ⟨⟨_, verifying, rfl⟩, trivial⟩ fun answer _ => ?_
  cases answer with
  | error failure =>
    refine Follows.completeScheduling (verifying.move (.verifyFailed _ _ _ _ _ failure)) rfl
      fun last stamped => ?_
    exact Follows.finish stamped fun _ _ => by simp
  | ok result =>
    have checking := verifying.move (.verified _ _ _ _ _ result)
    refine .ask ⟨⟨_, checking, rfl⟩, trivial⟩ fun checkedAt _ => ?_
    by_cases pass : result.outcome = .pass
    · rw [if_pos pass]
      refine Follows.completeScheduling (checking.move (.passed checkedAt pass)) rfl
        fun last stamped => ?_
      refine .mono (Follows.persistNow stamped fun _ _ => by simp) ?_
      rintro finished final ⟨-, continues⟩
      exact continues
    by_cases manual : step.rollbackMode ≠ .automatic
    · rw [if_neg pass, if_pos manual]
      refine Follows.completeScheduling (checking.move (.escalated checkedAt pass manual)) rfl
        fun last stamped => ?_
      exact Follows.finish stamped fun _ _ => by simp
    · rw [if_neg pass, if_neg manual]
      have rolls := checking.move (.rolls checkedAt pass (not_not.mp manual))
      refine .bind (Follows.persistNow rolls fun _ _ => by simp) ?_
      rintro rolling last ⟨-, continues⟩
      refine Follows.stepAt (fun none => continues _ (.missing rfl none)) fun step found => ?_
      refine performRollback_follows (continues _ (.rollback found)) ?_
      intro rolled after completing
      refine Follows.completeScheduling completing rfl fun last stamped => ?_
      exact Follows.finish stamped fun _ _ => by simp

theorem completeStep_follows {result : DeployResult}
    (deployed : release.Deployed index run deploy result history) :
    release.Follows (fun next later => release.Continues (.succeed index) next later) history
      (completeStep run index deploy result) := by
  obtain ⟨run, step, before, found, rfl, rfl, deploying, rfl⟩ := deployed
  have recorded : (executedRun run index result.execution).steps[index]? =
      some { step with execution := some result.execution } := getElem?_setStep found
  refine Follows.stepAt (fun none => by simp [none] at recorded) fun current foundCurrent => ?_
  obtain rfl := Option.some.inj (recorded.symm.trans foundCurrent)
  by_cases required : step.verificationRequired = true
  · rw [if_pos required]
    exact verifyStep_follows (deploying.move (.deployed result required))
  · rw [if_neg required]
    refine Follows.completeScheduling
      (deploying.move (.deployedUnverified result (Bool.eq_false_iff.mpr required))) rfl
      fun last stamped => ?_
    refine .mono (Follows.persistNow stamped fun _ _ => by simp) ?_
    rintro next later ⟨-, continues⟩
    exact continues

theorem checkDependencies_follows {selected : GoMap String Bool}
    (unmet : ∀ dependency, release.Reaches history (.stamp .finish (stoppedRun run index .blocked
        ("selected dependency did not succeed: " ++ dependency) .blocked)))
    (met : Unstarted release.input → DependenciesFirst release.input.plan →
      unmetDependency run.plan step.service selected succeeded = none) :
    release.Follows (fun _ later => later = history ∧
      unmetDependency run.plan step.service selected succeeded = none) history
      (checkDependencies selected succeeded run index step) := by
  unfold checkDependencies
  split
  · next none => exact .pure ⟨rfl, none⟩
  · next dependency found =>
    refine Follows.finish (unmet dependency) fun unstarted first => ?_
    rw [met unstarted first] at found
    cases found

/-- A step of a release which was pending at the start has not succeeded yet. -/
theorem Reaches.pending_of_poll (unstarted : Unstarted release.input)
    (reached : release.Reaches history (.poll index run))
    (found : run.steps[index]? = some step) : step.status = .pending := by
  obtain ⟨⟨-, here⟩, -⟩ := reached.fits unstarted.pending
  exact here.status_eq found

theorem runStep_follows (reached : release.Reaches history (.poll index run))
    (tracks : Unstarted release.input →
      Tracks succeeded ((release.input.steps.map ReleaseStep.service).take index)) :
    release.Follows (fun value later => release.Reaches later
        (enter release.input.steps.length (index + 1) value.1) ∧
      (Unstarted release.input →
        Tracks value.2 ((release.input.steps.map ReleaseStep.service).take (index + 1))))
      history (runStep release.digest (selectedServices release.input) succeeded run index) := by
  refine .bind (pollSignals_follows reached) ?_
  rintro polled later ⟨same, begins⟩
  refine Follows.stepAt (fun none => begins _ (.missing none)) fun step found => ?_
  by_cases done : step.status = .succeeded
  · rw [if_pos done]
    refine .pure ⟨begins _ (.done step found done), fun unstarted => ?_⟩
    rw [reached.pending_of_poll unstarted (same ▸ found)] at done
    cases done
  rw [if_neg done]
  have evaluating := begins _ (.evaluate step found done)
  have outline := evaluating.outline polled rfl
  have service : (release.input.steps.map ReleaseStep.service)[index]? = some step.service := by
    rw [← services_eq_of_outline outline, List.getElem?_map, found]
    rfl
  refine .bind (checkDependencies_follows (fun dependency =>
    begins _ (.unmet step found done dependency)) fun unstarted first =>
      (unmetDependency_eq_none_iff outline (tracks unstarted)).mpr
        (Planned.preceded unstarted.planned first service)) ?_
  rintro ⟨⟩ _ ⟨rfl, met⟩
  refine .bind (evaluatePolicy_follows evaluating fun unstarted => ⟨index, service,
    (unmetDependency_eq_none_iff outline (tracks unstarted)).mp met⟩) ?_
  rintro ⟨evaluated, decision⟩ _ ⟨permitted, continues⟩
  refine .bind (obtainApproval_follows permitted continues) fun approved _ acquiring => ?_
  refine .bind (acquireSchedule_follows acquiring) fun _ _ executing => ?_
  refine .bind (deployStep_follows executing) fun value _ deployed => ?_
  refine .bind (completeStep_follows deployed) fun completed _ continues => ?_
  refine .pure ⟨continues _ (.succeed index completed), fun unstarted => ?_⟩
  rw [List.take_add_one, service]
  exact (tracks unstarted).set step.service

theorem runSteps_follows {remaining : ℕ} (count : index + remaining = release.input.steps.length)
    (reached : release.Reaches history
      (enter release.input.steps.length index run)) (tracks : Unstarted release.input →
      Tracks succeeded ((release.input.steps.map ReleaseStep.service).take index)) :
    release.Follows (fun next later => release.Reaches later
        (.stamp .finish { next with status := .succeeded })) history
      (runSteps release.digest (selectedServices release.input) (List.range' index remaining) run
        succeeded) := by
  induction remaining generalizing index run history succeeded with
  | zero =>
    rw [enter, if_neg (by omega)] at reached
    exact .pure reached
  | succ remaining ih =>
    rw [enter, if_pos (by omega)] at reached
    refine .bind (runStep_follows reached tracks) ?_
    rintro value later ⟨entered, tracks⟩
    exact ih (by omega) entered tracks

end Stages

theorem Unstarted.tracks (unstarted : Unstarted input) :
    Tracks (succeededServices { input with status := .running })
      ((input.steps.map ReleaseStep.service).take 0) := by
  intro service
  have none : (input.steps.filter fun step => step.status = .succeeded) = [] := by
    rw [List.filter_eq_nil_iff]
    intro step member
    simp [unstarted.pending step member]
  simp [succeededServices, textSet_find, none]

theorem releaseStatements_follows (release : Setting) :
    release.Follows (fun run later => release.Reaches later (.finished (.ok run))) []
      (releaseStatements release.digest release.order release.input) := by
  refine .bind (Follows.persistNow .start fun _ _ => by simp) ?_
  rintro started later ⟨⟨updatedAt, rfl⟩, continues⟩
  split
  · next error failed => exact .throw (continues _ (.beginFailed failed))
  · next waved assigned =>
    have entered := continues _ (.begin assigned)
    obtain ⟨wave, rfl⟩ := exists_waves_of_assignWaves assigned
    rw [List.range_eq_range', List.length_map]
    refine .bind (runSteps_follows (Nat.zero_add _) entered Unstarted.tracks)
      fun run last stamped => ?_
    refine .mono (Follows.persistNow stamped fun _ _ => by simp) ?_
    rintro next final ⟨-, continues⟩
    exact continues _ (.finish next)

section Executions

variable {machine : Machine requests}
  (allowed : ∀ world op answer next, machine.answers world op answer next → Legal op answer)
  {digest : Digest} {order : StepOrder} {input : ReleaseRun}
  {start last : machine.World} {events : History} {rest : Prog requests Exit}
  (ran : Runs machine start (releaseWorkflow digest order input) events last rest)

include allowed ran

theorem releaseWorkflow_settles : (∀ exit, rest = .pure exit →
      Reaches digest order input.steps.length input events (.finished exit)) ∧
    ∀ op next, rest.head = .request op next →
      (∃ location, Reaches digest order input.steps.length input events location ∧
        location.Asks op) ∧ Quiet input op := by
  let release : Setting := ⟨digest, order, input⟩
  have follows : Always (S := requests) Legal
      (fun history op => (∃ location, release.Reaches history location ∧ location.Asks op) ∧
        Quiet input op)
      (fun exit history => release.Reaches history (.finished exit)) []
      (releaseWorkflow digest order input) := by
    refine Always.bind (Always.mono ?_ (releaseStatements_follows release))
    rintro (exit | run) later finished
    · exact Always.pure finished
    · exact Always.pure finished
  exact follows.of_runs allowed ran

/-- Every execution of the workflow is a path of the state machine. -/
theorem releaseWorkflow_follows : (∀ exit, rest = .pure exit →
      Reaches digest order input.steps.length input events (.finished exit)) ∧
    ∀ op next, rest.head = .request op next →
      ∃ location, Reaches digest order input.steps.length input events location ∧
        location.Asks op :=
  (releaseWorkflow_settles allowed ran).imp_right fun requested op next head =>
    (requested op next head).1

end Executions

/-- The run which a workflow is about to persist, or has returned. -/
inductive Shows : Prog requests Exit → ReleaseRun → Prop where
  | persists {rest : Prog requests Exit} {persist : PersistInput}
      {next : Except ActivityFailure ReleaseRun → Prog requests Exit}
      (requested : rest.head = .request (.persistRun persist) next) : Shows rest persist.run
  | returns (run : ReleaseRun) : Shows (.pure (.ok run)) run

theorem exists_reaches_of_shows {machine : Machine requests}
    (allowed : ∀ world op answer next, machine.answers world op answer next → Legal op answer)
    {digest : Digest} {order : StepOrder} {start last : machine.World}
    {events : History} {rest : Prog requests Exit}
    (ran : Runs machine start (releaseWorkflow digest order input) events last rest)
    (shown : Shows rest run) :
    ∃ location, Reaches digest order input.steps.length input events location ∧
      run ∈ location.run := by
  have follows := releaseWorkflow_follows allowed ran
  cases shown with
  | persists requested =>
    obtain ⟨location, reached, asks⟩ := follows.2 _ _ requested
    refine ⟨location, reached, ?_⟩
    cases location with
    | store goal run =>
      obtain ⟨audits, eventType, same⟩ := asks
      cases same
      rfl
    | _ => cases asks
  | returns => exact ⟨_, follows.1 _ rfl, rfl⟩

end Themisy.Workflow.Release
