import Themisy.Workflow.Shapes
import Themisy.Workflow.Verification

/-!
# Evidence gates the progress of a release

A step which has to be verified succeeds only after the first verification of its
deployment has passed, and a step is rolled back only after the verification of its
rollback has. After a verification which did not pass no step succeeds.

`Gains` lists the transitions which make a step succeed or roll it back. What the
workflow knows then is carried along by `Location.Trail` and `Location.Halts`.
-/

namespace Themisy.Workflow.Release

open Domain Interaction Planning

/-- The ways in which a step succeeds or is rolled back. -/
inductive Gains : Location → Event requests → ℕ → StepStatus → Prop where
  | unverified {index : ℕ} {run : ReleaseRun} {step : ReleaseStep} (deployed : DeployResult)
      (optional : step.verificationRequired = false) :
      Gains (.deploying index run step) ⟨.deploy (deployInput run step), .ok deployed⟩ index
        .succeeded
  | verified {index : ℕ} {run : ReleaseRun} {step : ReleaseStep} {input : DeployInput}
      {deployed : DeployResult} {result : VerificationResult} (checkedAt : Time)
      (pass : result.outcome = .pass) :
      Gains (.checking index run step input deployed result) ⟨.now, checkedAt⟩ index .succeeded
  | rolledBack {index : ℕ} {run : ReleaseRun} {step : ReleaseStep} {result : VerificationResult}
      {reason : String} (checkedAt : Time) (pass : result.outcome = .pass) :
      Gains (.rollbackChecking index run step result reason) ⟨.now, checkedAt⟩ index .rolledBack

/-- A status which a step only gets with evidence. -/
def Earned (status : StepStatus) : Prop :=
  status = .succeeded ∨ status = .rolledBack

/-- Every step which has succeeded or was rolled back later has been so before. -/
def Keeps (run later : ReleaseRun) : Prop :=
  ∀ (index : ℕ) (status : StepStatus), Earned status →
    (statuses later)[index]? = some status → (statuses run)[index]? = some status

variable {status after : StepStatus} {change : ReleaseStep → ReleaseStep} {goal : Goal}
  {deployment : Deployment} {digest : Digest} {order : StepOrder} {total index place : ℕ}
  {input run later last : ReleaseRun} {location next : Location} {event : Event requests}
  {history : History}

theorem keeps_of_eq (same : statuses later = statuses run) : Keeps run later := by
  intro place status _ now
  rwa [same] at now

theorem Keeps.trans {last : ReleaseRun} (first : Keeps run later) (second : Keeps later last) :
    Keeps run last :=
  fun place status earned now => first place status earned (second place status earned now)

theorem status_of_setStep (changed : ∀ step, (change step).status = after)
    (now : (statuses (setStep run index change))[place]? = some status) :
    (statuses run)[place]? = some status ∨ place = index ∧ status = after := by
  rw [statuses_setStep run index (fun _ => after) changed, List.getElem?_modify] at now
  obtain ⟨before, found, same⟩ := Option.map_eq_some_iff.mp now
  split at same
  · next here => exact Or.inr ⟨here.symm, same.symm⟩
  · exact Or.inl (same ▸ found)

theorem status_of_markedRun (now : (statuses (markedRun run index after))[place]? = some status) :
    (statuses run)[place]? = some status ∨ place = index ∧ status = after :=
  status_of_setStep (fun _ => rfl) now

theorem keeps_setStep (status : StepStatus) (changed : ∀ step, (change step).status = status)
    (free : ¬Earned status) : Keeps run (setStep run index change) := by
  intro place other earned now
  rcases status_of_setStep changed now with before | ⟨-, rfl⟩
  · exact before
  · exact absurd earned free

theorem statuses_keepStep (kept : ∀ step, (change step).status = step.status) :
    statuses (setStep run index change) = statuses run := by
  rw [statuses_setStep run index id kept, List.modify_id]

theorem keeps_cancelSteps (cancelled : List StepStatus) (first : ℕ) :
    Keeps run (cancelSteps cancelled first run) := by
  intro place status earned now
  rw [statuses_cancelSteps, List.getElem?_append] at now
  split at now
  · next inside =>
    rw [List.length_take] at inside
    rwa [List.getElem?_take_of_lt (by omega)] at now
  · next outside =>
    rw [List.length_take] at outside now
    rw [List.getElem?_map, List.getElem?_drop] at now
    obtain ⟨before, found, same⟩ := Option.map_eq_some_iff.mp now
    obtain ⟨bound, -⟩ := List.getElem?_eq_some_iff.mp found
    have here : first + (place - min first (statuses run).length) = place := by omega
    rw [here] at found
    split at same
    · subst same
      rcases earned with impossible | impossible <;> cases impossible
    · exact same ▸ found

theorem keeps_cancelDownstream (first : ℕ) : Keeps run (cancelDownstream first run) :=
  keeps_cancelSteps _ first

theorem status_of_stoppedRun {failure : String} {runStatus : RunStatus} (earned : Earned status)
    (now : (statuses (stoppedRun run index after failure runStatus))[place]? = some status) :
    (statuses run)[place]? = some status ∨ place = index ∧ status = after := by
  have failed : (statuses (setStep run index fun step =>
      { step with status := after, failure }))[place]? = some status :=
    keeps_cancelDownstream _ place status earned now
  exact status_of_setStep (fun _ => rfl) failed

theorem keeps_stoppedRun (failure : String) (runStatus : RunStatus) (free : ¬Earned status) :
    Keeps run (stoppedRun run index status failure runStatus) := by
  intro place other earned now
  rcases status_of_stoppedRun earned now with before | ⟨-, rfl⟩
  · exact before
  · exact absurd earned free

theorem keeps_blockRun (change : Approval → Approval) : Keeps run (blockRun run index change) := by
  have blocked : Keeps run (setStep run index (decideStep change .blocked)) :=
    keeps_setStep .blocked (fun _ => rfl) (by simp [Earned])
  exact (blocked.trans (keeps_of_eq rfl)).trans (keeps_cancelDownstream _)

theorem keeps_markedRun (free : ¬Earned status) : Keeps run (markedRun run index status) :=
  keeps_setStep status (fun _ => rfl) free

theorem keeps_cancelledRun : Keeps run (cancelledRun run index) :=
  (keeps_cancelSteps _ index).trans (keeps_of_eq rfl)

theorem keeps_awaitingRun (approval : Approval) (now : Time) :
    Keeps run (awaitingRun run index approval now) := by
  have awaits : Keeps run (setStep run index fun step =>
      { step with approval := some approval, status := .waitingApproval }) :=
    keeps_setStep .waitingApproval (fun _ => rfl) (by simp [Earned])
  exact awaits.trans (keeps_of_eq rfl)

theorem keeps_approvedRun (signal : ApprovalSignal) (decidedAt : Time) :
    Keeps run (approvedRun run index signal decidedAt) := by
  have approves : Keeps run
      (setStep run index (decideStep (decidedApproval signal decidedAt .approved) .pending)) :=
    keeps_setStep .pending (fun _ => rfl) (by simp [Earned])
  exact approves.trans (keeps_of_eq rfl)

theorem statuses_recordedRun (record : Record) :
    statuses (recordedRun run index record) = statuses run :=
  statuses_keepStep fun _ => by cases record <;> rfl

theorem keeps_enter : ∀ later ∈ (enter total index run).run, Keeps run later := by
  unfold enter
  split
  · rintro later ⟨⟩
    exact keeps_of_eq rfl
  · rintro later ⟨⟩
    exact keeps_of_eq rfl

theorem Begins.keeps (begins : Begins total index run location) :
    ∀ later ∈ location.run, Keeps run later := by
  cases begins with
  | done => exact keeps_enter
  | unmet =>
    rintro later ⟨⟩
    exact keeps_stoppedRun _ _ (by simp [Earned])
  | evaluate =>
    rintro later ⟨⟩
    exact keeps_of_eq rfl
  | missing =>
    intro later member
    cases member

theorem Stores.keeps (stores : Stores order total goal run location) :
    ∀ later ∈ location.run, Keeps run later := by
  cases stores with
  | begin assigned =>
    intro later member
    obtain ⟨wave, rfl⟩ := exists_waves_of_assignWaves assigned
    refine Keeps.trans (keeps_of_eq ?_) (keeps_enter later member)
    simp [statuses, Function.comp_def]
  | succeed => exact keeps_enter
  | resumePoll _ begins => exact begins.keeps
  | deny =>
    rintro later ⟨⟩
    exact keeps_stoppedRun _ _ (by simp [Earned])
  | beginFailed | missing =>
    intro later member
    cases member
  | _ =>
    rintro later ⟨⟩
    exact keeps_of_eq rfl

/-- A step gets an earned status only in one of the ways of `Gains`. -/
theorem Moves.gains (moves : Moves digest order total location event next)
    (runMem : run ∈ location.run) (laterMem : later ∈ next.run) (earned : Earned status)
    (now : (statuses later)[place]? = some status) :
    (statuses run)[place]? = some status ∨ Gains location event place status := by
  have kept : Keeps run later → (statuses run)[place]? = some status ∨
      Gains location event place status := fun keeps => Or.inl (keeps place status earned now)
  cases moves with
  | stored _ _ stores =>
    cases runMem
    exact kept (Keeps.trans (keeps_of_eq rfl) (stores.keeps later laterMem))
  | begins begins =>
    cases runMem
    exact kept (begins.keeps later laterMem)
  | pollCancelled | cancelled | selectCancelled =>
    cases runMem
    cases laterMem
    exact kept keeps_cancelledRun
  | evaluated =>
    cases runMem
    cases laterMem
    exact kept (keeps_of_eq (statuses_keepStep fun _ => rfl))
  | requested =>
    cases runMem
    cases laterMem
    exact kept (keeps_awaitingRun _ _)
  | selectExpired | revoked | denied =>
    cases runMem
    cases laterMem
    exact kept (keeps_blockRun _)
  | approved =>
    cases runMem
    cases laterMem
    exact kept (keeps_approvedRun _ _)
  | acquired =>
    cases runMem
    cases laterMem
    exact kept (keeps_markedRun (by simp [Earned]))
  | backpressured | deployFailed | verifyFailed | rollbackFailed | rollbackVerifyFailed =>
    cases runMem
    cases laterMem
    exact kept (keeps_stoppedRun _ _ (by simp [Earned]))
  | deployed =>
    cases runMem
    cases laterMem
    exact kept ((keeps_of_eq (statuses_recordedRun _)).trans
      (keeps_markedRun (by simp [Earned])))
  | deployedUnverified _ optional =>
    cases runMem
    cases laterMem
    rcases status_of_markedRun now with before | ⟨rfl, rfl⟩
    · exact Or.inl (statuses_recordedRun _ ▸ before)
    · exact Or.inr (.unverified _ optional)
  | passed _ pass =>
    cases runMem
    cases laterMem
    rcases status_of_markedRun now with before | ⟨rfl, rfl⟩
    · exact Or.inl (statuses_recordedRun _ ▸ before)
    · exact Or.inr (.verified _ pass)
  | escalated =>
    cases runMem
    cases laterMem
    exact kept ((keeps_of_eq (statuses_recordedRun _)).trans
      (keeps_stoppedRun _ _ (by simp [Earned])))
  | rolls =>
    cases runMem
    cases laterMem
    exact kept ((keeps_of_eq (statuses_recordedRun _)).trans
      (keeps_markedRun (by simp [Earned])))
  | rolledBack =>
    cases runMem
    cases laterMem
    exact kept (keeps_of_eq (statuses_recordedRun _))
  | rollbackPassed _ pass =>
    cases runMem
    cases laterMem
    rcases status_of_stoppedRun earned now with before | ⟨rfl, rfl⟩
    · exact Or.inl (statuses_recordedRun _ ▸ before)
    · exact Or.inr (.rolledBack _ pass)
  | rollbackRejected =>
    cases runMem
    cases laterMem
    exact kept ((keeps_of_eq (statuses_recordedRun _)).trans
      (keeps_stoppedRun _ _ (by simp [Earned])))
  | storeFailed | evaluateFailed | requestMissing | waitMissing | acquireFailed | completeFailed
  | observeFailed | rollbackObserveFailed => cases laterMem
  | _ =>
    cases runMem
    cases laterMem
    exact kept (keeps_of_eq rfl)

def Op.isVerify : Op → Bool
  | verify _ => true
  | _ => false

def Deploys (request : DeployInput) (deployment : Deployment) (event : Event requests) : Prop :=
  ∃ deployed : DeployResult, event = ⟨.deploy request, .ok deployed⟩ ∧
    deployed.deployment = deployment

def RollsBack (request : DeployInput) (deployment : Deployment) (event : Event requests) : Prop :=
  ∃ (replaced : Deployment) (rolledBack : RollbackResult),
    event = ⟨.rollback ⟨request, replaced⟩, .ok rolledBack⟩ ∧ rolledBack.deployment = deployment

/-- The deployment was made, and nothing was verified since. -/
def Unverified (made : Deployment → Event requests → Prop) (history : History)
    (deployment : Deployment) : Prop :=
  Since (made deployment) (fun event => event.1.isVerify = true) history

/-- The first verification of a deployment has returned a result. -/
def Verified (made : Deployment → Event requests → Prop) (history : History)
    (result : VerificationResult) : Prop :=
  ∃ before deployment after, history = before ++ ⟨.verify deployment, .ok result⟩ :: after ∧
    Unverified made before deployment

/-- The verifications which a goal has yet to make. -/
def Goal.Trail (history : History) : Goal → Prop
  | verify _ request deployed => Unverified (Deploys request) history deployed.deployment
  | _ => True

/-- What a location knows about the deployment of its step. -/
def Location.Trail (input : ReleaseRun) (history : History) : Location → Prop
  | stamp goal _ | store goal _ | completing goal _ _ _ => goal.Trail history
  | observing _ _ _ request deployed | verifying _ _ _ request deployed =>
    Unverified (Deploys request) history deployed.deployment
  | checking _ _ _ request _ result => Verified (Deploys request) history result
  | rollbackObserving index _ _ deployment _ | rollbackVerifying index _ _ deployment _ =>
    ∃ original, input.steps[index]? = some original ∧
      Unverified (RollsBack (Release.deployInput input original)) history deployment
  | rollbackChecking index _ _ result _ => ∃ original, input.steps[index]? = some original ∧
      Verified (RollsBack (Release.deployInput input original)) history result
  | _ => True

/-- Every step which has got an earned status was verified before, with an accepted result. -/
structure Backed (accepts : VerificationResult → Prop) (input : ReleaseRun)
    (history : History) (run : ReleaseRun) : Prop where
  succeeded : ∀ (index : ℕ) (original : ReleaseStep), input.steps[index]? = some original →
    original.verificationRequired = true → original.status ≠ .succeeded →
    (statuses run)[index]? = some .succeeded →
    ∃ result, Verified (Deploys (deployInput input original)) history result ∧ accepts result
  rolledBack : ∀ (index : ℕ) (original : ReleaseStep), input.steps[index]? = some original →
    original.status ≠ .rolledBack → (statuses run)[index]? = some .rolledBack →
    ∃ result, Verified (RollsBack (deployInput input original)) history result ∧ accepts result

section Trail

variable {made : Deployment → Event requests → Prop}

theorem Unverified.append (unverified : Unverified made history deployment)
    (other : event.1.isVerify = false) : Unverified made (history ++ [event]) deployment :=
  since_append.mpr (Or.inl ⟨unverified, by simp [other]⟩)

theorem Unverified.verify (unverified : Unverified made history deployment)
    (result : VerificationResult) :
    Verified made (history ++ [⟨.verify deployment, .ok result⟩]) result :=
  ⟨history, deployment, [], rfl, unverified⟩

variable {result : VerificationResult}

theorem Verified.append (verified : Verified made history result) (event : Event requests) :
    Verified made (history ++ [event]) result := by
  obtain ⟨before, deployment, after, rfl, unverified⟩ := verified
  exact ⟨before, deployment, after ++ [event], by simp, unverified⟩

theorem Location.Opening.trail (opening : location.Opening) : location.Trail input history := by
  cases opening <;> trivial

theorem Stores.trail (stores : Stores order total goal run location) (trail : goal.Trail history) :
    location.Trail input history := by
  cases stores with
  | begin | succeed => exact opening_enter.trail
  | resumePoll _ begins => exact begins.opening.trail
  | verify => exact trail
  | _ => trivial

theorem Goal.Trail.append (trail : goal.Trail history) (other : event.1.isVerify = false) :
    goal.Trail (history ++ [event]) := by
  cases goal with
  | verify => exact Unverified.append trail other
  | _ => trivial

theorem Reaches.trail (reached : Reaches digest order total input history location) :
    location.Trail input history := by
  induction reached with
  | start => trivial
  | @move history location next event reached moves ih =>
    cases moves with
    | stamp | completed => exact Goal.Trail.append ih rfl
    | stored _ _ stores => exact stores.trail (Goal.Trail.append ih rfl)
    | begins begins => exact begins.opening.trail
    | deployed result => exact since_append.mpr (Or.inr ⟨result, rfl, rfl⟩)
    | observed => exact Unverified.append ih rfl
    | verified => exact Unverified.verify ih _
    | rolledBack index run step request reason result =>
      obtain ⟨original, found, same⟩ := reached.deployInput rfl
      refine ⟨original, found, since_append.mpr (Or.inr ⟨request.deployment, result, ?_, rfl⟩)⟩
      rw [← same]
    | rollbackObserved =>
      obtain ⟨original, found, unverified⟩ := ih
      exact ⟨original, found, unverified.append rfl⟩
    | rollbackVerified =>
      obtain ⟨original, found, unverified⟩ := ih
      exact ⟨original, found, unverified.verify _⟩
    | _ => trivial

theorem Verified.mem (verified : Verified made history result) :
    ∃ deployment, (⟨.verify deployment, .ok result⟩ : Event requests) ∈ history := by
  obtain ⟨before, deployment, after, rfl, -⟩ := verified
  exact ⟨deployment, by simp⟩

/-- Verifications stay in the history, and may be judged by a weaker criterion. -/
theorem Backed.mono {accepts weaker : VerificationResult → Prop} {longer : History}
    (backed : Backed accepts input history run)
    (implies : ∀ {made} {result}, Verified made history result → accepts result →
      Verified made longer result ∧ weaker result) :
    Backed weaker input longer run := by
  constructor
  · intro index original found required fresh now
    obtain ⟨result, verified, accepted⟩ :=
      backed.succeeded index original found required fresh now
    exact ⟨result, implies verified accepted⟩
  · intro index original found fresh now
    obtain ⟨result, verified, accepted⟩ := backed.rolledBack index original found fresh now
    exact ⟨result, implies verified accepted⟩

theorem Reaches.backed (reached : Reaches digest order total input history location) :
    ∀ run ∈ location.run, Backed (fun result => result.outcome = .pass) input history run := by
  induction reached with
  | start =>
    rintro run ⟨⟩
    constructor
    · intro index original found _ fresh now
      simp [statuses, found, fresh] at now
    · intro index original found fresh now
      simp [statuses, found, fresh] at now
  | @move history location next event reached moves ih =>
    intro later member
    obtain ⟨run, runMem, -⟩ := moves.outline
    have backed := (ih run runMem).mono fun verified pass => ⟨verified.append event, pass⟩
    constructor
    · intro index original found required fresh now
      rcases moves.gains runMem member (Or.inl rfl) now with before | gains
      · exact backed.succeeded index original found required fresh before
      · cases gains with
        | unverified _ optional =>
          obtain ⟨same, here, outline⟩ := reached.step rfl
          obtain rfl : same = original := by simpa [here] using found
          have agrees := (congrArg ReleaseStep.verificationRequired outline :)
          simp [stepOutline, optional, required] at agrees
        | verified _ pass =>
          obtain ⟨same, here, eq⟩ := reached.deployInput rfl
          obtain rfl : same = original := by simpa [here] using found
          exact ⟨_, (eq ▸ reached.trail).append _, pass⟩
    · intro index original found fresh now
      rcases moves.gains runMem member (Or.inr rfl) now with before | gains
      · exact backed.rolledBack index original found fresh before
      · cases gains with
        | rolledBack _ pass =>
          obtain ⟨same, here, verified⟩ := reached.trail
          obtain rfl : same = original := by simpa [here] using found
          exact ⟨_, verified.append _, pass⟩

end Trail

/-- The release goes on only to roll back or to end. -/
def Goal.halts : Goal → Bool
  | rollback _ _ _ => true
  | finish => true
  | _ => false

/-- No step succeeds from here on. -/
def Location.Halts : Location → Prop
  | stamp goal _ | store goal _ | completing goal _ _ _ => goal.halts = true
  | checking _ _ _ _ _ result => result.outcome ≠ .pass
  | rollingBack _ _ _ _ _ | rollbackObserving _ _ _ _ _ | rollbackVerifying _ _ _ _ _
  | rollbackChecking _ _ _ _ _ | finished _ => True
  | _ => False

/-- The release has halted: no further step succeeds. -/
structure Location.Halted (last : ReleaseRun) (location : Location) : Prop where
  halts : location.Halts
  status : ∀ run ∈ location.run, run.status ≠ .succeeded
  steps : ∀ run ∈ location.run, ∀ index : ℕ, (statuses run)[index]? = some .succeeded →
    (statuses last)[index]? = some .succeeded

section

variable (moves : Moves digest order total location event next)

include moves

theorem Moves.halts (halts : location.Halts) : next.Halts := by
  cases moves with
  | stored _ _ stores =>
    cases stores with
    | finish | rollback | missing | resumeCancelled | beginFailed => trivial
    | deny => rfl
    | _ => cases halts
  | passed _ pass => exact absurd pass halts
  | _ => first | exact halts | trivial

theorem Moves.status_ne
    (halts : location.Halts) (active : ∀ run ∈ location.run, run.status ≠ .succeeded) :
    ∀ later ∈ next.run, later.status ≠ .succeeded := by
  have kept : ∀ {run later : ReleaseRun}, location.run = some run → later.status = run.status →
      later.status ≠ .succeeded := by
    intro run later found same
    rw [same]
    exact active run found
  cases moves with
  | stored _ _ stores =>
    cases stores with
    | finish | rollback =>
      rintro later ⟨⟩
      exact kept rfl rfl
    | missing =>
      intro later member
      cases member
    | _ => cases halts
  | verifyFailed | escalated | rollbackFailed | rollbackVerifyFailed | rollbackPassed
  | rollbackRejected =>
    rintro later ⟨⟩ ⟨⟩
  | storeFailed | completeFailed | rollbackObserveFailed =>
    intro later member
    cases member
  | stamp | completed | rolls | rolledBack | rollbackObserved | rollbackVerified =>
    rintro later ⟨⟩
    exact kept rfl rfl
  | passed _ pass => exact absurd pass halts
  | _ => exact halts.elim

theorem Moves.halted (halted : location.Halted last) : next.Halted last := by
  refine ⟨moves.halts halted.halts, moves.status_ne halted.halts halted.status, ?_⟩
  intro later member index now
  obtain ⟨run, runMem, -⟩ := moves.outline
  rcases moves.gains runMem member (Or.inl rfl) now with before | gains
  · exact halted.steps run runMem index before
  · cases gains with
    | unverified => exact halted.halts.elim
    | verified _ pass => exact absurd pass halted.halts

end

/-- The steps have the statuses which were persisted last. -/
def Location.Synced (history : History) : Location → Prop
  | observing _ run _ _ _ | verifying _ run _ _ _ | rollingBack _ run _ _ _
  | rollbackObserving _ run _ _ _ | rollbackVerifying _ run _ _ _ =>
    ∃ last, lastPersisted history = some last ∧ statuses run = statuses last
  | _ => True

theorem Location.Opening.synced (opening : location.Opening) : location.Synced history := by
  cases opening <;> trivial

theorem Stores.synced (stores : Stores order total goal run location)
    (last : lastPersisted history = some run) : location.Synced history := by
  cases stores with
  | begin | succeed => exact opening_enter.synced
  | resumePoll _ begins => exact begins.opening.synced
  | verify | rollback => exact ⟨run, last, rfl⟩
  | _ => trivial

theorem Reaches.synced (reached : Reaches digest order total input history location) :
    location.Synced history := by
  induction reached with
  | start => trivial
  | @move history location next event _ moves ih =>
    cases moves with
    | stored _ _ stores => exact stores.synced (lastPersisted_append _ _)
    | begins begins => exact begins.opening.synced
    | observed | rollbackObserved =>
      obtain ⟨last, stored, same⟩ := ih
      exact ⟨last, (lastPersisted_append_none rfl).trans stored, same⟩
    | rolledBack =>
      obtain ⟨last, stored, same⟩ := ih
      exact ⟨last, (lastPersisted_append_none rfl).trans stored,
        (statuses_recordedRun _).trans same⟩
    | _ => trivial

variable {answer : Except ActivityFailure VerificationResult}

theorem Moves.halted_of_verify (failed : ∀ result, answer = .ok result → result.outcome ≠ .pass)
    (moves : Moves digest order total location ⟨.verify deployment, answer⟩ next)
    (synced : location.Synced history) (labelled : location.Labelled) :
    ∃ last, lastPersisted history = some last ∧ next.Halted last := by
  cases moves with
  | verifyFailed | rollbackVerifyFailed =>
    obtain ⟨last, stored, same⟩ := synced
    refine ⟨last, stored, rfl, ?_, ?_⟩
    · rintro run ⟨⟩ ⟨⟩
    · rintro run ⟨⟩ index now
      exact same ▸ keeps_stoppedRun _ _ (by simp [Earned]) index _ (Or.inl rfl) now
  | verified =>
    obtain ⟨last, stored, same⟩ := synced
    refine ⟨last, stored, failed _ rfl, ?_, ?_⟩
    · rintro run ⟨⟩
      simp [labelled _ rfl]
    · rintro run ⟨⟩ index now
      exact same ▸ now
  | rollbackVerified =>
    obtain ⟨last, stored, same⟩ := synced
    refine ⟨last, stored, trivial, ?_, ?_⟩
    · rintro run ⟨⟩
      simp [labelled _ rfl]
    · rintro run ⟨⟩ index now
      exact same ▸ now

theorem Reaches.halted {before after : History}
    (failed : ∀ result, answer = .ok result → result.outcome ≠ .pass)
    (reached : Reaches digest order total input (before ++ ⟨.verify deployment, answer⟩ :: after)
      location) : ∃ last, lastPersisted before = some last ∧ location.Halted last := by
  induction after using List.reverseRecOn generalizing location with
  | nil =>
    obtain ⟨earlier, reachedBefore, moves⟩ := reached.last
    exact moves.halted_of_verify failed reachedBefore.synced reachedBefore.labelled
  | append_singleton after event ih =>
    rw [← List.cons_append, ← List.append_assoc] at reached
    obtain ⟨earlier, reachedBefore, moves⟩ := reached.last
    obtain ⟨last, stored, halted⟩ := ih reachedBefore
    exact ⟨last, stored, moves.halted halted⟩

/-- The step at an index may be rolled back without a person. -/
def Automatic (input : ReleaseRun) (index : ℕ) : Prop :=
  ∃ original, input.steps[index]? = some original ∧ original.rollbackMode = .automatic

def Goal.Permitted (input : ReleaseRun) : Goal → Prop
  | rollback index _ _ => Automatic input index
  | _ => True

/-- Rollbacks are automatic ones. -/
def Location.Permitted (input : ReleaseRun) : Location → Prop
  | stamp goal _ | store goal _ | completing goal _ _ _ => goal.Permitted input
  | rollingBack index _ _ _ _ => Automatic input index
  | _ => True

theorem Location.Opening.permitted (opening : location.Opening) : location.Permitted input := by
  cases opening <;> trivial

theorem Stores.permitted (stores : Stores order total goal run location)
    (permitted : goal.Permitted input) : location.Permitted input := by
  cases stores with
  | begin | succeed => exact opening_enter.permitted
  | resumePoll _ begins => exact begins.opening.permitted
  | rollback => exact permitted
  | _ => trivial

theorem Reaches.permitted (reached : Reaches digest order total input history location) :
    location.Permitted input := by
  induction reached with
  | start => trivial
  | move reached moves ih =>
    cases moves with
    | stored _ _ stores => exact stores.permitted ih
    | begins begins => exact begins.opening.permitted
    | rolls _ _ automatic =>
      obtain ⟨original, found, outline⟩ := reached.step rfl
      have same := (congrArg ReleaseStep.rollbackMode outline :)
      exact ⟨original, found, same.symm.trans automatic⟩
    | stamp | completed => exact ih
    | _ => trivial

theorem exists_rollingBack {request : RollbackInput} (asks : location.Asks (.rollback request)) :
    ∃ index run step reason, location = .rollingBack index run step request reason := by
  cases location with
  | rollingBack index run step input reason =>
    cases asks
    exact ⟨index, run, step, reason, rfl⟩
  | store =>
    obtain ⟨_, _, impossible⟩ := asks
    cases impossible
  | _ => cases asks

/-- The answers which the activities can give, with verifications by `Activities.verify`. -/
def Checks (digest : Digest) : (op : Op) → op.Res → Prop
  | .verify _, .ok result => ∃ answer, Activities.verify digest answer = .ok result
  | op, answer => Legal op answer

theorem Checks.legal {op : Op} {answer : op.Res} (checks : Checks digest op answer) :
    Legal op answer := by
  cases op with
  | verify => trivial
  | _ => exact checks

/-- A release asks for a rollback only where the step has an automatic one. -/
theorem automatic_of_rollback {machine : Machine requests}
    (allowed : ∀ world op answer next, machine.answers world op answer next → Legal op answer)
    {order : StepOrder} {input : ReleaseRun} {start last : machine.World}
    {events : History} {rest : Prog requests Exit}
    (ran : Runs machine start (releaseWorkflow digest order input) events last rest)
    {request : RollbackInput} {next : Except ActivityFailure RollbackResult → Prog requests Exit}
    (requested : rest.head = .request (.rollback request) next) :
    ∃ (index : ℕ) (original : ReleaseStep), input.steps[index]? = some original ∧
      original.rollbackMode = .automatic ∧ request.deploy = deployInput input original := by
  obtain ⟨location, reached, asks⟩ := (releaseWorkflow_follows allowed ran).2 _ _ requested
  obtain ⟨index, run, step, reason, rfl⟩ := exists_rollingBack asks
  obtain ⟨original, found, automatic⟩ := reached.permitted
  obtain ⟨same, here, eq⟩ := reached.deployInput rfl
  obtain rfl : same = original := by simpa [here] using found
  exact ⟨index, same, here, automatic, eq⟩

/--
In the runs which a release persists and returns, a step which has to be verified
has succeeded only if the first verification of its deployment has passed with
evidence, and a step was rolled back only if the verification of its rollback has.
After a verification which did not pass, neither the release nor any further step
has succeeded. Only steps with automatic rollbacks are rolled back.
-/
theorem evidence_of_progress {digest : Digest} {order : StepOrder}
    {input : ReleaseRun} {events : History} {rest : Prog requests Exit}
    (ran : Runs (Machine.free (Checks digest)) () (releaseWorkflow digest order input) events ()
      rest) :
    (∀ run, Shows rest run → Backed (Evidenced digest) input events run ∧
      ∀ before deployment answer after, events = before ++ ⟨.verify deployment, answer⟩ :: after →
        (∀ result, answer = .ok result → result.outcome ≠ .pass) →
        run.status ≠ .succeeded ∧ ∃ last, lastPersisted before = some last ∧
          ∀ index : ℕ, (statuses run)[index]? = some .succeeded →
            (statuses last)[index]? = some .succeeded) ∧
    ∀ request next, rest.head = .request (.rollback request) next →
      ∃ (index : ℕ) (original : ReleaseStep), input.steps[index]? = some original ∧
        original.rollbackMode = .automatic ∧ request.deploy = deployInput input original := by
  constructor
  · intro run shown
    obtain ⟨location, reached, member⟩ :=
      exists_reaches_of_shows (fun _ _ _ _ checks => Checks.legal checks) ran shown
    constructor
    · refine (reached.backed run member).mono fun verified pass => ⟨verified, ?_⟩
      obtain ⟨deployment, made⟩ := verified.mem
      obtain ⟨answer, returned⟩ := ran.legal _ made
      exact evidenced_of_verify returned pass
    · rintro before deployment answer after rfl failed
      obtain ⟨last, stored, halted⟩ := reached.halted failed
      exact ⟨halted.status run member, last, stored, halted.steps run member⟩
  · exact fun request next requested =>
      automatic_of_rollback (fun _ _ _ _ checks => Checks.legal checks) ran requested

/-- A verification of the tests, which passes or is inconclusive. -/
def verification (digest : Digest) (passes : Bool) : VerificationResult :=
  let status : VerificationStatus := if passes then .pass else .inconclusive
  let unsigned : AdapterEvidence :=
    ⟨status, "HEALTH", ⟨"prometheus", "sha256:query", 1, 2, 2, .finite 0, .finite 1, "v1", ""⟩⟩
  let evidenceHash := (unsigned.hash digest).toOption.getD ""
  { (default : VerificationResult) with
    status
    evidence := { unsigned with evidence := { unsigned.evidence with evidenceHash } } }

/-- The deployments of one service pass their verifications, and those of the others do not. -/
def oneServicePasses (digest : Digest) (service : String) : Strategy requests Unit
  | world, .deploy request => (.ok ⟨default, { externalID := request.service }⟩, world)
  | world, .verify deployment =>
    let verified := verification digest (deployment.externalID = service)
    match Activities.verify digest (.ok verified) with
    | .ok result => (.ok result, world)
    | .error _ => (.error ⟨"verification failed"⟩, world)
  | world, .rollback request => (.ok ⟨default, request.deployment⟩, world)
  | world, op => (smooth op, world)

theorem checks_oneServicePasses (digest : Digest) (service : String) (world : Unit) (op : Op) :
    Checks digest op (oneServicePasses digest service world op).1 := by
  cases op with
  | verify deployment =>
    simp only [oneServicePasses]
    split
    · next result verified => exact ⟨_, verified⟩
    · trivial
  | persistRun => rfl
  | _ => trivial

/-- The first of two steps has evidence, and the second one does not get it. -/
theorem evidence_of_progress_escalated :
    ∃ plan events run result,
      let input := runOf ["web", "api"] plan
      Plans catalog ["web", "api"] plan ∧
      Runs (Machine.free (Checks default)) () (releaseWorkflow default .stored input) events ()
        (.pure (.ok run)) ∧
      statuses run = [.succeeded, .escalated] ∧ Evidenced default result ∧
      ∃ original ∈ input.steps, original.service = "api" ∧
        Verified (Deploys (deployInput input original)) events result := by
  let played (plan : ReleasePlan) := play (oneServicePasses default "api") 60 ()
    (rehearsal ["web", "api"] plan)
  have evaluated : rehearse catalog ["web", "api"] (fun plan =>
      (ended statuses (played plan).2.2,
        (runOf ["web", "api"] plan).steps[0]?.map fun step =>
          (step.service, step.verificationRequired, step.status))) =
        .ok (some [.succeeded, .escalated], some ("api", true, .pending)) := by
    decide +kernel
  obtain ⟨plan, plans, reached⟩ := exists_of_rehearse evaluated
  obtain ⟨finished, first⟩ := Prod.mk.inj reached
  obtain ⟨run, returned, shape⟩ := exists_of_ended finished
  have ran : Runs (Machine.free (Checks default)) ()
      (rehearsal ["web", "api"] plan) (played plan).1 ()
      (.pure (.ok run)) := by
    rw [← returned]
    have allowed : ∀ world op, (Machine.free (Checks default)).answers world op
        (oneServicePasses default "api" world op).1 (oneServicePasses default "api" world op).2 :=
      checks_oneServicePasses default "api"
    exact runs_play allowed 60 _ _
  obtain ⟨original, here, fields⟩ := Option.map_eq_some_iff.mp first
  obtain ⟨service, required, pending⟩ :
      original.service = "api" ∧ original.verificationRequired = true ∧
        original.status = .pending := by simpa using fields
  have succeeded : (statuses run)[0]? = some .succeeded := by
    rw [shape]
    rfl
  have evidence := ((evidence_of_progress ran).1 run (.returns run)).1
  obtain ⟨result, verified, evidenced⟩ := evidence.succeeded
    0 original here required (by simp [pending]) succeeded
  exact ⟨plan, _, run, result, plans, ran, shape, evidenced, original, List.mem_of_getElem? here,
    service, verified⟩

end Themisy.Workflow.Release
