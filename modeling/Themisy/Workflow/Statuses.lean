import Themisy.Workflow.Labels

/-!
# The statuses of the steps

The steps of a release whose steps are all pending at the start are processed in their
order: the earlier ones have succeeded, the later ones are pending, and the statuses of
the run and of the current step follow from the location of the workflow. When it
returns, the later steps have been cancelled. The same induction counts the
deployments, which are those of the first steps, in order.
-/

namespace Themisy.Workflow.Release

open Domain Interaction

/-- The statuses of the steps. -/
def statuses (run : ReleaseRun) : List StepStatus :=
  run.steps.map ReleaseStep.status

/-- The run is at a step: those before have succeeded. -/
structure At (total index : ℕ) (status : RunStatus) (current : StepStatus) (run : ReleaseRun) :
    Prop where
  bound : index < total
  status : run.status = status
  steps : statuses run = List.replicate index .succeeded ++
    current :: List.replicate (total - (index + 1)) .pending

/-- The statuses of a run and of the step at which it has stopped. -/
def stops : List (RunStatus × StepStatus) :=
  [(.blocked, .blocked), (.blocked, .unknown), (.escalated, .escalated), (.failed, .rolledBack)]

/-- The shapes of a finished run, with the number of steps which were deployed. -/
inductive Final (total deployed : ℕ) : RunStatus → List StepStatus → Prop where
  | succeeded (all : deployed = total) :
      Final total deployed .succeeded (List.replicate total .succeeded)
  | cancelled (index : ℕ) (bound : index < total) (before : deployed = index) :
      Final total deployed .cancelled
        (List.replicate index .succeeded ++ List.replicate (total - index) .cancelled)
  | stopped {status : RunStatus} {culprit : StepStatus} (index : ℕ) (bound : index < total)
      (listed : (status, culprit) ∈ stops) (lower : index ≤ deployed)
      (upper : deployed ≤ index + 1) :
      Final total deployed status
        (List.replicate index .succeeded ++
          culprit :: List.replicate (total - (index + 1)) .cancelled)

/-- A run which may be returned. -/
def Finished (total deployed : ℕ) (run : ReleaseRun) : Prop :=
  Final total deployed run.status (statuses run)

section Runs

variable {total index deployed : ℕ} {status : RunStatus} {current : StepStatus} {run : ReleaseRun}

variable {change : ReleaseStep → ReleaseStep}

theorem statuses_setStep (run : ReleaseRun) (index : ℕ) (after : StepStatus → StepStatus)
    (changed : ∀ step, (change step).status = after step.status) :
    statuses (setStep run index change) = (statuses run).modify index after :=
  map_steps_setStep run index after changed

theorem modify_replicate_append (index : ℕ) (first current : StepStatus) (rest : List StepStatus)
    (after : StepStatus → StepStatus) :
    (List.replicate index first ++ current :: rest).modify index after =
      List.replicate index first ++ after current :: rest := by
  induction index with
  | zero => rfl
  | succ index ih => simpa [List.replicate_succ] using ih

section

variable (here : At total index status current run)

include here

theorem At.set {next : StepStatus} (changed : ∀ step, (change step).status = next) :
    At total index status next (setStep run index change) := by
  refine ⟨here.bound, here.status, ?_⟩
  rw [statuses_setStep run index (fun _ => next) changed, here.steps]
  exact modify_replicate_append index _ current _ fun _ => next

theorem At.keep (kept : ∀ step, (change step).status = step.status) :
    At total index status current (setStep run index change) := by
  refine ⟨here.bound, here.status, ?_⟩
  rw [statuses_setStep run index id kept, here.steps]
  exact modify_replicate_append index _ current _ id

theorem At.relabel {next : ReleaseRun}
    {label : RunStatus} (labelled : next.status = label) (steps : next.steps = run.steps) :
    At total index label current next := by
  refine ⟨here.bound, labelled, ?_⟩
  rw [statuses, steps]
  exact here.steps

theorem At.status_eq {step : ReleaseStep}
    (found : run.steps[index]? = some step) : step.status = current := by
  have same := congrArg (fun list => list[index]?) here.steps
  simp only [statuses, List.getElem?_map, found, Option.map_some] at same
  simpa using same

end

theorem statuses_cancelSteps (cancelled : List StepStatus) (first : ℕ) (run : ReleaseRun) :
    statuses (cancelSteps cancelled first run) = (statuses run).take first ++
      ((statuses run).drop first).map fun status =>
        if status ∈ cancelled then .cancelled else status := by
  simp only [statuses, cancelSteps, List.map_append, List.map_take, List.map_drop, List.map_map]
  congr 3
  funext step
  simp only [Function.comp, cancelStep]
  split <;> rfl

section

variable (here : At total index status current run)

include here

theorem At.stop
    (listed : (status, current) ∈ stops) (lower : index ≤ deployed) (upper : deployed ≤ index + 1) :
    Finished total deployed (cancelDownstream (index + 1) run) := by
  have steps : statuses (cancelDownstream (index + 1) run) = List.replicate index .succeeded ++
      current :: List.replicate (total - (index + 1)) .cancelled := by
    rw [cancelDownstream, statuses_cancelSteps, here.steps, List.take_append, List.drop_append]
    simp
  have label : (cancelDownstream (index + 1) run).status = status := here.status
  rw [Finished, label, steps]
  exact .stopped index here.bound listed lower upper

theorem At.cancel (unfinished : current ∈ [StepStatus.pending, .waitingApproval]) :
    Finished total index (cancelledRun run index) := by
  have steps : statuses (cancelledRun run index) = List.replicate index .succeeded ++
      List.replicate (total - index) .cancelled := by
    have remaining : total - index = (total - (index + 1)) + 1 := by
      have := here.bound
      omega
    have cancels : statuses (cancelledRun run index) =
        statuses (cancelSteps [.pending, .waitingApproval] index run) := rfl
    rw [cancels, statuses_cancelSteps, here.steps, remaining, List.replicate_succ,
      List.take_append, List.drop_append]
    simp [List.mem_pair.mp unfinished]
  rw [Finished, steps]
  exact .cancelled index here.bound rfl

theorem At.stopped {culprit : StepStatus}
    {runStatus : RunStatus} {failure : String} (listed : (runStatus, culprit) ∈ stops)
    (lower : index ≤ deployed) (upper : deployed ≤ index + 1) :
    Finished total deployed (stoppedRun run index culprit failure runStatus) := by
  have changed : At total index status culprit
      (setStep run index fun step => { step with status := culprit, failure }) :=
    here.set fun _ => rfl
  have failed : At total index runStatus culprit (failStep run index culprit failure runStatus) :=
    changed.relabel rfl rfl
  exact failed.stop listed lower upper

theorem At.blocked (change : Approval → Approval) :
    Finished total index (blockRun run index change) := by
  have changed : At total index status .blocked (setStep run index (decideStep change .blocked)) :=
    here.set fun _ => rfl
  have failed : At total index .blocked .blocked
      { setStep run index (decideStep change .blocked) with status := .blocked } :=
    changed.relabel rfl rfl
  exact failed.stop (by decide) le_rfl (by omega)

theorem At.awaiting (approval : Approval) (now : Time) :
    At total index .waitingApproval .waitingApproval (awaitingRun run index approval now) := by
  have changed : At total index status .waitingApproval (setStep run index fun step =>
      { step with approval := some approval, status := .waitingApproval }) :=
    here.set fun _ => rfl
  exact changed.relabel rfl rfl

theorem At.approved (signal : ApprovalSignal) (decidedAt : Time) :
    At total index .running .pending (approvedRun run index signal decidedAt) := by
  have changed : At total index status .pending
      (setStep run index (decideStep (decidedApproval signal decidedAt .approved) .pending)) :=
    here.set fun _ => rfl
  exact changed.relabel rfl rfl

theorem At.recorded (record : Record) :
    At total index status current (recordedRun run index record) :=
  here.keep fun _ => by cases record <;> rfl

end

end Runs

def Wait.stepStatus : Wait → StepStatus
  | poll => .pending
  | approval => .waitingApproval

/-- What is known about a run which is persisted with a goal. -/
def Goal.Fits (total deployed : ℕ) (run : ReleaseRun) : Goal → Prop
  | begin => deployed = 0 ∧ run.status = .running ∧ statuses run = List.replicate total .pending
  | pause wait index => deployed = index ∧ run.pausedFrom = some wait.runStatus ∧
      At total index .paused wait.stepStatus run
  | resume wait index => deployed = index ∧ At total index wait.runStatus wait.stepStatus run
  | evaluate index _ => deployed = index ∧ At total index .running .pending run
  | await index => deployed = index ∧ At total index .waitingApproval .waitingApproval run
  | approve index => deployed = index ∧ At total index .running .pending run
  | execute index => deployed = index ∧ At total index .running .executing run
  | verify index _ _ => deployed = index + 1 ∧ At total index .running .verifying run
  | rollback index _ _ => deployed = index + 1 ∧ At total index .running .rollingBack run
  | succeed index => deployed = index + 1 ∧ At total index .running .succeeded run
  | finish => Finished total deployed run

/-- What is known about the run at a location. -/
def Location.Fits (total deployed : ℕ) : Location → Prop
  | stamp goal run | store goal run | completing goal run _ _ => goal.Fits total deployed run
  | poll index run | pollPause index run => deployed = index ∧ At total index .running .pending run
  | paused wait index run => deployed = index ∧ run.pausedFrom = some wait.runStatus ∧
      At total index .paused wait.stepStatus run
  | evaluating index run _ | requesting index run _ =>
    deployed = index ∧ At total index .running .pending run
  | waiting index run | selecting index run _ _ | deciding index run _ =>
    deployed = index ∧ At total index .waitingApproval .waitingApproval run
  | acquiring index run _ => deployed = index ∧ At total index .running .pending run
  | deploying index run _ => deployed = index ∧ At total index .running .executing run
  | observing index run _ _ _ | verifying index run _ _ _ | checking index run _ _ _ _ =>
    deployed = index + 1 ∧ At total index .running .verifying run
  | rollingBack index run _ _ _ | rollbackObserving index run _ _ _
  | rollbackVerifying index run _ _ _ | rollbackChecking index run _ _ _ =>
    deployed = index + 1 ∧ At total index .running .rollingBack run
  | finished (.ok run) => Finished total deployed run
  | finished (.error _) => True

def deployment : Event requests → Option DeployInput
  | ⟨.deploy request, _⟩ => some request
  | _ => none

def deployments (history : History) : List DeployInput :=
  history.filterMap deployment

theorem deployments_append (history : History) (event : Event requests) :
    deployments (history ++ [event]) = deployments history ++ (deployment event).toList := by
  rw [deployments, List.filterMap_append, List.filterMap_cons, List.filterMap_nil, deployments]
  cases deployment event <;> rfl

section Fits

variable {digest : Digest} {order : StepOrder} {total deployed index : ℕ}
  {run : ReleaseRun} {location next : Location} {event : Event requests}

theorem Goal.Fits.congr {goal : Goal} (fits : goal.Fits total deployed run) {other : ReleaseRun}
    (status : other.status = run.status) (pausedFrom : other.pausedFrom = run.pausedFrom)
    (steps : other.steps = run.steps) : goal.Fits total deployed other := by
  have same : statuses other = statuses run := congrArg (List.map ReleaseStep.status) steps
  have moved : ∀ {index status current}, At total index status current run →
      At total index status current other := fun here =>
    ⟨here.bound, status.trans here.status, same.trans here.steps⟩
  cases goal with
  | begin => exact ⟨fits.1, status.trans fits.2.1, same.trans fits.2.2⟩
  | pause => exact ⟨fits.1, pausedFrom.trans fits.2.1, moved fits.2.2⟩
  | finish =>
    unfold Goal.Fits Finished at *
    rw [status, same]
    exact fits
  | _ => exact ⟨fits.1, moved fits.2⟩

theorem fits_enter (bound : index ≤ total) (status : run.status = .running)
    (steps : statuses run = List.replicate index .succeeded ++
      List.replicate (total - index) .pending) :
    (enter total index run).Fits total index := by
  unfold enter
  split
  · next inside =>
    refine ⟨rfl, inside, status, ?_⟩
    rw [steps, ← List.replicate_succ]
    congr 2
    omega
  · next outside =>
    obtain rfl : index = total := by omega
    have all : statuses { run with status := .succeeded } = List.replicate index .succeeded := by
      rw [Nat.sub_self, List.replicate_zero, List.append_nil] at steps
      exact steps
    simp only [Location.Fits, Goal.Fits, Finished, all]
    exact .succeeded rfl

theorem Begins.fits (begins : Begins total index run location)
    (here : At total index .running .pending run) : location.Fits total index := by
  cases begins with
  | done step found succeeded =>
    rw [here.status_eq found] at succeeded
    cases succeeded
  | unmet => exact here.stopped (by decide) le_rfl (Nat.le_succ _)
  | evaluate => exact ⟨rfl, here⟩
  | missing => trivial

theorem Stores.fits {goal : Goal} (stores : Stores order total goal run location)
    (fits : goal.Fits total deployed run) : location.Fits total deployed := by
  cases stores with
  | begin assigned =>
    obtain ⟨rfl, status, steps⟩ := fits
    obtain ⟨wave, rfl⟩ := exists_waves_of_assignWaves assigned
    refine fits_enter (by omega) status ?_
    simpa [statuses, Function.comp_def] using steps
  | resumePoll _ begins =>
    obtain ⟨rfl, here⟩ := fits
    exact begins.fits here
  | @resumeCancelled wait _ _ cancelled =>
    obtain ⟨-, here⟩ := fits
    rw [here.status] at cancelled
    cases wait <;> cases cancelled
  | deny =>
    obtain ⟨rfl, here⟩ := fits
    exact here.stopped (by decide) le_rfl (Nat.le_succ _)
  | succeed index =>
    obtain ⟨rfl, here⟩ := fits
    refine fits_enter here.bound here.status ?_
    rw [here.steps, List.replicate_succ', List.append_assoc]
    rfl
  | beginFailed | missing => trivial
  | _ => exact fits

theorem Moves.fits (moves : Moves digest order total location event next)
    (fits : location.Fits total deployed) :
    next.Fits total (deployed + (deployment event).toList.length) := by
  cases moves with
  | stamp goal => exact Goal.Fits.congr fits rfl rfl rfl
  | stored _ _ stores => exact stores.fits (Goal.Fits.congr fits rfl rfl rfl)
  | pollCancelled | selectCancelled =>
    obtain ⟨rfl, here⟩ := fits
    exact here.cancel (by decide)
  | pollPaused | selectPaused =>
    obtain ⟨rfl, here⟩ := fits
    exact ⟨rfl, congrArg some here.status, here.relabel rfl rfl⟩
  | begins begins =>
    obtain ⟨rfl, here⟩ := fits
    exact begins.fits here
  | @cancelled wait =>
    obtain ⟨rfl, -, here⟩ := fits
    exact here.cancel (by cases wait <;> decide)
  | @resumed wait _ run =>
    obtain ⟨rfl, before, here⟩ := fits
    have resumed : (resumedRun run).status = wait.runStatus := by
      simp only [resumedRun, before, Option.getD_some]
    exact ⟨rfl, here.relabel resumed rfl⟩
  | evaluated => exact ⟨fits.1, fits.2.keep fun _ => rfl⟩
  | requested => exact ⟨fits.1, fits.2.awaiting _ _⟩
  | selectExpired | revoked | denied =>
    obtain ⟨rfl, here⟩ := fits
    exact here.blocked _
  | approved => exact ⟨fits.1, fits.2.approved _ _⟩
  | acquired => exact ⟨fits.1, fits.2.set fun _ => rfl⟩
  | backpressured | deployFailed =>
    obtain ⟨rfl, here⟩ := fits
    exact here.stopped (by decide) (Nat.le_add_right _ _) (by simp [deployment])
  | deployed | deployedUnverified =>
    obtain ⟨rfl, here⟩ := fits
    exact ⟨rfl, .set (here.recorded _) fun _ => rfl⟩
  | passed | rolls => exact ⟨fits.1, .set (fits.2.recorded _) fun _ => rfl⟩
  | verifyFailed | rollbackFailed | rollbackVerifyFailed =>
    obtain ⟨rfl, here⟩ := fits
    exact here.stopped (by decide) (Nat.le_succ _) le_rfl
  | escalated | rollbackPassed | rollbackRejected =>
    obtain ⟨rfl, here⟩ := fits
    exact (here.recorded _).stopped (by decide) (Nat.le_succ _) le_rfl
  | rolledBack => exact ⟨fits.1, fits.2.keep fun _ => rfl⟩
  | storeFailed | evaluateFailed | requestMissing | waitMissing | acquireFailed | completeFailed
  | observeFailed | rollbackObserveFailed => trivial
  | _ => exact fits

/-- A transition answers a request which the workflow makes at its location. -/
theorem Moves.asks (moves : Moves digest order total location event next) :
    location.Asks event.1 := by
  cases moves with
  | stored audits eventType | storeFailed audits eventType => exact ⟨audits, eventType, rfl⟩
  | _ => rfl

theorem exists_deploying {request : DeployInput} (asks : location.Asks (.deploy request)) :
    ∃ index run step, location = .deploying index run step := by
  cases location with
  | deploying index run step => exact ⟨index, run, step, rfl⟩
  | store =>
    obtain ⟨_, _, impossible⟩ := asks
    cases impossible
  | _ => cases asks

theorem Reaches.fits {input : ReleaseRun} {history : History}
    (pending : ∀ step ∈ input.steps, step.status = .pending)
    (reached : Reaches digest order input.steps.length input history location) :
    location.Fits input.steps.length (deployments history).length ∧
      deployments history =
        (input.steps.take (deployments history).length).map (Release.deployInput input) := by
  induction reached with
  | start =>
    refine ⟨⟨rfl, rfl, ?_⟩, rfl⟩
    rw [List.eq_replicate_iff]
    refine ⟨List.length_map _, ?_⟩
    intro status member
    obtain ⟨step, stepMem, rfl⟩ := List.mem_map.mp member
    exact pending step stepMem
  | @move history location next event reached moves ih =>
    obtain ⟨fits, first⟩ := ih
    rw [deployments_append, List.length_append]
    refine ⟨moves.fits fits, ?_⟩
    cases made : deployment event with
    | none => simpa using first
    | some request =>
      obtain ⟨op, answer⟩ := event
      have asks := moves.asks
      cases op with
      | deploy made =>
        cases made
        obtain ⟨index, run, step, rfl⟩ := exists_deploying asks
        obtain ⟨count, -⟩ := fits
        obtain ⟨original, found, sameStep⟩ := reached.step rfl
        have same : request = Release.deployInput input original := by
          rw [← deployInput_eq_of_outline (reached.outline run rfl) sameStep]
          exact Op.deploy.inj asks
        rw [count] at first ⊢
        simp only [Option.toList_some, List.length_singleton, List.take_add_one, found,
          List.map_append, List.map_cons, List.map_nil, ← first, same]
      | _ => cases made

end Fits

end Themisy.Workflow.Release
