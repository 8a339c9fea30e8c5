import Themisy.Workflow.Locations

/-!
# What a release keeps

While a release runs, only its progress changes: the status of the run, the
recorded decisions, approvals, executions and verifications of its steps, and
bookkeeping such as versions and times. The rest is the outline of the run. It
is the same at every location of the workflow, and every location is at a step
which the run has.
-/

namespace Themisy.Workflow.Release

open Domain Interaction

/-- A step without what the workflow records in it. -/
def stepOutline (step : ReleaseStep) : ReleaseStep :=
  { step with
    wave := 0
    status := .pending
    policy := none
    approval := none
    execution := none
    verification := none
    rollbackExecution := none
    rollbackVerification := none
    failure := "" }

/-- A run without its progress. -/
def runOutline (run : ReleaseRun) : ReleaseRun :=
  { run with
    status := .pending
    pausedFrom := none
    steps := run.steps.map stepOutline
    stateVersion := 0
    updatedAt := 0 }

variable {order : StepOrder} {change : ReleaseStep → ReleaseStep}
  {waved input other : ReleaseRun} {index : ℕ} {goal : Goal} {history : History}
  {found : ℕ × ReleaseStep}

section Columns

variable {β : Type} {column : ReleaseStep → β} (run : ReleaseRun) (index : ℕ)

theorem map_steps_setStep (after : β → β)
    (changed : ∀ step, column (change step) = after (column step)) :
    (setStep run index change).steps.map column = (run.steps.map column).modify index after := by
  apply List.ext_getElem?
  intro place
  simp only [setStep, List.getElem?_map, List.getElem?_modify]
  cases run.steps[place]? with
  | none => rfl
  | some step =>
    by_cases here : index = place
    · simp [here, changed]
    · simp [here]

/-- A column which a change of a step leaves alone. -/
theorem map_steps_setStep_of_same (same : ∀ step, column (change step) = column step) :
    (setStep run index change).steps.map column = run.steps.map column := by
  rw [map_steps_setStep run index id same, List.modify_id]

theorem map_steps_cancelSteps {statuses : List StepStatus}
    (same : ∀ step, column (cancelStep statuses step) = column step) :
    (cancelSteps statuses index run).steps.map column = run.steps.map column := by
  have kept : column ∘ cancelStep statuses = column := funext same
  rw [cancelSteps, List.map_append, List.map_map, kept, ← List.map_append, List.take_append_drop]

theorem map_steps_assignWaves
    (same : ∀ (step : ReleaseStep) (wave : ℕ), column { step with wave } = column step)
    (assigned : assignWaves order run = .ok waved) :
    waved.steps.map column = run.steps.map column := by
  obtain ⟨wave, rfl⟩ := exists_waves_of_assignWaves assigned
  simp [Function.comp_def, same]

end Columns

section Updates

variable (run : ReleaseRun) (index : ℕ)

@[simp]
theorem stepOutline_cancelStep (statuses : List StepStatus) (step : ReleaseStep) :
    stepOutline (cancelStep statuses step) = stepOutline step := by
  unfold cancelStep
  split <;> rfl

theorem runOutline_setStep (same : ∀ step, stepOutline (change step) = stepOutline step) :
    runOutline (setStep run index change) = runOutline run := by
  unfold runOutline
  rw [map_steps_setStep_of_same run index same]
  rfl

theorem runOutline_cancelSteps (statuses : List StepStatus) (first : ℕ) :
    runOutline (cancelSteps statuses first run) = runOutline run := by
  unfold runOutline
  rw [map_steps_cancelSteps run first (stepOutline_cancelStep statuses)]
  rfl

@[simp]
theorem runOutline_cancelledRun : runOutline (cancelledRun run index) = runOutline run :=
  runOutline_cancelSteps run _ index

@[simp]
theorem runOutline_pausedRun : runOutline (pausedRun run) = runOutline run := rfl

@[simp]
theorem runOutline_resumedRun : runOutline (resumedRun run) = runOutline run := rfl

@[simp]
theorem runOutline_persisted : runOutline (Activities.persisted run) = runOutline run := rfl

@[simp]
theorem runOutline_stoppedRun (status : StepStatus) (failure : String) (runStatus : RunStatus) :
    runOutline (stoppedRun run index status failure runStatus) = runOutline run := by
  rw [stoppedRun, cancelDownstream, runOutline_cancelSteps]
  exact runOutline_setStep run index fun _ => rfl

@[simp]
theorem runOutline_awaitingRun (approval : Approval) (now : Time) :
    runOutline (awaitingRun run index approval now) = runOutline run :=
  runOutline_setStep run index fun _ => rfl

@[simp]
theorem runOutline_approvedRun (signal : ApprovalSignal) (decidedAt : Time) :
    runOutline (approvedRun run index signal decidedAt) = runOutline run :=
  runOutline_setStep run index fun _ => rfl

@[simp]
theorem runOutline_blockRun (change : Approval → Approval) :
    runOutline (blockRun run index change) = runOutline run := by
  rw [blockRun, cancelDownstream, runOutline_cancelSteps]
  exact runOutline_setStep run index fun _ => rfl

@[simp]
theorem runOutline_markedRun (status : StepStatus) :
    runOutline (markedRun run index status) = runOutline run :=
  runOutline_setStep run index fun _ => rfl

@[simp]
theorem runOutline_recordedRun (record : Record) :
    runOutline (recordedRun run index record) = runOutline run :=
  runOutline_setStep run index fun _ => by cases record <;> rfl

theorem runOutline_assignWaves (assigned : assignWaves order run = .ok waved) :
    runOutline waved = runOutline run := by
  obtain ⟨wave, rfl⟩ := exists_waves_of_assignWaves assigned
  simp only [runOutline, List.map_map]
  congr 1

end Updates

def approvalColumn (run : ReleaseRun) : List (Option Approval) :=
  run.steps.map ReleaseStep.approval

section Approvals

variable (run : ReleaseRun) (index : ℕ)

theorem approval_cancelStep (statuses : List StepStatus) (step : ReleaseStep) :
    (cancelStep statuses step).approval = step.approval := by
  unfold cancelStep
  split <;> rfl

@[simp]
theorem approvalColumn_cancelSteps (statuses : List StepStatus) (first : ℕ) :
    approvalColumn (cancelSteps statuses first run) = approvalColumn run :=
  map_steps_cancelSteps run first (approval_cancelStep statuses)

@[simp]
theorem approvalColumn_cancelledRun :
    approvalColumn (cancelledRun run index) = approvalColumn run :=
  approvalColumn_cancelSteps run _ index

@[simp]
theorem approvalColumn_stoppedRun (status : StepStatus) (failure : String) (runStatus : RunStatus) :
    approvalColumn (stoppedRun run index status failure runStatus) = approvalColumn run := by
  rw [stoppedRun, cancelDownstream, approvalColumn_cancelSteps]
  exact map_steps_setStep_of_same run index fun _ => rfl

@[simp]
theorem approvalColumn_markedRun (status : StepStatus) :
    approvalColumn (markedRun run index status) = approvalColumn run :=
  map_steps_setStep_of_same run index fun _ => rfl

@[simp]
theorem approvalColumn_recordedRun (record : Record) :
    approvalColumn (recordedRun run index record) = approvalColumn run :=
  map_steps_setStep_of_same run index fun _ => by cases record <;> rfl

theorem approvalColumn_assignWaves (assigned : assignWaves order run = .ok waved) :
    approvalColumn waved = approvalColumn run :=
  map_steps_assignWaves run (fun _ _ => rfl) assigned

end Approvals

/-- The run at a location. -/
def Location.run : Location → Option ReleaseRun
  | stamp _ run | store _ run | poll _ run | pollPause _ run | paused _ _ run
  | evaluating _ run _ | requesting _ run _ | waiting _ run | selecting _ run _ _
  | deciding _ run _ | acquiring _ run _ | deploying _ run _ | completing _ run _ _
  | observing _ run _ _ _ | verifying _ run _ _ _ | checking _ run _ _ _ _
  | rollingBack _ run _ _ _ | rollbackObserving _ run _ _ _ | rollbackVerifying _ run _ _ _
  | rollbackChecking _ run _ _ _ => some run
  | finished exit => exit.toOption

/-- The step which the workflow is at. -/
def Goal.place : Goal → Option ℕ
  | begin => none
  | pause _ index | resume _ index | evaluate index _ | await index | approve index
  | execute index | verify index _ _ | rollback index _ _ | succeed index => some index
  | finish => none

theorem Goal.index_eq_place (reads : goal.index = some index) : goal.place = some index := by
  cases goal <;> first | exact reads | cases reads

def Location.place : Location → Option ℕ
  | stamp goal _ | store goal _ => goal.place
  | poll index _ | pollPause index _ | paused _ index _ | evaluating index _ _
  | requesting index _ _ | waiting index _ | selecting index _ _ _ | deciding index _ _
  | acquiring index _ _ | deploying index _ _ => some index
  | completing goal _ _ _ => goal.place
  | observing index _ _ _ _ | verifying index _ _ _ _ | checking index _ _ _ _ _
  | rollingBack index _ _ _ _ | rollbackObserving index _ _ _ _
  | rollbackVerifying index _ _ _ _ | rollbackChecking index _ _ _ _ => some index
  | finished _ => none

/-- The step of the run at a location, as the workflow has read it. -/
def Location.step : Location → Option (ℕ × ReleaseStep)
  | evaluating index _ step | acquiring index _ step | deploying index _ step
  | observing index _ step _ _ | verifying index _ step _ _ | checking index _ step _ _ _
  | rollingBack index _ step _ _ | rollbackObserving index _ step _ _
  | rollbackVerifying index _ step _ _ | rollbackChecking index _ step _ _ => some (index, step)
  | _ => none

theorem run_enter (total index : ℕ) (run : ReleaseRun) :
    ∀ next ∈ (enter total index run).run, runOutline next = runOutline run := by
  unfold enter
  split
  · simp [Location.run]
  · rintro next ⟨⟩
    rfl

theorem place_enter {total place : ℕ} {run : ReleaseRun}
    (member : place ∈ (enter total index run).place) : place < total := by
  unfold enter at member
  split at member
  · next bound =>
    cases member
    exact bound
  · cases member

section Moves

variable {digest : Digest} {order : StepOrder} {total : ℕ}
  {location next : Location} {event : Event requests}

theorem Reaches.last (reached : Reaches digest order total input (history ++ [event]) location) :
    ∃ before, Reaches digest order total input history before ∧
      Moves digest order total before event location := by
  generalize whole : history ++ [event] = longer at reached
  cases reached with
  | start => simp at whole
  | move reached moves =>
    obtain ⟨rfl, same⟩ := List.append_inj' whole rfl
    cases same
    exact ⟨_, reached, moves⟩

/-- The history so far has led to a location, too. -/
theorem Reaches.before {before after : History}
    (reached : Reaches digest order total input (before ++ after) location) :
    ∃ earlier, Reaches digest order total input before earlier := by
  induction after using List.reverseRecOn generalizing location with
  | nil =>
    rw [List.append_nil] at reached
    exact ⟨location, reached⟩
  | append_singleton after event ih =>
    rw [← List.append_assoc] at reached
    obtain ⟨earlier, reachedBefore, -⟩ := reached.last
    exact ih reachedBefore

theorem Begins.outline {run : ReleaseRun} (begins : Begins total index run location) :
    ∀ next ∈ location.run, runOutline next = runOutline run := by
  cases begins with
  | done => exact run_enter total (index + 1) run
  | unmet | evaluate | missing => simp [Location.run, Except.toOption]

theorem Stores.outline {run : ReleaseRun} (stores : Stores order total goal run location) :
    ∀ next ∈ location.run, runOutline next = runOutline run := by
  cases stores with
  | begin assigned =>
    intro next member
    rw [run_enter total 0 _ next member, runOutline_assignWaves _ assigned]
  | resumePoll _ begins => exact begins.outline
  | succeed index => exact run_enter total (index + 1) run
  | _ => simp [Location.run, Except.toOption]

theorem Moves.outline (moves : Moves digest order total location event next) :
    ∃ run ∈ location.run, ∀ later ∈ next.run, runOutline later = runOutline run := by
  cases moves with
  | stored _ _ stores => exact ⟨_, rfl, fun later member => stores.outline later member⟩
  | begins begins => exact ⟨_, rfl, begins.outline⟩
  | @revoked index run signal decidedAt =>
    refine ⟨run, rfl, ?_⟩
    rintro later ⟨⟩
    exact runOutline_blockRun run index (decidedApproval signal decidedAt .revoked)
  | @denied index run signal decidedAt =>
    refine ⟨run, rfl, ?_⟩
    rintro later ⟨⟩
    exact runOutline_blockRun run index (decidedApproval signal decidedAt .denied)
  | stamp =>
    refine ⟨_, rfl, ?_⟩
    rintro later ⟨⟩
    rfl
  | _ => exact ⟨_, rfl, by simp [Location.run, Except.toOption]⟩

theorem Reaches.outline (reached : Reaches digest order total input history location) :
    ∀ run ∈ location.run, runOutline run = runOutline input := by
  induction reached with
  | start =>
    rintro run ⟨⟩
    rfl
  | move _ moves ih =>
    intro run member
    obtain ⟨before, beforeMem, same⟩ := moves.outline
    rw [same run member, ih before beforeMem]

theorem Reaches.outline_of_lastPersisted {stored : ReleaseRun}
    (reached : Reaches digest order total input history location)
    (last : lastPersisted history = some stored) : runOutline stored = runOutline input := by
  induction reached with
  | start => cases last
  | move reached moves ih =>
    cases moves with
    | stored audits eventType stores =>
      rw [lastPersisted_append] at last
      cases last
      exact (runOutline_persisted _).trans (reached.outline _ rfl)
    | _ => exact ih ((lastPersisted_append_none rfl).symm.trans last)

theorem Begins.place {place : ℕ} {run : ReleaseRun} (begins : Begins total index run location)
    (member : place ∈ location.place) : place = index ∨ place < total := by
  cases begins with
  | done => exact Or.inr (place_enter member)
  | evaluate =>
    cases member
    exact Or.inl rfl
  | unmet | missing => cases member

theorem Stores.place {run : ReleaseRun} {place : ℕ}
    (stores : Stores order total goal run location) (member : place ∈ location.place) :
    place ∈ goal.place ∨ place < total := by
  cases stores with
  | begin | succeed => exact Or.inr (place_enter member)
  | resumePoll _ begins =>
    rcases begins.place member with rfl | bound
    · exact Or.inl rfl
    · exact Or.inr bound
  | _ => exact Or.inl (by first | exact member | cases member)

theorem Moves.place {place : ℕ} (moves : Moves digest order total location event next)
    (member : place ∈ next.place) : place ∈ location.place ∨ place < total := by
  cases moves with
  | stored _ _ stores => exact stores.place member
  | begins begins =>
    rcases begins.place member with rfl | bound
    · exact Or.inl rfl
    · exact Or.inr bound
  | _ => exact Or.inl (by first | exact member | cases member)

theorem Reaches.place {place : ℕ} (reached : Reaches digest order total input history location)
    (member : place ∈ location.place) : place < total := by
  induction reached with
  | start => cases member
  | move _ moves ih => exact (moves.place member).elim ih id

theorem step_enter (total index : ℕ) (run : ReleaseRun) : (enter total index run).step = none := by
  unfold enter
  split <;> rfl

theorem Begins.step {run : ReleaseRun} (begins : Begins total index run location)
    (member : found ∈ location.step) : run.steps[found.1]? = some found.2 := by
  cases begins with
  | done => simp [step_enter] at member
  | evaluate step present =>
    cases member
    exact present
  | unmet | missing => cases member

theorem Stores.step {run : ReleaseRun} (stores : Stores order total goal run location)
    (member : found ∈ location.step) : run.steps[found.1]? = some found.2 := by
  cases stores with
  | begin | succeed => simp [step_enter] at member
  | resumePoll _ begins => exact begins.step member
  | allow _ present | approve present | execute present | verify present | rollback present =>
    cases member
    exact present
  | _ => cases member

/-- A step is read from the run, or was read before. -/
theorem Moves.step (moves : Moves digest order total location event next)
    (member : found ∈ next.step) :
    found ∈ location.step ∨ ∃ run ∈ location.run, ∃ later,
      runOutline later = runOutline run ∧ later.steps[found.1]? = some found.2 := by
  cases moves with
  | stored _ _ stores => exact Or.inr ⟨_, rfl, _, runOutline_persisted _, stores.step member⟩
  | begins begins => exact Or.inr ⟨_, rfl, _, rfl, begins.step member⟩
  | _ => exact Or.inl (by first | exact member | cases member)

theorem getElem?_of_outline {run : ReleaseRun} (same : runOutline run = runOutline other)
    (index : ℕ) : run.steps[index]?.map stepOutline = other.steps[index]?.map stepOutline := by
  have steps : run.steps.map stepOutline = other.steps.map stepOutline :=
    congrArg ReleaseRun.steps same
  rw [← List.getElem?_map, ← List.getElem?_map, steps]

theorem services_eq_of_outline {run : ReleaseRun} (same : runOutline run = runOutline other) :
    run.steps.map ReleaseStep.service = other.steps.map ReleaseStep.service := by
  have services : ∀ run : ReleaseRun, run.steps.map ReleaseStep.service =
      (runOutline run).steps.map ReleaseStep.service := by
    intro run
    simp [runOutline, Function.comp_def, stepOutline]
  rw [services, same, ← services]

/-- The step of a location is that of the input, apart from what was recorded in it. -/
theorem Reaches.step {step : ReleaseStep}
    (reached : Reaches digest order total input history location)
    (member : (index, step) ∈ location.step) :
    ∃ original, input.steps[index]? = some original ∧ stepOutline step = stepOutline original := by
  induction reached with
  | start => cases member
  | move reached moves ih =>
    rcases moves.step member with before | ⟨run, runMem, later, same, present⟩
    · exact ih before
    · have outline := getElem?_of_outline (same.trans (reached.outline run runMem)) index
      rw [present, Option.map_some, eq_comm, Option.map_eq_some_iff] at outline
      obtain ⟨original, found, eq⟩ := outline
      exact ⟨original, found, eq.symm⟩

/-- The deployment which the workflow is about, and its step. -/
def Goal.deployInput : Goal → Option (ℕ × DeployInput)
  | verify index input _ => some (index, input)
  | rollback index input _ => some (index, input.deploy)
  | _ => none

def Location.deployInput : Location → Option (ℕ × DeployInput)
  | stamp goal _ | store goal _ | completing goal _ _ _ => goal.deployInput
  | observing index _ _ input _ | verifying index _ _ input _ | checking index _ _ input _ _ =>
    some (index, input)
  | rollingBack index _ _ input _ => some (index, input.deploy)
  | _ => none

theorem deployInput_eq_of_outline {run : ReleaseRun} {step original : ReleaseStep}
    (sameRun : runOutline run = runOutline other)
    (sameStep : stepOutline step = stepOutline original) :
    Release.deployInput run step = Release.deployInput other original := by
  have outlines : ∀ run step,
      Release.deployInput run step = Release.deployInput (runOutline run) (stepOutline step) :=
    fun _ _ => rfl
  rw [outlines, sameRun, sameStep, ← outlines]

theorem Location.Opening.deployInput (opening : location.Opening) :
    location.deployInput = none := by
  cases opening <;> rfl

theorem Stores.deployInput {run : ReleaseRun} (stores : Stores order total goal run location)
    {request : ℕ × DeployInput} (member : request ∈ location.deployInput) :
    request ∈ goal.deployInput := by
  cases stores with
  | begin | succeed =>
    rw [opening_enter.deployInput] at member
    cases member
  | resumePoll _ begins =>
    rw [begins.opening.deployInput] at member
    cases member
  | verify | rollback => exact member
  | _ => cases member

theorem Reaches.deployInput {request : DeployInput}
    (reached : Reaches digest order total input history location)
    (member : (index, request) ∈ location.deployInput) :
    ∃ original, input.steps[index]? = some original ∧
      request = Release.deployInput input original := by
  induction reached with
  | start => cases member
  | @move history location next event reached moves ih =>
    cases moves with
    | stored _ _ stores => exact ih (stores.deployInput member)
    | begins begins =>
      rw [begins.opening.deployInput] at member
      cases member
    | @deployed index run step =>
      cases member
      obtain ⟨original, found, sameStep⟩ := reached.step rfl
      exact ⟨original, found, deployInput_eq_of_outline (reached.outline run rfl) sameStep⟩
    | _ => first | exact ih member | cases member

end Moves

end Themisy.Workflow.Release
