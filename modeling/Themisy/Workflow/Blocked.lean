import Themisy.Workflow.Rehearsal
import Themisy.Workflow.Simulation

/-!
# Releases which are blocked by a dependency

When a step of a plan has a dependency which is listed after it, the workflow may come to
the step: every earlier step may succeed. It then blocks the release.
-/

namespace Themisy.Workflow.Release

open Domain Interaction

/-- A release of which only the steps up to an index have changed. -/
structure Advanced (run : ReleaseRun) (index : ℕ) (next : ReleaseRun) : Prop where
  outline : runOutline next = runOutline run
  later : ∀ place, index < place → next.steps[place]? = run.steps[place]?

/-- A program which is about to block the release. -/
def Blocking {α : Type} (program : Prog requests α) : Prop :=
  ∃ input next, program.head = .request (.persistRun input) next ∧
    ∃ audit ∈ input.audits, audit.action = "dependency.block"

theorem Blocking.bind {α β : Type} {program : Prog requests α} (blocking : Blocking program)
    (follow : α → Prog requests β) : Blocking (program.bind follow) := by
  obtain ⟨input, next, requested, audits⟩ := blocking
  exact ⟨input, _, Prog.head_bind_of_request requested follow, audits⟩

theorem mayBlock_bind {α β : Type} {program : Prog requests α}
    (blocks : May (S := requests) Legal Blocking program) (follow : α → Prog requests β) :
    May (S := requests) Legal Blocking (program.bind follow) :=
  blocks.bind fun _ blocking => .here (blocking.bind follow)

section Steps

variable {digest : Digest} {run next : ReleaseRun} {index : ℕ} {step : ReleaseStep}
  {selected succeeded : GoMap String Bool}

theorem Advanced.setStep (advanced : Advanced run index next) {change : ReleaseStep → ReleaseStep}
    (same : ∀ step, stepOutline (change step) = stepOutline step) :
    Advanced run index (Release.setStep next index change) := by
  refine ⟨(runOutline_setStep next index same).trans advanced.outline, fun place later => ?_⟩
  rw [← advanced.later place later]
  simp [Release.setStep, later.ne]

theorem Advanced.refl (run : ReleaseRun) (index : ℕ) : Advanced run index run :=
  ⟨rfl, fun _ _ => rfl⟩

theorem Advanced.trans {last : ReleaseRun} (first : Advanced run index next)
    (second : Advanced next index last) : Advanced run index last :=
  ⟨second.outline.trans first.outline,
    fun place later => (second.later place later).trans (first.later place later)⟩

theorem Advanced.exists_step (advanced : Advanced run index next)
    (found : run.steps[index]? = some step) : ∃ step, next.steps[index]? = some step := by
  have services := services_eq_of_outline advanced.outline
  have listed := congrArg (fun services : List String => services[index]?) services
  simp only [List.getElem?_map, found, Option.map_eq_some_iff, Option.map_some] at listed
  obtain ⟨other, foundOther, -⟩ := listed
  exact ⟨other, foundOther⟩

theorem Advanced.persisted (advanced : Advanced run index next) :
    Advanced run index (Activities.persisted { next with updatedAt := 1 }) :=
  ⟨advanced.outline, advanced.later⟩

theorem persistNow_returns (run : ReleaseRun) (audits : List AuditIntent) (eventType : String) :
    Returns (S := requests) Legal (persistNow run audits eventType)
      (Activities.persisted { run with updatedAt := 1 }) :=
  .ask (1 : Time) trivial (.ask (.ok _) rfl (.here rfl))

theorem pollSignals_returns (run : ReleaseRun) (index : ℕ) :
    Returns (S := requests) Legal (pollSignals run index) run :=
  .ask false trivial (.ask false trivial (.here rfl))

theorem completeScheduling_returns (runID stepID : String) (failed : Bool) :
    Returns (S := requests) Legal (completeScheduling runID stepID failed) () :=
  .ask (.ok ()) trivial (.here rfl)

theorem stepAt_returns (found : run.steps[index]? = some step) :
    Returns (S := requests) Legal (stepAt run index) step := by
  rw [stepAt, found]
  exact .here rfl

theorem evaluatePolicy_returns (run : ReleaseRun) (index : ℕ) (step : ReleaseStep) :
    ∃ next, Advanced run index next ∧ Returns (S := requests) Legal
      (evaluatePolicy run index step) (next, { decision := .allow }) := by
  refine ⟨_, ?_, .ask (.ok { decision := .allow }) trivial
    (.andThen (.here rfl) (.andThen (persistNow_returns _ _ _) (.here rfl)))⟩
  exact ((Advanced.refl run index).setStep fun _ => by rfl).persisted

theorem acquireSchedule_returns (found : run.steps[index]? = some step) :
    Returns (S := requests) Legal (acquireSchedule run index) () :=
  .andThen (stepAt_returns found)
    (.ask (.ok { allowed := true }) trivial (.andThen (.here rfl) (.here rfl)))

theorem deployStep_returns (found : run.steps[index]? = some step) :
    ∃ next input result, Advanced run index next ∧
      Returns (S := requests) Legal (deployStep run index) (next, input, result) := by
  refine ⟨_, _, default, ?_, .andThen (persistNow_returns _ _ _)
    (.andThen (stepAt_returns (getElem?_setStep found)) (.ask (.ok default) trivial (.here rfl)))⟩
  exact ((Advanced.refl run index).setStep fun _ => by rfl).persisted.setStep fun _ => by rfl

theorem completeStep_returns (found : run.steps[index]? = some step) (input : DeployInput)
    (deployed : DeployResult) : ∃ next, Advanced run index next ∧
      Returns (S := requests) Legal (completeStep run index input deployed) next := by
  by_cases required : step.verificationRequired = true
  · have verified : ∃ next, Advanced run index next ∧
        Returns (S := requests) Legal (verifyStep run index input deployed) next := by
      refine ⟨_, ?_, .andThen (persistNow_returns _ _ _)
        (.andThen (stepAt_returns (getElem?_setStep found))
        (.andThen (.ask (.ok ()) trivial (.here rfl))
        (.ask (.ok { (default : VerificationResult) with status := .pass }) trivial
        (.ask (1 : Time) trivial
        (.andThen (completeScheduling_returns _ _ _) (persistNow_returns _ _ _))))))⟩
      exact ((((Advanced.refl run index).setStep fun _ => by rfl).persisted.setStep
        fun _ => by rfl).setStep fun _ => by rfl).persisted
    obtain ⟨next, advanced, returns⟩ := verified
    refine ⟨next, advanced, .andThen (stepAt_returns found) ?_⟩
    rw [if_pos required]
    exact returns
  · refine ⟨_, ?_, .andThen (stepAt_returns found) (by
      rw [if_neg required]
      exact .andThen (completeScheduling_returns _ _ _) (persistNow_returns _ _ _))⟩
    exact ((Advanced.refl run index).setStep fun _ => by rfl).persisted

/-- A step whose dependencies have succeeded may succeed. -/
theorem runStep_returns (found : run.steps[index]? = some step)
    (unfinished : step.status ≠ .succeeded)
    (met : unmetDependency run.plan step.service selected succeeded = none) :
    ∃ next, Advanced run index next ∧ Returns (S := requests) Legal
      (runStep digest selected succeeded run index) (next, succeeded.set step.service true) := by
  obtain ⟨evaluated, advanced, evaluates⟩ := evaluatePolicy_returns run index step
  obtain ⟨evaluatedStep, foundEvaluated⟩ := advanced.exists_step found
  obtain ⟨executing, input, result, executed, deploys⟩ := deployStep_returns foundEvaluated
  obtain ⟨executedStep, foundExecuted⟩ := executed.exists_step foundEvaluated
  obtain ⟨next, completed, completes⟩ := completeStep_returns foundExecuted input result
  refine ⟨next, (advanced.trans executed).trans completed, .andThen (pollSignals_returns run index)
    (.andThen (stepAt_returns found) ?_)⟩
  rw [if_neg unfinished, checkDependencies, met]
  exact .andThen (.here rfl) (.andThen evaluates (.andThen (.here rfl)
    (.andThen (acquireSchedule_returns foundEvaluated) (.andThen deploys
      (.andThen completes (.here rfl))))))

/-- A step with an unmet dependency may block the release. -/
theorem runStep_blocks (found : run.steps[index]? = some step)
    (unfinished : step.status ≠ .succeeded) {dependency : String}
    (unmet : unmetDependency run.plan step.service selected succeeded = some dependency) :
    May (S := requests) Legal Blocking (runStep digest selected succeeded run index) := by
  refine .andThen (pollSignals_returns run index) (.andThen (stepAt_returns found) ?_)
  rw [if_neg unfinished, checkDependencies, unmet]
  refine mayBlock_bind (mayBlock_bind ?_ _) _
  exact .ask (1 : Time) trivial (.here ⟨_, _, rfl, _, List.mem_singleton_self _, rfl⟩)

variable {input : ReleaseRun}

/-- The steps before one with an unmet dependency may all succeed. -/
theorem runSteps_blocks {place remaining : ℕ} (count : index + remaining = input.steps.length)
    (outline : runOutline run = runOutline input)
    (pending : ∀ later, index ≤ later → ∀ step, run.steps[later]? = some step →
      step.status ≠ .succeeded)
    (tracks : Tracks succeeded ((input.steps.map ReleaseStep.service).take index))
    (before : index ≤ place) {service : String}
    (listed : (input.steps.map ReleaseStep.service)[place]? = some service)
    (unmet : ¬Preceded input place service) :
    May (S := requests) Legal Blocking (runSteps digest (selectedServices input)
      (List.range' index remaining) run succeeded) := by
  have length : (input.steps.map ReleaseStep.service).length = input.steps.length :=
    List.length_map _
  have inside := (List.getElem?_eq_some_iff.mp listed).1
  induction remaining generalizing index run succeeded with
  | zero => omega
  | succ remaining ih =>
    have services := services_eq_of_outline outline
    obtain ⟨step, found⟩ : ∃ step, run.steps[index]? = some step := by
      refine ⟨_, List.getElem?_eq_getElem ?_⟩
      rw [← List.length_map (f := ReleaseStep.service), services]
      omega
    have unfinished := pending index le_rfl step found
    rw [List.range'_succ]
    cases checked : unmetDependency run.plan step.service (selectedServices input) succeeded with
    | some dependency =>
      exact mayBlock_bind (runStep_blocks found unfinished checked) _
    | none =>
      have preceded := (unmetDependency_eq_none_iff outline tracks).mp checked
      have here : (input.steps.map ReleaseStep.service)[index]? = some step.service := by
        rw [← services, List.getElem?_map, found]
        rfl
      have different : place ≠ index := by
        rintro rfl
        obtain rfl := Option.some.inj (here.symm.trans listed)
        exact unmet preceded
      obtain ⟨next, advanced, returns⟩ := runStep_returns found unfinished checked
      refine .andThen returns (ih (by omega) (advanced.outline.trans outline) ?_ ?_ (by omega))
      · intro later after other foundLater
        rw [advanced.later later (by omega)] at foundLater
        exact pending later (by omega) other foundLater
      · rw [List.take_add_one, here]
        exact tracks.set step.service

end Steps

theorem exists_not_preceded {input : ReleaseRun} (planned : Planned input)
    (late : ¬DependenciesFirst input.plan) :
    ∃ place service, (input.steps.map ReleaseStep.service)[place]? = some service ∧
      ¬Preceded input place service := by
  simp only [DependenciesFirst, List.pairwise_iff_getElem, not_forall, not_not] at late
  obtain ⟨first, second, inside, secondInside, before, needed⟩ := late
  refine ⟨first, input.plan.steps[first].service, ?_, fun preceded => ?_⟩
  · rw [planned.services, List.getElem?_map, List.getElem?_eq_getElem inside]
    rfl
  · have listed : input.plan.steps[second].service ∈ input.plan.steps.map PlanStep.service :=
      List.mem_map_of_mem (List.getElem_mem secondInside)
    rw [← planned.services] at listed
    have earlier := preceded _ (List.getElem_mem inside) rfl _ needed listed
    have distinct := planned.distinct
    rw [planned.services, List.mem_take_iff_getElem] at earlier
    obtain ⟨place, bound, same⟩ := earlier
    have sameService : (input.plan.steps.map PlanStep.service)[place]? =
        (input.plan.steps.map PlanStep.service)[second]? := by
      rw [List.getElem?_eq_getElem (by omega), same, List.getElem?_map,
        List.getElem?_eq_getElem secondInside]
      rfl
    have := (List.getElem?_inj (by omega) distinct).mp sameService
    omega

/-- The workflow may block a release which has a dependency after the step which needs it. -/
theorem releaseWorkflow_blocks (digest : Digest) (order : StepOrder)
    {input : ReleaseRun} (unstarted : Unstarted input)
    (late : ¬DependenciesFirst input.plan) :
    May (S := requests) Legal Blocking (releaseWorkflow digest order input) := by
  obtain ⟨place, service, listed, unmet⟩ := exists_not_preceded unstarted.planned late
  have planned := unstarted.planned
  have started : Planned (Activities.persisted { input with status := .running, updatedAt := 1 }) :=
    ⟨planned.services, planned.phases, planned.named, planned.distinct, planned.sorted,
      planned.acyclic⟩
  obtain ⟨waves, waved, -, assigned, -⟩ := started.exists_assignWaves order
  obtain ⟨wave, same⟩ := exists_waves_of_assignWaves assigned
  have statements : May (S := requests) Legal Blocking (releaseStatements digest order input) := by
    refine .andThen (persistNow_returns _ _ _) ?_
    rw [assigned, same]
    dsimp only
    rw [List.range_eq_range', List.length_map]
    have outline := runOutline_assignWaves _ assigned
    rw [same] at outline
    refine mayBlock_bind (runSteps_blocks (Nat.zero_add _) outline ?pending unstarted.tracks
      (Nat.zero_le _) listed unmet) _
    intro later _ step found
    rw [List.getElem?_map, Option.map_eq_some_iff] at found
    obtain ⟨source, found, rfl⟩ := found
    have pending := unstarted.pending source (List.mem_of_getElem? found)
    simp [pending]
  exact mayBlock_bind statements _

end Themisy.Workflow.Release
