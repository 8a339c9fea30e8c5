import Themisy.Domain.Reason
import Themisy.Domain.Run
import Themisy.Scheduler.Waves

/-!
# Assigning waves to the steps of a run

This file embeds `assignWaves` and `schedulingStep` of `internal/workflow`. The
planned steps become the input of `buildWaves`, restricted to the dependencies
on services of the run, and every step of the run receives the number of the
wave its service is in.
-/

namespace Themisy.Workflow

open Domain

/-- The order in which a map of steps is visited. -/
abbrev StepOrder := IterationOrder Scheduler.Step

def textSet (texts : List String) : GoMap String Bool :=
  texts.foldl (fun table text => GoMap.set table text true) ∅

/-- The step which the scheduler sees, with the given dependencies. -/
def scheduledStep (step : PlanStep) (dependencies : List String) : Scheduler.Step where
  id := step.service
  phase := step.phase
  tenant := step.scheduling.tenantID
  environment := step.scheduling.environment.text
  region := step.scheduling.region
  cluster := step.scheduling.cluster
  team := step.scheduling.team
  riskTier := step.scheduling.riskTier
  runnerGroup := step.scheduling.runnerGroup
  failureDomains := step.scheduling.failureDomains
  dependencies

def schedulingStep (run : ReleaseRun) (releaseStep : ReleaseStep) : Scheduler.Step :=
  match run.plan.steps.find? fun step => step.service = releaseStep.service with
  | some step => scheduledStep step step.orderingDependencies
  | none =>
    { (default : Scheduler.Step) with
      id := releaseStep.service
      phase := releaseStep.phase
      tenant := run.tenantID
      environment := run.environment.text
      region := run.region
      cluster := run.cluster }

def waveInput (run : ReleaseRun) : List Scheduler.Step :=
  let selected := textSet (run.steps.map ReleaseStep.service)
  run.plan.steps.map fun step => scheduledStep step
    (step.orderingDependencies.filter fun dependency => selected.find dependency false)

def waveByService (waves : List Scheduler.Wave) : GoMap String ℕ :=
  waves.foldl (fun table wave =>
    wave.steps.foldl (fun table step => GoMap.set table step.id wave.number) table) ∅

/-- Give every step its wave, failing on a step which is not planned. -/
def setWaves (planned : GoMap String Bool) (waves : GoMap String ℕ) :
    List ReleaseStep → Except GoError (List ReleaseStep)
  | [] => .ok []
  | step :: rest => do
      require (planned.find step.service false = true)
        (.plain ("release step " ++ GoText.quote step.service ++ " is absent from plan"))
      let later ← setWaves planned waves rest
      return { step with wave := waves.find step.service 0 } :: later

def assignWaves (order : StepOrder) (run : ReleaseRun) :
    Except GoError ReleaseRun :=
  match Scheduler.buildWaves order (waveInput run) Scheduler.defaultLimits with
  | .error error => .error (.wrapped "build safe release waves" (.plain error.message))
  | .ok waves => do
      let planned := textSet (run.plan.steps.map PlanStep.service)
      let steps ← setWaves planned (waveByService waves) run.steps
      return { run with steps }

theorem schedulingStep_id (run : ReleaseRun) (step : ReleaseStep) :
    (schedulingStep run step).id = step.service := by
  unfold schedulingStep
  split
  · next planned found =>
    have same := List.find?_some found
    exact of_decide_eq_true same
  · rfl

theorem eq_of_setWaves {planned : GoMap String Bool} {waves : GoMap String ℕ}
    {steps waved : List ReleaseStep} (assigned : setWaves planned waves steps = .ok waved) :
    waved = steps.map fun step => { step with wave := waves.find step.service 0 } := by
  induction steps generalizing waved with
  | nil =>
    cases assigned
    rfl
  | cons step rest ih =>
    simp only [setWaves, bind_eq_ok, require_eq_ok, exists_const] at assigned
    obtain ⟨-, later, assignedLater, returned⟩ := assigned
    cases returned
    rw [List.map_cons, ih assignedLater]

theorem exists_waves_of_assignWaves {order : StepOrder} {run waved : ReleaseRun}
    (assigned : assignWaves order run = .ok waved) :
    ∃ wave : ReleaseStep → ℕ,
      waved = { run with steps := run.steps.map fun step => { step with wave := wave step } } := by
  unfold assignWaves at assigned
  split at assigned
  · cases assigned
  · simp only [bind_eq_ok] at assigned
    obtain ⟨steps, assignedSteps, returned⟩ := assigned
    cases returned
    rw [eq_of_setWaves assignedSteps]
    exact ⟨_, rfl⟩

end Themisy.Workflow
