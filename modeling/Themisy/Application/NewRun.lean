import Themisy.Domain.Run
import Themisy.Planning.PlanIntent

/-!
# The run of a planned release

This file embeds the part of `Releases.start` which builds a run from a request
and its plan: one pending step for every planned step, in the order of the plan.
-/

namespace Themisy.Application

open Domain

def normalized (value fallback : String) : String :=
  if value = "" then fallback else value

/-- An identifier of the given kind, from random bytes. -/
def newID (kind : String) (bytes : List UInt8) : String :=
  kind ++ "_" ++ GoText.hexEncode bytes

/-- The changes of a request by service; a later change replaces an earlier one. -/
def changesByService (changes : List Change) : GoMap String Change :=
  changes.foldl (fun table change => GoMap.set table change.service change) ∅

def newStep (changes : GoMap String Change) (phase : PlanPhase) (planned : PlanStep) :
    ReleaseStep where
  service := planned.service
  phase := phase.number
  status := .pending
  change := changes.find planned.service default
  verificationRequired := planned.verificationRequired
  observationWindow := planned.observationWindow
  rollbackMode := planned.rollbackMode

def newSteps (request : ReleaseRequest) (plan : ReleasePlan) : List ReleaseStep :=
  plan.phases.flatMap fun phase =>
    phase.steps.map (newStep (changesByService request.changes) phase)

def newRun (runID : String) (now : Time) (request : ReleaseRequest) (plan : ReleasePlan) :
    ReleaseRun where
  id := runID
  requestID := request.requestID
  releaseVersion := request.releaseVersion
  environment := request.environment
  requestedBy := request.requestedBy
  tenantID := normalized request.tenantID "default"
  region := normalized request.region "global"
  cluster := request.cluster
  agent := request.agent
  plan
  status := .pending
  steps := newSteps request plan
  stateVersion := 1
  workflowID := runID
  createdAt := now
  updatedAt := now

theorem of_mem_newID_run {bytes : List UInt8} {character : Char}
    (member : character ∈ (newID "run" bytes).toList) :
    character = '_' ∨ character.isAlphanum := by
  rw [newID, String.toList_append, List.mem_append] at member
  rcases member with kind | digit
  · have shape : ("run" ++ "_").toList.all
        (fun character => character = '_' ∨ character.isAlphanum) = true := by
      decide +kernel
    exact of_decide_eq_true (List.all_eq_true.mp shape character kind)
  · exact Or.inr (GoText.isAlphanum_of_mem_hexEncode digit)

/-- The identifier of a run contains no NUL, so it can be told apart from what follows one. -/
theorem nul_notMem_newID_run (bytes : List UInt8) : '\x00' ∉ (newID "run" bytes).toList := by
  intro member
  have := of_mem_newID_run member
  revert this
  decide

theorem slash_notMem_newID_run (bytes : List UInt8) : '/' ∉ (newID "run" bytes).toList := by
  intro member
  have := of_mem_newID_run member
  revert this
  decide

theorem newSteps_services (request : ReleaseRequest) (plan : ReleasePlan) :
    (newSteps request plan).map ReleaseStep.service = plan.steps.map PlanStep.service := by
  simp only [newSteps, ReleasePlan.steps, List.map_flatMap, List.map_map]
  rfl

theorem exists_planned_of_mem_newSteps {request : ReleaseRequest} {plan : ReleasePlan}
    {step : ReleaseStep} (member : step ∈ newSteps request plan) :
    ∃ phase ∈ plan.phases, ∃ planned ∈ phase.steps,
      step = newStep (changesByService request.changes) phase planned := by
  obtain ⟨phase, phaseMem, stepMem⟩ := List.mem_flatMap.mp member
  obtain ⟨planned, plannedMem, rfl⟩ := List.mem_map.mp stepMem
  exact ⟨phase, phaseMem, planned, plannedMem, rfl⟩

end Themisy.Application
