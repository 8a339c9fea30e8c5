import Themisy.Application.NewRun
import Themisy.Planning.PlanIntent
import Themisy.Workflow.Legal

/-!
# Rehearsed releases

Single executions of the workflow are computed by playing it against a strategy.
The strategies answer most requests alike: activities succeed, every step is
allowed and verified, and no signal arrives. The releases are planned from a small
catalog.
-/

namespace Themisy.Workflow.Release

open Domain Interaction Planning

/-- The run of a plan for a release of some services. -/
def runOf (names : List String) (plan : ReleasePlan) : ReleaseRun :=
  Application.newRun "run" 1 (legacyRequestFromIntent (stagingRelease names)) plan

/-- The workflow for such a run. -/
abbrev rehearsal (names : List String) (plan : ReleasePlan) : Prog requests Exit :=
  releaseWorkflow default .stored (runOf names plan)

/-- The answer to a request when nothing goes wrong. -/
def smooth : (op : Op) → op.Res
  | .now => (1 : Time)
  | .persistRun input => .ok (Activities.persisted input.run)
  | .evaluateStep _ _ => .ok { decision := .allow }
  | .acquireSchedule _ _ => .ok { allowed := true }
  | .completeSchedule _ _ _ => .ok ()
  | .deploy _ => .ok default
  | .verify _ => .ok { (default : VerificationResult) with status := .pass }
  | .rollback _ => .ok default
  | .sleep _ => .ok ()
  | .receiveCancel => false
  | .receivePause => false
  | .selectApproval _ => .expired
  | .selectResume => .resume {}

/-- Nothing goes wrong except for what the script says. -/
def scripted (script : (op : Op) → Option op.Res) : Strategy requests Unit
  | _, .persistRun input => (smooth (.persistRun input), ())
  | _, op => ((script op).getD (smooth op), ())

theorem runs_scripted (script : (op : Op) → Option op.Res) (fuel : ℕ)
    (program : Prog requests Exit) :
    Runs environment () program
      (play (scripted script) fuel () program).1 ()
      (play (scripted script) fuel () program).2.2 := by
  have legal : ∀ world op, environment.answers world op
      (scripted script world op).1 (scripted script world op).2 := by
    intro world op
    cases op with
    | persistRun input => rfl
    | _ => trivial
  exact runs_play legal fuel () program

def ended {Seen : Type} (see : ReleaseRun → Seen) (rest : Prog requests Exit) : Option Seen :=
  (rest.returned.bind Except.toOption).map see

theorem exists_of_ended {Seen : Type} {see : ReleaseRun → Seen} {rest : Prog requests Exit}
    {seen : Seen} (eq : ended see rest = some seen) :
    ∃ run, rest = .pure (.ok run) ∧ see run = seen := by
  obtain ⟨run, found, same⟩ := Option.map_eq_some_iff.mp eq
  obtain ⟨exit, returned, isRun⟩ := Option.bind_eq_some_iff.mp found
  refine ⟨run, ?_, same⟩
  rw [Prog.eq_of_returned returned]
  cases exit with
  | error => cases isRun
  | ok => rw [Option.some.inj isRun]

end Themisy.Workflow.Release
