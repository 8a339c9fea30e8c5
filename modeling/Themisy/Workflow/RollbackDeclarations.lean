import Themisy.Planning.Documents
import Themisy.Workflow.Evidence

/-!
# Where automatic rollbacks are declared

A contract declares whether its service may be rolled back automatically, its
environments whether they offer rollbacks, and the profile of an environment what to
do when a release fails. The planner copies the mode of the profile into the step and
reads neither declaration of the contract.
-/

namespace Themisy.Workflow.Release

open Domain Contract Planning Interaction

/-- Where a profile asks for automatic rollbacks, the contract allows and offers them. -/
def DeclaresRollbacks (contracts : List ServiceContract) (profiles : List ReleaseProfile) : Prop :=
  ∀ contract ∈ contracts, ∀ name environment,
    contract.environments.get? name = some environment → ∀ profile ∈ profiles,
      profile.name = environment.releaseProfile → profile.rollbackMode = "automatic" →
        contract.rollbackCapability = "automatic" ∧ .rollback ∈ environment.capabilities

/-- The documents behind a step allow, offer and ask for automatic rollbacks. -/
def RollbackDeclared (contracts : List ServiceContract) (profiles : List ReleaseProfile)
    (intent : ReleaseIntent) (step : PlanStep) : Prop :=
  ∃ contract environment profile,
    Documented contracts profiles intent step contract environment profile ∧
      contract.rollbackCapability = "automatic" ∧ .rollback ∈ environment.capabilities ∧
      profile.rollbackMode = "automatic"

section Declarations

variable {digest : Digest} {orders : Orders} {contracts : List ServiceContract}
  {profiles : List ReleaseProfile} {options : Options} {planner : Planner}

theorem rollbackDeclared_of_declares
    (built : newFromContracts digest orders contracts profiles options = .ok planner)
    (declares : DeclaresRollbacks contracts profiles) {order : IterationOrder String} {now : Time}
    {intent : ReleaseIntent} {plan : ReleasePlan}
    (planned : planner.planIntent digest order now intent = .ok plan) {step : PlanStep}
    (member : step ∈ plan.steps) (automatic : step.rollbackMode = .automatic) :
    RollbackDeclared contracts profiles intent step := by
  obtain ⟨contract, environment, profile, documented⟩ := exists_documented built planned member
  have asked := ofText_eq_automatic_iff.mp (documented.rollbackMode.symm.trans automatic)
  obtain ⟨allowed, offered⟩ := declares contract documented.contract_mem _ _ documented.declared
    profile documented.profile_mem documented.profiled asked
  exact ⟨contract, environment, profile, documented, allowed, offered, asked⟩

theorem exists_planned_of_rollback {plan : ReleasePlan} {runID : String} {created : Time}
    {request : ReleaseRequest} {waveOrder : StepOrder}
    {events : History} {rest : Prog requests Exit}
    (ran : Runs environment () (releaseWorkflow digest waveOrder
      (Application.newRun runID created request plan)) events () rest)
    {rollback : RollbackInput} {next : Except ActivityFailure RollbackResult → Prog requests Exit}
    (requested : rest.head = .request (.rollback rollback) next) :
    ∃ step ∈ plan.steps, step.service = rollback.deploy.service ∧
      step.rollbackMode = .automatic := by
  obtain ⟨index, original, found, automatic, same⟩ :=
    automatic_of_rollback (fun _ _ _ _ legal => legal) ran requested
  obtain ⟨phase, phaseMem, planned, plannedMem, rfl⟩ :=
    Application.exists_planned_of_mem_newSteps (List.mem_of_getElem? found)
  refine ⟨planned, List.mem_flatMap.mpr ⟨phase, phaseMem, plannedMem⟩, ?_, automatic⟩
  rw [same]
  rfl

/--
For every planner, the steps of all plans with automatic rollbacks have both
declarations, and no release asks for the rollback of a service whose contract does
not allow automatic rollbacks, exactly when the contracts declare rollbacks wherever a
profile asks for them.
-/
theorem automatic_rollbacks_declared_iff (digest : Digest) (orders : Orders)
    (contracts : List ServiceContract) (profiles : List ReleaseProfile) (options : Options)
    (planner : Planner)
    (built : newFromContracts digest orders contracts profiles options = .ok planner) :
    DeclaresRollbacks contracts profiles ↔
      ∀ order now intent plan, planner.planIntent digest order now intent = .ok plan →
        (∀ step ∈ plan.steps, step.rollbackMode = .automatic →
          RollbackDeclared contracts profiles intent step) ∧
        ∀ runID created request waveOrder events rest rollback next,
          Runs environment () (releaseWorkflow digest waveOrder
            (Application.newRun runID created request plan)) events () rest →
          rest.head = .request (.rollback rollback) next →
          ∃ contract ∈ contracts, contract.name = rollback.deploy.service ∧
            contract.rollbackCapability = "automatic" := by
  constructor
  · intro declares order now intent plan planned
    have declared := fun step member =>
      @rollbackDeclared_of_declares _ _ _ _ _ _ built declares _ _ _ _ planned step member
    refine ⟨declared, fun runID created request waveOrder events rest rollback next ran asked => ?_⟩
    obtain ⟨step, member, same, automatic⟩ := exists_planned_of_rollback ran asked
    obtain ⟨contract, _, _, documented, allowed, -⟩ := declared step member automatic
    exact ⟨contract, documented.contract_mem, documented.named.trans same, allowed⟩
  · intro holds contract member name environment declared profile profileMem profiled automatic
    have accepted := (exists_newFromContracts_iff digest orders contracts profiles options).mp
      ⟨planner, built⟩
    rw [← Environment.text_ofText name] at declared
    obtain ⟨plan, planned, step, stepMem, same⟩ := exists_plan_releaseOf built member declared
    obtain ⟨_, _, _, documented⟩ := exists_documented built planned stepMem
    obtain ⟨rfl, rfl, rfl⟩ :=
      documented.eq accepted member same.symm declared profileMem profiled
    have mode : step.rollbackMode = .automatic :=
      documented.rollbackMode.trans (ofText_eq_automatic_iff.mpr automatic)
    obtain ⟨_, _, _, again, allowed, offered, -⟩ :=
      (holds _ _ _ plan planned).1 step stepMem mode
    obtain ⟨rfl, rfl, -⟩ := again.eq accepted member same.symm declared profileMem profiled
    exact ⟨allowed, offered⟩

end Declarations

def rolledBackService (program : Prog requests Exit) : Option String :=
  match program.head with
  | .request (.rollback input) _ => some input.deploy.service
  | _ => none

theorem rolledBackService_eq_some {program : Prog requests Exit} {service : String}
    (asks : rolledBackService program = some service) :
    ∃ rollback next, program.head = .request (.rollback rollback) next ∧
      rollback.deploy.service = service := by
  unfold rolledBackService at asks
  split at asks
  · next rollback next requested => exact ⟨rollback, next, requested, Option.some.inj asks⟩
  · cases asks

theorem runs_unverified (fuel : ℕ) (program : Prog requests Exit) :
    Runs environment () program
      (play (oneServicePasses default "") fuel () program).1 ()
      (play (oneServicePasses default "") fuel () program).2.2 := by
  have legal : ∀ world op, environment.answers world op
      (oneServicePasses default "" world op).1 (oneServicePasses default "" world op).2 :=
    fun world op => (checks_oneServicePasses default "" world op).legal
  exact runs_play legal fuel () program

/-- A contract with the given declarations about rollbacks. -/
def rollbackContract (capability : String) (capabilities : List Capability) : ServiceContract :=
  { stagingContract "api" [] with
    rollbackCapability := capability
    environments := GoMap.set ∅ "staging" ⟨"standard", "runner", capabilities⟩ }

theorem capabilities_of_rollbackContract {capability name : String}
    {capabilities : List Capability} {environment : EnvironmentContract}
    (declared : (rollbackContract capability capabilities).environments.get? name =
      some environment) : environment.capabilities = capabilities := by
  simp only [rollbackContract, GoMap.get?_set, GoMap.get?_empty] at declared
  split at declared <;> cases declared
  rfl

def playRollback (contract : ServiceContract) : Except GoError (Option String) :=
  rehearseFrom default [contract] (stagingRelease ["api"]) fun plan =>
    .ok (rolledBackService (play (oneServicePasses default "") 18 () (rehearsal ["api"] plan)).2.2)

/-- The planner and the plan of one contract, and a release about to roll its service back. -/
structure AboutToRollBack (contract : ServiceContract) (planner : Planner) (plan : ReleasePlan)
    (events : History) (rest : Prog requests Exit) (rollback : RollbackInput)
    (next : Except ActivityFailure RollbackResult → Prog requests Exit) : Prop extends
    PlansFrom default [contract] (stagingRelease ["api"]) planner plan where
  ran : Runs environment () (rehearsal ["api"] plan) events () rest
  asked : rest.head = .request (.rollback rollback) next
  service : rollback.deploy.service = "api"

theorem exists_aboutToRollBack (contract : ServiceContract)
    (played : playRollback contract = .ok (some "api")) :
    ∃ planner plan events rest rollback next,
      AboutToRollBack contract planner plan events rest rollback next := by
  obtain ⟨planner, plan, plans, reached⟩ := exists_of_rehearseFrom played
  obtain ⟨rollback, next, asked, service⟩ := rolledBackService_eq_some (Except.ok.inj reached)
  exact ⟨planner, plan, _, _, rollback, next, plans, runs_unverified 18 _, asked, service⟩

/-- With both declarations, a release which fails its verification is rolled back. -/
theorem automatic_rollbacks_declared_iff_api :
    let contract := rollbackContract "automatic" [.deploy, .rollback]
    ∃ planner plan events rest rollback next,
      AboutToRollBack contract planner plan events rest rollback next ∧
      ∃ declared ∈ [contract], declared.name = rollback.deploy.service ∧
        declared.rollbackCapability = "automatic" := by
  intro contract
  obtain ⟨planner, plan, events, rest, rollback, next, about⟩ :=
    exists_aboutToRollBack contract (by decide +kernel)
  have declares : DeclaresRollbacks [contract] [standardProfile] := by
    intro other member name environment declared _ _ _ _
    obtain rfl := List.mem_singleton.mp member
    exact ⟨rfl, by simp [capabilities_of_rollbackContract declared]⟩
  have holds := (automatic_rollbacks_declared_iff default ⟨.stored, .stored⟩ [contract]
    [standardProfile] {} planner about.built).mp declares _ _ _ plan about.planned
  exact ⟨planner, plan, events, rest, rollback, next, about,
    holds.2 _ _ _ _ _ _ _ _ about.ran about.asked⟩

/--
A contract which leaves rollbacks to people, in an environment which offers none, is
planned with automatic rollbacks, and its service is rolled back.
-/
theorem manual_only_contract_rolled_back :
    let contract := rollbackContract "manual-only" [.deploy]
    ∃ planner plan events rest rollback next,
      AboutToRollBack contract planner plan events rest rollback next ∧
      (∃ step ∈ plan.steps, step.service = "api" ∧ step.rollbackMode = .automatic) ∧
      contract.name = rollback.deploy.service ∧ contract.rollbackCapability = "manual-only" ∧
      ∀ name environment, contract.environments.get? name = some environment →
        .rollback ∉ environment.capabilities := by
  intro contract
  obtain ⟨planner, plan, events, rest, rollback, next, about⟩ :=
    exists_aboutToRollBack contract (by decide +kernel)
  obtain ⟨step, member, same, automatic⟩ := exists_planned_of_rollback about.ran about.asked
  refine ⟨planner, plan, events, rest, rollback, next, about,
    ⟨step, member, same.trans about.service, automatic⟩, about.service.symm, rfl, ?_⟩
  intro name environment declared
  rw [capabilities_of_rollbackContract declared]
  decide

end Themisy.Workflow.Release
