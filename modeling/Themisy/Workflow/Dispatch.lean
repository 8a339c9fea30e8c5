import Themisy.Workflow.Blocked
import Themisy.Workflow.Decisions

/-!
# Every deployment is authorized

The workflow requests a deployment only for a step whose predecessors and
dependencies have succeeded, which the policy permits and which the scheduler has
allowed.

What the policy and the scheduler have said is carried along from the evaluation of
a step to its deployment: the last decision is about the step and is recorded in it,
and the approval which the step waits for has the roles which the decision requires.
-/

namespace Themisy.Workflow.Release

open Domain Interaction Planning

def evaluation : Event requests → Option (ReleaseStep × PolicyDecision)
  | ⟨.evaluateStep _ step, .ok decision⟩ => some (step, decision)
  | _ => none

def lastEvaluation (history : History) : Option (ReleaseStep × PolicyDecision) :=
  history.reverse.findSome? evaluation

section Histories

variable {history : History}

theorem lastEvaluation_append (run : ReleaseRun) (step : ReleaseStep) (decision : PolicyDecision) :
    lastEvaluation (history ++ [⟨.evaluateStep run step, .ok decision⟩]) =
      some (step, decision) := by
  rw [lastEvaluation, List.reverse_append]
  rfl

theorem lastEvaluation_append_none {event : Event requests} (other : evaluation event = none) :
    lastEvaluation (history ++ [event]) = lastEvaluation history := by
  simp [lastEvaluation, other]

theorem exists_of_lastEvaluation {step : ReleaseStep} {decision : PolicyDecision}
    (last : lastEvaluation history = some (step, decision)) :
    ∃ before run after, history = before ++ ⟨.evaluateStep run step, .ok decision⟩ :: after := by
  obtain ⟨event, member, evaluated⟩ := List.exists_of_findSome?_eq_some last
  unfold evaluation at evaluated
  split at evaluated
  · next run found answer =>
    cases evaluated
    obtain ⟨before, after, split⟩ := List.append_of_mem (List.mem_reverse.mp member)
    exact ⟨before, run, after, split⟩
  · cases evaluated

end Histories

/-- The signal approves, from someone else with every role. -/
structure Approves (requestedBy : String) (approval : Approval) (signal : ApprovalSignal) :
    Prop where
  action : signal.effectiveAction = "approve"
  id : signal.approvalID = approval.id
  named : signal.actor ≠ ""
  other : signal.actor ≠ requestedBy
  roles : ∀ role ∈ approval.requiredRoles, role ∈ signal.roles

/--
The approval was granted by a signal: the selector, whose timer runs until the
approval expires, has chosen the signal, and the clock was read right after that.
-/
def Granted (history : History) (requestedBy : String) (approval : Approval) : Prop :=
  ∃ before asked timeout signal decided after,
    history = before ++ ⟨.now, asked⟩ :: ⟨.selectApproval timeout, .approval signal⟩ ::
      ⟨.now, decided⟩ :: after ∧
    approval.expiresAt = asked + timeout ∧ approval.decidedAt = some decided ∧
    approval.decidedBy = signal.actor ∧ Approves requestedBy approval signal

theorem containsAll_iff {actual required : List String} :
    containsAll actual required = true ↔ ∀ value ∈ required, value ∈ actual := by
  simp [containsAll, textSet_find]

variable {approval : Approval}

theorem approves_of_accepted {requestedBy : String} {signal : ApprovalSignal}
    (accepted : Accepted requestedBy approval signal)
    (action : signal.effectiveAction = "approve") : Approves requestedBy approval signal := by
  obtain ⟨sameID, named, other, roles⟩ := accepted
  refine ⟨action, sameID, named, fun requester => other ⟨action, requester⟩, ?_⟩
  rw [← containsAll_iff]
  by_contra lacking
  exact roles ⟨Or.inl action, lacking⟩

theorem Taken.granted {digest : Digest} {order : StepOrder} {total : ℕ}
    {input : ReleaseRun} {history : History} {location : Location}
    (taken : Taken history approval) (reached : Reaches digest order total input history location) :
    Granted history input.requestedBy approval := by
  obtain ⟨before, asked, timeout, signal, decided, after, stored, waiting, rfl, last, -, approving,
    expiry, rfl⟩ := taken
  obtain ⟨earlier, reachedBefore⟩ := reached.before
  have outline := reachedBefore.outline_of_lastPersisted last
  have requester : stored.requestedBy = input.requestedBy :=
    (congrArg ReleaseRun.requestedBy outline :)
  have approves := approves_of_accepted approving.accepted approving.action
  rw [requester] at approves
  exact ⟨before, asked, timeout, signal, decided, after, rfl, expiry, rfl, rfl, approves.action,
    approves.id, approves.named, approves.other, approves.roles⟩

def Acquired (history : History) (runID service : String) : Prop :=
  ∃ (step : Scheduler.Step) (result : ScheduleResult),
    (⟨.acquireSchedule runID step, .ok result⟩ : Event requests) ∈ history ∧ step.id = service ∧
    result.allowed = true

/-- The policy allows the step, or it is approved as demanded. -/
def Permitted (history : History) (requestedBy : String) (step : ReleaseStep)
    (decision : PolicyDecision) : Prop :=
  decision.decision = .allow ∨
    decision.decision = .requireApproval ∧ ∃ approval, step.approval = some approval ∧
      approval.status = .approved ∧ approval.requiredRoles = decision.requiredRoles ∧
      Granted history requestedBy approval

/-- The persisted run from which a step is deployed. -/
structure Dispatched (history : History) (request : DeployInput) (run : ReleaseRun)
    (done rest : List ReleaseStep) (step : ReleaseStep) : Prop where
  stored : lastPersisted history = some run
  steps : run.steps = done ++ step :: rest
  input : request = deployInput run step
  /-- Every earlier step has succeeded. -/
  earlier : ∀ other ∈ done, other.status = .succeeded
  /-- Every selected service which the step has an ordering dependency on has succeeded. -/
  dependencies : ∀ planned ∈ run.plan.steps, planned.service = step.service →
    ∀ other ∈ run.steps, other.service ∈ planned.orderingDependencies → other.status = .succeeded
  /-- The last policy decision is that of the step, and permits it. -/
  permitted : ∃ evaluated decision, lastEvaluation history = some (evaluated, decision) ∧
    evaluated.service = step.service ∧ step.policy = some decision ∧
    Permitted history run.requestedBy step decision
  acquired : Acquired history run.id step.service

/-- The last decision of the policy is that of the step. -/
def Judged (history : History) (run : ReleaseRun) (index : ℕ)
    (holds : ReleaseStep → PolicyDecision → Prop) : Prop :=
  ∃ evaluated step decision, lastEvaluation history = some (evaluated, decision) ∧
    run.steps[index]? = some step ∧ evaluated.service = step.service ∧
    step.policy = some decision ∧ holds step decision

def Asked (step : ReleaseStep) (decision : PolicyDecision) : Prop :=
  decision.decision = .requireApproval ∧ ∃ approval, step.approval = some approval ∧
    approval.requiredRoles = decision.requiredRoles

def Cleared (step : ReleaseStep) (decision : PolicyDecision) : Prop :=
  decision.decision = .allow ∨
    decision.decision = .requireApproval ∧ ∃ approval, step.approval = some approval ∧
      approval.status = .approved ∧ approval.requiredRoles = decision.requiredRoles

/-- What is known of the authorization when a run is persisted. -/
def Goal.Authorized (history : History) (run : ReleaseRun) : Goal → Prop
  | evaluate index decision => Judged history run index fun _ recorded => recorded = decision
  | await index | pause .approval index | resume .approval index => Judged history run index Asked
  | approve index => Judged history run index Cleared
  | execute index => Judged history run index Cleared ∧
      ∃ step, run.steps[index]? = some step ∧ Acquired history run.id step.service
  | _ => True

/-- What is known at a location about the authorization of its step. -/
def Location.Authorized (history : History) : Location → Prop
  | stamp goal run | store goal run | completing goal run _ _ => goal.Authorized history run
  | evaluating index run step => run.steps[index]? = some step
  | requesting index run decision => decision.decision = .requireApproval ∧
      Judged history run index fun _ recorded => recorded = decision
  | paused .approval index run | waiting index run | selecting index run _ _
  | deciding index run _ => Judged history run index Asked
  | acquiring index run step => run.steps[index]? = some step ∧ Judged history run index Cleared
  | deploying index run step => lastPersisted history = some run ∧
      run.steps[index]? = some step ∧ Judged history run index Cleared ∧
      Acquired history run.id step.service
  | _ => True

section Authorized

variable {digest : Digest} {order : StepOrder} {total index : ℕ}
  {input run : ReleaseRun} {location next : Location} {history : History}
  {event : Event requests} {holds : ReleaseStep → PolicyDecision → Prop}

variable {later : ReleaseStep → PolicyDecision → Prop} {goal : Goal}

theorem Judged.mono (judged : Judged history run index holds)
    (implies : ∀ step decision, holds step decision → later step decision) :
    Judged history run index later := by
  obtain ⟨evaluated, step, decision, last, found, service, policy, held⟩ := judged
  exact ⟨evaluated, step, decision, last, found, service, policy, implies step decision held⟩

theorem Judged.append (judged : Judged history run index holds) (other : evaluation event = none) :
    Judged (history ++ [event]) run index holds := by
  unfold Judged
  rw [lastEvaluation_append_none other]
  exact judged

theorem Judged.setStep (judged : Judged history run index holds)
    {change : ReleaseStep → ReleaseStep} (service : ∀ step, (change step).service = step.service)
    (policy : ∀ step, (change step).policy = step.policy)
    (implies : ∀ step decision, holds step decision → later (change step) decision) :
    Judged history (setStep run index change) index later := by
  obtain ⟨evaluated, step, decision, last, found, same, recorded, held⟩ := judged
  exact ⟨evaluated, change step, decision, last, getElem?_setStep found,
    same.trans (service step).symm, (policy step).trans recorded, implies step decision held⟩

theorem Acquired.append {runID service : String} (acquired : Acquired history runID service)
    (event : Event requests) : Acquired (history ++ [event]) runID service := by
  obtain ⟨step, result, member, facts⟩ := acquired
  exact ⟨step, result, List.mem_append_left _ member, facts⟩

theorem Goal.Authorized.append (authorized : goal.Authorized history run)
    (other : evaluation event = none) : goal.Authorized (history ++ [event]) run := by
  cases goal with
  | evaluate | await | approve => exact Judged.append authorized other
  | pause wait | resume wait =>
    cases wait with
    | poll => trivial
    | approval => exact Judged.append authorized other
  | execute =>
    obtain ⟨judged, step, found, acquired⟩ := authorized
    exact ⟨judged.append other, step, found, acquired.append event⟩
  | _ => trivial

theorem authorized_enter : (enter total index run).Authorized history := by
  unfold enter
  split <;> trivial

theorem Begins.authorized (begins : Begins total index run location) :
    location.Authorized history := by
  cases begins with
  | done => exact authorized_enter
  | evaluate step found => exact found
  | unmet | missing => trivial

theorem Stores.authorized (stores : Stores order total goal run location)
    (authorized : goal.Authorized history run) (last : lastPersisted history = some run) :
    location.Authorized history := by
  cases stores with
  | begin | succeed => exact authorized_enter
  | resumePoll _ begins => exact begins.authorized
  | pause wait =>
    cases wait with
    | poll => trivial
    | approval => exact authorized
  | await | resumeApproval => exact authorized
  | request required => exact ⟨required, authorized⟩
  | allow allowed found =>
    refine ⟨found, Judged.mono authorized ?_⟩
    rintro step decision rfl
    exact Or.inl allowed
  | approve found => exact ⟨found, authorized⟩
  | execute found =>
    obtain ⟨judged, step, foundStep, acquired⟩ := authorized
    obtain rfl := Option.some.inj (found.symm.trans foundStep)
    exact ⟨last, found, judged, acquired⟩
  | _ => trivial

theorem Moves.authorized (moves : Moves digest order total location event next)
    (authorized : location.Authorized history) : next.Authorized (history ++ [event]) := by
  cases moves with
  | stamp | completed => exact Goal.Authorized.append authorized rfl
  | stored _ _ stores =>
    exact stores.authorized (Goal.Authorized.append authorized rfl) (lastPersisted_append _ _)
  | begins begins => exact begins.authorized
  | @resumed wait | @cancelIgnored wait | @resumeIgnored wait =>
    cases wait with
    | poll => trivial
    | approval => exact Judged.append authorized rfl
  | evaluated index run step decision =>
    exact ⟨step, { step with policy := some decision }, decision, lastEvaluation_append run step _,
      getElem?_setStep authorized, rfl, rfl, rfl⟩
  | requested decision now found =>
    obtain ⟨required, judged⟩ := authorized
    refine (judged.append rfl).setStep (fun _ => rfl) (fun _ => rfl) ?_
    rintro step _ rfl
    exact ⟨required, _, rfl, rfl⟩
  | waits | selectAccepted | selectIgnored | selectPaused => exact Judged.append authorized rfl
  | approved =>
    refine (Judged.append authorized rfl).setStep (fun _ => rfl) (fun _ => rfl) ?_
    rintro step decision ⟨required, approval, carried, roles⟩
    exact Or.inr ⟨required, _, congrArg (Option.map _) carried, rfl, roles⟩
  | @acquired index run step result allowed =>
    obtain ⟨found, judged⟩ := authorized
    refine ⟨(judged.append rfl).setStep (fun _ => rfl) (fun _ => rfl) fun _ _ cleared => cleared,
      _, getElem?_setStep found, _, result, ?_, schedulingStep_id run step, allowed⟩
    exact List.mem_append_right _ List.mem_cons_self
  | _ => trivial

theorem Reaches.authorized (reached : Reaches digest order total input history location) :
    location.Authorized history := by
  induction reached with
  | start => trivial
  | move _ moves ih => exact moves.authorized ih

end Authorized

def Fresh (run : ReleaseRun) : Prop :=
  ∀ step ∈ run.steps, step.status = .pending ∧ step.approval = none

theorem fresh_newRun (runID : String) (created : Time) (request : ReleaseRequest)
    (plan : ReleasePlan) : Fresh (Application.newRun runID created request plan) := by
  intro step member
  obtain ⟨_, _, _, _, rfl⟩ := Application.exists_planned_of_mem_newSteps member
  exact ⟨rfl, rfl⟩

section Release

variable {digest : Digest} {order : StepOrder} {input run : ReleaseRun}
  {history : History} {index : ℕ} {step : ReleaseStep}

theorem At.earlier {total : ℕ} {status : RunStatus} {current : StepStatus}
    (here : At total index status current run) :
    ∀ other ∈ run.steps.take index, other.status = .succeeded := by
  intro other member
  have succeeded : (run.steps.take index).map ReleaseStep.status =
      List.replicate index .succeeded := by
    rw [List.map_take, show run.steps.map ReleaseStep.status = _ from here.steps,
      List.take_left' List.length_replicate]
  exact List.eq_of_mem_replicate (succeeded ▸ List.mem_map_of_mem member)

/-- A fresh release has no approvals but those which were decided. -/
theorem Reaches.permitted_of_cleared {location : Location} {decision : PolicyDecision}
    (fresh : Fresh input)
    (reached : Reaches digest order input.steps.length input history location)
    (member : run ∈ location.run) (found : run.steps[index]? = some step)
    (cleared : Cleared step decision) : Permitted history run.requestedBy step decision := by
  have requester : run.requestedBy = input.requestedBy :=
    (congrArg ReleaseRun.requestedBy (reached.outline run member) :)
  refine cleared.imp_right ?_
  rintro ⟨required, approval, carried, approved, roles⟩
  refine ⟨required, approval, carried, approved, roles, ?_⟩
  rw [requester]
  rcases reached.vouched run member approval (mem_approvals found carried) approved with old | taken
  · obtain ⟨original, originalMem, carries⟩ := List.mem_filterMap.mp old
    rw [(fresh original originalMem).2] at carries
    cases carries
  · exact taken.granted reached

theorem Reaches.dispatched (planned : Planned input) (fresh : Fresh input)
    (reached : Reaches digest order input.steps.length input history (.deploying index run step))
    (preceded : ∀ evaluated decision, lastEvaluation history = some (evaluated, decision) →
      ∃ place, (input.steps.map ReleaseStep.service)[place]? = some evaluated.service ∧
        Preceded input place evaluated.service) :
    Dispatched history (Release.deployInput run step) run (run.steps.take index)
      (run.steps.drop (index + 1)) step := by
  obtain ⟨stored, found, ⟨evaluated, other, decision, last, foundOther, service, policy, cleared⟩,
    acquired⟩ := reached.authorized
  obtain rfl := Option.some.inj (found.symm.trans foundOther)
  obtain ⟨⟨-, here⟩, -⟩ := reached.fits fun step member => (fresh step member).1
  have split : run.steps.drop index = step :: run.steps.drop (index + 1) := by
    rw [List.drop_eq_getElem?_toList_append, found]
    rfl
  refine ⟨stored, ?_, rfl, here.earlier, ?_, ⟨evaluated, decision, last, service, policy, ?_⟩,
    acquired⟩
  · rw [← split, List.take_append_drop]
  · intro source member named other otherMem needed
    have outline := reached.outline run rfl
    have plan : run.plan = input.plan := (congrArg ReleaseRun.plan outline :)
    have services := services_eq_of_outline outline
    have distinct : (input.steps.map ReleaseStep.service).Nodup :=
      planned.services ▸ planned.distinct
    obtain ⟨place, listed, before⟩ := preceded evaluated decision last
    rw [service, ← services, List.getElem?_map] at listed
    have same : place = index := by
      rw [← services] at distinct
      have bound : index < (run.steps.map ReleaseStep.service).length := by
        rw [List.length_map]
        exact (List.getElem?_eq_some_iff.mp found).1
      refine ((List.getElem?_inj bound distinct).mp ?_).symm
      rw [List.getElem?_map, List.getElem?_map, listed, found]
      rfl
    subst same
    have earlier := before source (plan ▸ member) (named.trans service.symm) other.service needed
      (services ▸ List.mem_map_of_mem otherMem)
    rw [← services, ← List.map_take] at earlier
    obtain ⟨first, firstMem, sameService⟩ := List.mem_map.mp earlier
    rw [← services] at distinct
    obtain rfl := List.inj_on_of_nodup_map distinct (List.mem_of_mem_take firstMem) otherMem
      sameService
    exact here.earlier first firstMem
  · exact reached.permitted_of_cleared fresh rfl found cleared

end Release

/-- The dependencies of a plan come first in it, unless a phase overflows. -/
theorem dependenciesFirst_of_planIntent {digest : Digest} {planner : Planning.Planner}
    {order : IterationOrder String} {now : Time} {intent : ReleaseIntent} {plan : ReleasePlan}
    (planned : planner.planIntent digest order now intent = .ok plan)
    (inRange : planner.PhasesInRange intent) : DependenciesFirst plan := by
  have descend := phasesDescend_of_planIntent planned inRange
  have sorted := (Planning.Planner.faithful_of_planIntent planned).ordered.sorted_phases
  refine sorted.imp_of_mem fun {earlier later} earlierMem laterMem le needed => ?_
  exact absurd (descend earlier earlierMem later laterMem needed) le.not_gt

/--
The workflow deploys a step of the run of a plan only when all earlier steps and
all its selected dependencies have succeeded, when its last policy decision is to
allow it or its required approval was granted, and when the scheduler has allowed
it. It cannot block the run because of a dependency exactly when no step of the
plan has a dependency on a later one, and so whenever no phase overflows.
-/
theorem deploy_authorized {digest : Digest} {planner : Planning.Planner}
    (built : planner.Built digest) {order : IterationOrder String} {now : Time}
    {intent : ReleaseIntent} {plan : ReleasePlan}
    (planned : planner.planIntent digest order now intent = .ok plan) (runID : String)
    (created : Time) (request : ReleaseRequest) (waveOrder : StepOrder) :
    (∀ events rest, Runs environment () (releaseWorkflow digest waveOrder
        (Application.newRun runID created request plan)) events () rest →
      ∀ deployment next, rest.head = .request (.deploy deployment) next →
        ∃ run done later step, run.id = runID ∧
          Dispatched events deployment run done later step) ∧
    ((∀ events rest, Runs environment () (releaseWorkflow digest waveOrder
        (Application.newRun runID created request plan)) events () rest → ¬Blocking rest) ↔
      DependenciesFirst plan) ∧
    (planner.PhasesInRange intent → DependenciesFirst plan) := by
  have ordered := planned_of_planIntent built planned runID created request
  have fresh := fresh_newRun runID created request plan
  have unstarted : Unstarted (Application.newRun runID created request plan) :=
    ⟨ordered, fun step member => (fresh step member).1⟩
  refine ⟨?deploys, ⟨?first, ?never⟩, dependenciesFirst_of_planIntent planned⟩
  case deploys =>
    intro events rest run deployment next requested
    obtain ⟨⟨location, reached, asks⟩, -⟩ :=
      (releaseWorkflow_settles (fun _ _ _ _ legal => legal) run).2 _ next requested
    obtain ⟨index, run, step, rfl⟩ := exists_deploying asks
    cases asks
    refine ⟨run, _, _, step, (congrArg ReleaseRun.id (reached.outline run rfl) :),
      reached.dispatched ordered fresh fun evaluated decision last => ?_⟩
    obtain ⟨before, evaluatedRun, after, rfl⟩ := exists_of_lastEvaluation last
    obtain ⟨_, stopped, next, ran, asked⟩ := Runs.split ‹Runs _ _ _ _ _ _›
    exact ((releaseWorkflow_settles (fun _ _ _ _ legal => legal) ran).2 _ next asked).2 unstarted
  case first =>
    intro never
    by_contra late
    obtain ⟨events, rest, run, blocking⟩ := releaseWorkflow_blocks digest waveOrder unstarted late
    exact never events rest run blocking
  case never =>
    rintro first events rest run ⟨input, next, requested, audit, member, blocked⟩
    have quiet := ((releaseWorkflow_settles (fun _ _ _ _ legal => legal) run).2 _ next requested).2
    exact quiet unstarted first audit member blocked

def deploying (program : Prog requests Exit) : Option String :=
  match program.head with
  | .request (.deploy input) _ => some input.service
  | _ => none

theorem deploying_eq_some {program : Prog requests Exit} {service : String}
    (deploys : deploying program = some service) :
    ∃ deployment next, program.head = .request (.deploy deployment) next ∧
      deployment.service = service := by
  unfold deploying at deploys
  split at deploys
  · next deployment next requested => exact ⟨deployment, next, requested, Option.some.inj deploys⟩
  · cases deploys

/-- `web` needs an approval, which a reviewer grants. -/
def reviewed : (op : Op) → Option op.Res
  | .evaluateStep _ step => some (.ok
      { decision := if step.service = "web" then .requireApproval else .allow
        requiredRoles := ["operator"] })
  | .selectApproval _ => some (.approval
      { approvalID := approvalID default "run" "web"
        actor := "reviewer"
        roles := ["operator"]
        approve := true })
  | _ => none

/-- The deployment of a service which depends on another one and needs an approval. -/
theorem deploy_authorized_reviewed :
    ∃ plan events rest deployment next,
      Plans catalog ["web", "api"] plan ∧
      Runs environment () (rehearsal ["web", "api"] plan) events () rest ∧
      rest.head = .request (.deploy deployment) next ∧ deployment.service = "web" ∧
      ∃ run done later step, run.id = "run" ∧ Dispatched events deployment run done later step := by
  have evaluated : rehearse catalog ["web", "api"] (fun plan =>
      deploying (play (scripted reviewed) 33 () (rehearsal ["web", "api"] plan)).2.2) =
        .ok (some "web") := by
    decide +kernel
  obtain ⟨plan, ⟨planner, made, planned⟩, reached⟩ := exists_of_rehearse evaluated
  have run := runs_scripted reviewed 33 (rehearsal ["web", "api"] plan)
  obtain ⟨deployment, next, requested, service⟩ := deploying_eq_some reached
  exact ⟨plan, _, _, deployment, next, ⟨planner, made, planned⟩, run, requested, service,
    (deploy_authorized (.new made) planned "run" 1 _ .stored).1 _ _ run deployment next requested⟩

/-- What the workflow is about to record in the audit log. -/
def recordedActions (program : Prog requests Exit) : List String :=
  match program.head with
  | .request (.persistRun input) _ => input.audits.map AuditIntent.action
  | _ => []

theorem blocking_of_recordedActions {program : Prog requests Exit}
    (recorded : "dependency.block" ∈ recordedActions program) : Blocking program := by
  unfold recordedActions at recorded
  split at recorded
  · next input next requested =>
    obtain ⟨audit, member, action⟩ := List.mem_map.mp recorded
    exact ⟨input, next, requested, audit, member, action⟩
  · cases recorded

/-- A service whose phase overflows is planned before its dependency, and blocks the release. -/
theorem deploy_blocked_by_overflow :
    let services := [legacyService "base" 9223372036854775807 [],
      legacyService "child" 0 ["base"]]
    ∃ plan events rest,
      Plans services ["base", "child"] plan ∧
      Runs environment () (rehearsal ["base", "child"] plan) events () rest ∧
      Blocking rest := by
  intro services
  have evaluated : rehearse services ["base", "child"] (fun plan =>
      recordedActions (play (scripted fun _ => none) 5 () (rehearsal ["base", "child"] plan)).2.2) =
        .ok ["dependency.block"] := by
    decide +kernel
  obtain ⟨plan, plans, recorded⟩ := exists_of_rehearse evaluated
  exact ⟨plan, _, _, plans, runs_scripted _ 5 _,
    blocking_of_recordedActions (by rw [recorded]; exact List.mem_singleton_self _)⟩

end Themisy.Workflow.Release
