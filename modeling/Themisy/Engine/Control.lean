import Themisy.Engine.Engine
import Themisy.Interaction.History

/-!
# The calls of the engine, one after the other

A call changes only the run it is about. Which changes it makes, and whether it
deploys, depends on the run which it has read first: `Permits` says so for every
operation, and every request of a call is permitted by the history of the call.
-/

namespace Themisy.Engine

open Domain Store Interaction
open Workflow.Release (cancelDownstream cancelSteps containsAll failStep setStep)

/-- A request which deploys a service for the run. -/
def DeploysFor (id : String) : Op → Prop
  | .deploy request => ∃ rest, request.idempotencyKey = id ++ "/" ++ rest
  | _ => False

/-- A change of a run: the status with which it is stored, or a deployment. -/
inductive Act where
  | update (status : RunStatus)
  | deploy
  deriving DecidableEq

/-- The changes of a run which is carried out. -/
def Act.advances : Act → Bool
  | update status => status ≠ .cancelled ∧ status ≠ .paused
  | deploy => true

/-- Every change is permitted; a run is created as pending and under a generated identifier. -/
def Acting (permits : History → String → Act → Prop)
    (history : History) : Op → Prop
  | .updateRun run _ => permits history run.id (.update run.status)
  | .deploy request =>
    ∃ id rest, request.idempotencyKey = id ++ "/" ++ rest ∧ permits history id .deploy
  | .createRun run => run.status = .pending ∧ ∃ bytes, run.id = Application.newID "run" bytes
  | _ => True

def Legal : (op : Op) → op.Res → Prop
  | .newID kind, id => ∃ bytes, id = Application.newID kind bytes
  | _, _ => True

/-- The requests of a call are permitted, and its values satisfy `post`. -/
abbrev Restrained {α : Type} (permits : History → String → Act → Prop)
    (post : α → History → Prop) (history : History)
    (program : Call α) : Prop :=
  Settles (S := requests) Legal (Acting permits) (fun _ _ => True) post history program

/-- From here on, the call may do what `advance` does. -/
def Advancing (permits : History → String → Act → Prop)
    (history : History) (id : String) : Prop :=
  ∀ events act, act.advances → permits (history ++ events) id act

/-- The run is the same, and a run which stops is neither cancelled nor paused. -/
def Progress.Keeps (id : String) : Progress → Prop
  | .stopped last => last.id = id ∧ (Act.update last.status).advances
  | .goesOn next _ => next.id = id

variable {run : ReleaseRun} {succeeded : GoMap String Bool} {deployment : Workflow.Deployment}
  {step : ReleaseStep} {index : ℕ} {key actor : String} {approve : Bool}

section Advance

variable {α β : Type} {permits : History → String → Act → Prop}
  {post : α → History → Prop} {history : History} {id : String}

theorem Advancing.append (advancing : Advancing permits history id)
    (events : History) : Advancing permits (history ++ events) id := by
  intro more act advances
  rw [List.append_assoc]
  exact advancing _ act advances

variable {follow : β → Call α} {runID reason : String} {decision : PolicyDecision}
  {services : GoMap String Service} {selected : GoMap String Bool}

theorem returning_restrained {created : Bool} {result : Except EngineError β}
    (continues : ∀ value, result = .ok value → Restrained permits post history (follow value)) :
    Restrained permits post history (returning created result >>= follow) := by
  cases result with
  | error error => exact .throw trivial
  | ok value => exact continues value rfl

theorem stored_restrained {answer : Except StoreError β}
    (continues : ∀ value, answer = .ok value → Restrained permits post history (follow value)) :
    Restrained permits post history (stored answer >>= follow) :=
  returning_restrained fun value eq => continues value (mapError_eq_ok.mp eq)

theorem audit_restrained {actorType actorID action resourceType resourceID result : String}
    {details : Json} {follow : Except StoreError Unit → Call α}
    (continues : ∀ events answer, Restrained permits post (history ++ events) (follow answer)) :
    Restrained permits post history
      (audit run actorType actorID action resourceType resourceID result details >>= follow) := by
  simp only [audit, bind_assoc]
  refine .ask trivial fun id _ => .ask trivial fun timestamp _ => .ask trivial fun answer _ => ?_
  simp only [List.append_assoc]
  exact continues _ answer

theorem getRun_restrained {follow : ReleaseRun → Call α}
    (continues : ∀ run, Restrained permits post (history ++ [⟨.getRun runID, .ok run⟩])
      (follow run)) : Restrained permits post history (getRun runID >>= follow) := by
  simp only [getRun, bind_assoc]
  refine .ask trivial fun answer _ => stored_restrained ?_
  rintro run rfl
  exact continues run

theorem getRun_restrained_last : Restrained permits (fun _ _ => True) history (getRun runID) := by
  rw [← bind_pure (getRun runID)]
  exact getRun_restrained fun _ => .pure trivial

theorem persist_restrained {version : ℤ} {follow : Unit → Call α}
    (permitted : ∀ events, permits (history ++ events) run.id (.update run.status))
    (continues : ∀ events, Restrained permits post (history ++ events) (follow ())) :
    Restrained permits post history (persist run version >>= follow) := by
  simp only [persist, bind_assoc]
  refine .ask trivial fun updatedAt _ => .ask (permitted _) fun answer _ => ?_
  refine stored_restrained fun _ _ => ?_
  simp only [List.append_assoc]
  exact continues _

section

variable (same : run.id = id)

include same

theorem requestApproval_restrained :
    Restrained permits (fun progress _ => progress.Keeps id) history
      (requestApproval run index step decision) := by
  unfold requestApproval
  cases step.approval with
  | some approval =>
    refine audit_restrained fun events answer => ?_
    rcases answer with error | ⟨⟩
    · exact .pure ⟨same, rfl⟩
    · exact .pure ⟨same, rfl⟩
  | none =>
    refine .ask trivial fun now _ => .ask trivial fun id _ => ?_
    refine audit_restrained fun events answer => ?_
    rcases answer with error | ⟨⟩
    · exact .pure ⟨same, rfl⟩
    · exact .pure ⟨same, rfl⟩

theorem performRollback_restrained :
    Restrained permits (fun last _ => last.id = id ∧ (Act.update last.status).advances) history
      (performRollback run index key reason deployment) := by
  refine .ask trivial fun answer _ => ?_
  rcases answer with message | rolledBack
  · exact .pure ⟨same, rfl⟩
  refine .ask trivial fun id _ => .ask trivial fun answer _ => ?_
  rcases answer with message | result
  · exact .pure ⟨same, rfl⟩
  refine .ask trivial fun checkedAt _ => ?_
  split
  · exact .pure ⟨same, rfl⟩
  · exact .pure ⟨same, rfl⟩

theorem rollbackStep_restrained :
    Restrained permits (fun progress _ => progress.Keeps id) history
      (rollbackStep run index step key reason deployment) := by
  refine audit_restrained fun events _ => ?_
  split
  · exact .pure ⟨same, rfl⟩
  · exact .bind (performRollback_restrained same) fun rolled later kept => .pure kept

theorem verifyStep_restrained :
    Restrained permits (fun progress _ => progress.Keeps id) history
      (verifyStep run succeeded index step key deployment) := by
  refine .ask trivial fun executionID _ => .ask trivial fun answer _ => ?_
  rcases answer with message | result
  · exact .pure ⟨same, rfl⟩
  refine .ask trivial fun checkedAt _ => ?_
  split
  · exact rollbackStep_restrained same
  · exact audit_restrained fun events _ => .pure same

theorem deployStep_restrained (advancing : Advancing permits history id) :
    Restrained permits (fun progress _ => progress.Keeps id) history
      (deployStep run succeeded index step decision) := by
  refine audit_restrained fun events answer => ?_
  rcases answer with error | ⟨⟩
  · exact .pure ⟨same, rfl⟩
  refine .ask ?_ fun answer _ => ?_
  · refine ⟨id, run.environment.text ++ "/" ++ step.service ++ "/" ++
      step.change.desiredVersion, ?_, advancing events .deploy rfl⟩
    simp only [idempotencyKey, same, String.append_assoc]
  rcases answer with message | deployment
  · exact .pure ⟨same, rfl⟩
  · exact verifyStep_restrained same

theorem evaluateStep_restrained (advancing : Advancing permits history id) :
    Restrained permits (fun progress _ => progress.Keeps id) history
      (evaluateStep run succeeded index step) := by
  refine .ask trivial fun decision _ => audit_restrained fun events answer => ?_
  rcases answer with error | ⟨⟩
  · exact .pure ⟨same, rfl⟩
  dsimp only
  split
  · exact .pure ⟨same, rfl⟩
  split
  · exact requestApproval_restrained same
  · exact deployStep_restrained same ((advancing.append _).append events)

theorem advanceStep_restrained (advancing : Advancing permits history id) :
    Restrained permits (fun progress _ => progress.Keeps id) history
      (advanceStep services selected succeeded run index) := by
  unfold advanceStep
  split
  · exact .pure same
  split
  · exact .pure same
  split
  · exact .pure ⟨same, rfl⟩
  · exact evaluateStep_restrained same advancing

theorem advanceSteps_restrained {indices : List ℕ} (advancing : Advancing permits history id) :
    Restrained permits (fun last _ => last.id = id ∧ (Act.update last.status).advances) history
      (advanceSteps services selected indices run succeeded) := by
  induction indices generalizing run succeeded history with
  | nil => exact .pure ⟨same, rfl⟩
  | cons index rest ih =>
    refine .sequence (advanceStep_restrained same advancing) fun progress events kept => ?_
    cases progress with
    | stopped last => exact .pure kept
    | goesOn next later => exact ih kept (advancing.append events)

end

theorem advance_restrained (engine : Engine) (advancing : Advancing permits history run.id) :
    Restrained permits (fun _ _ => True) history (engine.advance run) := by
  refine .ask trivial fun order _ => ?_
  have started := advancing.append [⟨.iterationOrder, order⟩]
  refine .sequence (advanceSteps_restrained rfl started) ?_
  rintro last events ⟨same, advances⟩
  rw [← bind_pure (persist last run.stateVersion)]
  refine persist_restrained (fun more => ?_) fun _ => .pure trivial
  rw [same]
  exact (started.append events) more _ advances

end Advance

/-- A decision on the approval passes the checks before that of its expiry. -/
def isOpen (run : ReleaseRun) (approvalID actor : String) : Bool :=
  actor ≠ "" ∧ (pendingApproval run approvalID).any fun found =>
    found.2.planHash = run.plan.hash

/-- An approval passes all checks if it comes before the expiry. -/
def mayApprove (run : ReleaseRun) (approvalID actor : String) (roles : List String) : Bool :=
  actor ≠ "" ∧ actor ≠ run.requestedBy ∧ (pendingApproval run approvalID).any fun found =>
    found.2.planHash = run.plan.hash ∧ containsAll roles found.2.requiredRoles

def Operation.subject : Operation → Option String
  | start _ => none
  | decideApproval runID _ _ _ _ | cancel runID _ | pause runID _ | resume runID _ => some runID

/-- The changes which an operation makes to a run it has found like this. -/
def Operation.Guard (first : ReleaseRun) : Operation → Act → Prop
  | start _, _ => False
  | decideApproval _ approvalID actor roles approve, act =>
    act.advances ∧ isOpen first approvalID actor ∧
      (act = .deploy → approve ∧ mayApprove first approvalID actor roles)
  | cancel _ _, act => first.status ≠ .cancelled ∧ act = .update .cancelled
  | pause _ _, act =>
    (first.status = .running ∨ first.status = .waitingApproval) ∧ act = .update .paused
  | resume _ _, act => first.status = .paused ∧ act.advances

/-- An operation changes the run which it has created, or the one which it has read. -/
def Operation.Permits (operation : Operation) (history : History) (id : String)
    (act : Act) : Prop :=
  match operation.subject with
  | none =>
    act.advances ∧ ∃ run answer, ⟨.createRun run, .ok (answer, true)⟩ ∈ history ∧ id = run.id
  | some runID =>
    (∃ first rest, history = ⟨.getRun runID, .ok first⟩ :: rest ∧ operation.Guard first act) ∧
      ∃ read, ⟨.getRun runID, .ok read⟩ ∈ history ∧ id = read.id

section Operations

variable {operation : Operation} {runID : String}

variable {rest : History} {first : ReleaseRun} {id : String} {act : Act} {now : Time}
  {request : ReleaseRequest}

theorem Operation.permits_of_read {read : ReleaseRun} (named : operation.subject = some runID)
    (guarded : operation.Guard first act)
    (member : ⟨.getRun runID, .ok read⟩ ∈ (⟨.getRun runID, .ok first⟩ : Event requests) :: rest)
    (same : id = read.id) : operation.Permits (⟨.getRun runID, .ok first⟩ :: rest) id act := by
  unfold Permits
  rw [named]
  exact ⟨⟨first, rest, rfl, guarded⟩, read, member, same⟩

theorem Operation.permits_of_first (named : operation.subject = some runID)
    (guarded : operation.Guard first act) (same : id = first.id) :
    operation.Permits (⟨.getRun runID, .ok first⟩ :: rest) id act :=
  permits_of_read named guarded List.mem_cons_self same

theorem decideStep_id : (decideStep run index actor approve now).id = run.id := by
  cases approve <;> rfl

theorem decideStep_advances :
    (Act.update (decideStep run index actor approve now).status).advances := by
  cases approve <;> rfl

theorem startCreated_restrained (engine : Engine) {history : History}
    {permits : History → String → Act → Prop}
    (advancing : Advancing permits history run.id) :
    Restrained permits (fun _ _ => True) history (engine.startCreated request run) := by
  refine audit_restrained fun events answer => returning_restrained fun _ _ => ?_
  refine Always.bind (Always.bind (Always.mono ?_
    (advance_restrained engine (advancing.append events))))
  rintro result later -
  refine Always.pure ?_
  rcases result with failure | ⟨⟩
  · exact Settles.throw trivial
  · exact Settles.ask trivial fun answer _ => returning_restrained fun _ _ => .pure trivial

theorem start_restrained (engine : Engine) :
    Restrained (Operation.start request).Permits (fun _ _ => True) [] (engine.start request) := by
  have planned : Restrained (Operation.start request).Permits (fun _ _ => True) []
      (engine.plan request) := by
    refine returning_restrained fun _ _ => .ask trivial fun order _ => .ask trivial fun now _ => ?_
    rw [← bind_pure (returning false _)]
    exact returning_restrained fun _ _ => .pure trivial
  refine .bind planned fun plan history _ => ?_
  refine .ask trivial fun validatedAt _ => returning_restrained fun _ _ => ?_
  refine .ask trivial fun now _ => .ask trivial fun runID generated => ?_
  refine .ask ⟨rfl, generated⟩ fun answer _ => stored_restrained ?_
  rintro ⟨createdRun, created⟩ rfl
  cases created with
  | false => exact .pure trivial
  | true =>
    refine startCreated_restrained engine fun events act advances => ⟨advances, ?_⟩
    exact ⟨newRun runID now request plan, createdRun, by simp, rfl⟩

theorem decideApproval_restrained (engine : Engine) {approvalID : String} {roles : List String} :
    Restrained (Operation.decideApproval runID approvalID actor roles approve).Permits
      (fun _ _ => True) [] (engine.decideApproval runID approvalID actor roles approve) := by
  refine getRun_restrained fun run => returning_restrained fun _ eq => ?_
  have named : actor ≠ "" := require_eq_ok.mp eq
  split
  · exact .throw trivial
  next index approval found =>
  refine returning_restrained fun _ eq => .ask trivial fun checkedAt _ => ?_
  have bound : approval.planHash = run.plan.hash := require_eq_ok.mp eq
  have opened : isOpen run approvalID actor := by simp [isOpen, named, found, bound]
  split
  · refine persist_restrained (fun events => ?_) fun _ => getRun_restrained_last
    exact Operation.permits_of_first rfl ⟨rfl, opened, fun impossible => by cases impossible⟩ rfl
  refine returning_restrained fun _ qualified => returning_restrained fun _ foreign => ?_
  simp only [require_eq_ok] at qualified foreign
  refine .ask trivial fun now _ => audit_restrained fun events answer => ?_
  refine returning_restrained fun _ _ => .ask ?_ fun answer _ => stored_restrained fun _ _ => ?_
  · change (Operation.decideApproval runID approvalID actor roles approve).Permits _ _ _
    exact Operation.permits_of_first rfl
      ⟨decideStep_advances, opened, fun impossible => by cases impossible⟩ decideStep_id
  cases approve with
  | false => exact getRun_restrained_last
  | true =>
    have approvable : mayApprove run approvalID actor roles := by
      simp only [true_and, not_not] at qualified foreign
      simp [mayApprove, named, found, bound, qualified, foreign]
    simp only [if_true]
    refine getRun_restrained fun current => ?_
    refine .bind (advance_restrained engine fun more act advances => ?_) fun _ _ _ =>
      getRun_restrained_last
    exact Operation.permits_of_read rfl ⟨advances, opened, fun _ => ⟨rfl, approvable⟩⟩ (by simp) rfl

theorem cancel_restrained :
    Restrained (Operation.cancel runID actor).Permits (fun _ _ => True) []
      (Engine.cancel runID actor) := by
  refine getRun_restrained fun run => ?_
  split
  · exact .pure trivial
  next unfinished =>
  refine .ask trivial fun updatedAt _ => audit_restrained fun events answer => ?_
  refine returning_restrained fun _ _ => .ask ?_ fun answer _ => stored_restrained fun _ _ =>
    getRun_restrained_last
  have live : run.status ≠ .cancelled := (not_or.mp unfinished).2
  change (Operation.cancel runID actor).Permits _ _ _
  exact Operation.permits_of_first rfl ⟨live, rfl⟩ rfl

theorem pause_restrained :
    Restrained (Operation.pause runID actor).Permits (fun _ _ => True) []
      (Engine.pause runID actor) := by
  refine getRun_restrained fun run => ?_
  split
  · exact .pure trivial
  next going =>
  refine persist_restrained (fun events => ?_) fun _ => getRun_restrained_last
  refine Operation.permits_of_first rfl ⟨?_, rfl⟩ rfl
  tauto

theorem resume_restrained (engine : Engine) :
    Restrained (Operation.resume runID actor).Permits (fun _ _ => True) []
      (engine.resume runID actor) := by
  refine getRun_restrained fun run => ?_
  split
  · exact .pure trivial
  next paused =>
  split
  · refine persist_restrained (fun events => ?_) fun _ => getRun_restrained_last
    exact Operation.permits_of_first rfl ⟨not_not.mp paused, rfl⟩ rfl
  · refine .bind (advance_restrained engine fun events act advances => ?_) fun _ _ _ =>
      getRun_restrained_last
    exact Operation.permits_of_first rfl ⟨not_not.mp paused, advances⟩ rfl

/-- Every request of an operation is permitted by what the operation has read and created. -/
theorem program_restrained (engine : Engine) (operation : Operation) :
    Restrained operation.Permits (fun _ _ => True) [] (operation.program engine) := by
  cases operation with
  | start request => exact .bind (start_restrained engine) fun _ _ _ => .pure trivial
  | decideApproval runID approvalID actor roles approve =>
    exact .bind (decideApproval_restrained engine) fun _ _ _ => .pure trivial
  | cancel runID actor => exact .bind cancel_restrained fun _ _ _ => .pure trivial
  | pause runID actor => exact .bind pause_restrained fun _ _ _ => .pure trivial
  | resume runID actor => exact .bind (resume_restrained engine) fun _ _ _ => .pure trivial

end Operations

end Themisy.Engine
