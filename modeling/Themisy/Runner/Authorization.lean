import Themisy.Runner.Records

/-!
# What `Execute` has checked before it writes

Whenever `Execute` acquires a credential or calls the adapter, its history shows that
every check has passed and that a reservation was newly created, and the adapter has
not been called before.

Before the reservation only checks are made, which leave the journal as it was. It is
changed only by justified requests, and a succeeded result is a recorded one.
-/

namespace Themisy.Runner

open Domain Protocol Grant Identity Store Interaction

namespace Op

/-- Requests which neither change the journal nor leave the runner to write. -/
def isCheck : Op → Bool
  | verifyGrant _ | connected | verifySubject _ | verifyDelegation _ | resolveContext _ _
  | verifyApprovals _ _ | evaluatePolicy _ | now | getRunnerAction _ _ _
  | pendingRunnerActions _ _ _ => true
  | _ => false

def isWrite : Op → Bool
  | acquireCredential _ | executeAdapter _ _ => true
  | _ => false

def isExecute : Op → Bool
  | executeAdapter _ _ => true
  | _ => false

end Op

/-- A machine on which checks and refused reservations change nothing. -/
structure Quiet (machine : Machine requests) : Prop where
  check : ∀ {world op answer next}, op.isCheck = true → machine.answers world op answer next →
    next = world
  refused : ∀ {world record audit found next},
    machine.answers world (Op.reserveRunnerAction record audit) (.ok (found, false)) next →
      next = world

/-- What the checks of a grant have found. -/
structure Findings where
  subject : Subject
  delegation : Delegation
  pinned : PinnedContext
  evaluation : Policy.Evaluation

/-- The history shows that every check before the reservation has passed. -/
structure Authorized (runner : Runner) (grant : ActionGrant) (findings : Findings)
    (history : History) : Prop where
  granted : ⟨Op.verifyGrant grant, .ok ()⟩ ∈ history
  tenant : runner.tenantID ≠ "" ∧ grant.tenantID = runner.tenantID
  group : runner.runnerGroup ≠ "" ∧ grant.runnerGroup = runner.runnerGroup
  connected : ⟨Op.connected, true⟩ ∈ history
  subject : ⟨Op.verifySubject grant.userIdentityProof, .ok findings.subject⟩ ∈ history
  user : findings.subject.id = grant.userSubject
  delegation : ⟨Op.verifyDelegation (delegationRequest grant findings.subject),
    .ok findings.delegation⟩ ∈ history
  context : ⟨Op.resolveContext grant.runID grant.stepID, .ok findings.pinned⟩ ∈ history
  hashes : matchingHashes grant findings.pinned
  approvalsPresent : findings.pinned.approvalRequired = true → grant.approvalProofs ≠ []
  approvals : grant.approvalProofs ≠ [] →
    ⟨Op.verifyApprovals grant findings.subject, .ok ()⟩ ∈ history
  capability : grant.action.capability ∈ runner.capabilities
  policy : ⟨Op.evaluatePolicy (Policy.inputForGrant grant findings.subject.issuer
    findings.subject.id findings.delegation.agentID findings.delegation.id),
    .ok findings.evaluation⟩ ∈ history
  decision : findings.evaluation.decision = .allow
  policyHashes : findings.evaluation.inputHash = grant.policyInputHash ∧
    findings.evaluation.policyHash = grant.policyHash

theorem Authorized.mono {runner : Runner} {grant : ActionGrant} {findings : Findings}
    {history later : History} (authorized : Authorized runner grant findings history)
    (grows : history ⊆ later) : Authorized runner grant findings later :=
  { authorized with
    granted := grows authorized.granted
    connected := grows authorized.connected
    subject := grows authorized.subject
    delegation := grows authorized.delegation
    context := grows authorized.context
    approvals := fun some => grows (authorized.approvals some)
    policy := grows authorized.policy }

/-- Every reservation in the history was refused. -/
def Unreserved (history : History) : Prop :=
  ∀ record audit answer, ⟨Op.reserveRunnerAction record audit, answer⟩ ∈ history →
    ∃ found, answer = .ok (found, false)

/-- The history of a call which is ready to write: every check has passed, a new reservation was
created with its audit event, and the adapter has not been called. -/
structure Ready (runner : Runner) (grant : ActionGrant) (findings : Findings)
    (history : History) : Prop where
  authorized : Authorized runner grant findings history
  reserved : ∃ requestHash now found, ⟨Op.reserveRunnerAction (newRecord grant requestHash now)
    (reserveAudit grant requestHash now), .ok (found, true)⟩ ∈ history
  first : ∀ event ∈ history, event.1.isExecute = false

/-- A write of a ready call, which asks the adapter for the pinned target and action. -/
def Mediated (runner : Runner) (grant : ActionGrant) (history : History) (op : Op) : Prop :=
  ∃ findings, Ready runner grant findings history ∧
    ∀ request credential, op = .executeAdapter request credential →
      request.target = findings.pinned.target ∧ request.action = findings.pinned.action

/-- The record is the one which `Execute` makes for the grant. -/
def Reserves (digest : Digest) (order : IterationOrder (String × String)) (grant : ActionGrant)
    (record : RunnerActionRecord) : Prop :=
  ∃ requestHash now, grantHash digest order grant = .ok requestHash ∧
    record = newRecord grant requestHash now

/-- The result of `Execute` when its last statement has this outcome. -/
def exitOf : Except Exit Result → Exit
  | .ok result => (result, none)
  | .error exit => exit

variable {reason : Reason} {error : Option GoError} {subject : Subject} {op : Op}

section Execute

variable {machine : Machine requests}

/-- Without a reservation, the journal is unchanged and nothing was written. -/
def Clean (start : machine.World) (last : machine.traced.World) : Prop :=
  Unreserved last.2 → last.1 = start ∧ ∀ event ∈ last.2, event.1.isWrite = false

/-- A request of `Execute` is safe in a clean state if it is mediated when it writes, and
justified when it changes the journal. -/
structure SafeRequest (digest : Digest) (runner : Runner)
    (order : IterationOrder (String × String)) (grant : ActionGrant) (start : machine.World)
    (last : machine.traced.World) (op : Op) : Prop where
  clean : Clean start last
  mediated : op.isWrite = true → Mediated runner grant last.2 op
  justified : Honestly last.2 → Justified (Reserves digest order grant) last.2 op

/-- What holds when `Execute` leaves with an exit. -/
structure Leaves (digest : Digest) (order : IterationOrder (String × String)) (grant : ActionGrant)
    (start : machine.World) (exit : Exit) (last : machine.traced.World) : Prop where
  clean : Clean start last
  recorded : Honestly last.2 → Recorded digest order grant last.2 exit.1

def Executes (digest : Digest) (runner : Runner) (order : IterationOrder (String × String))
    (grant : ActionGrant) (start : machine.World) (last : machine.traced.World)
    (program : Call Result) : Prop :=
  Ensures machine.traced (SafeRequest digest runner order grant start)
    (fun outcome last => Leaves digest order grant start (exitOf outcome) last) last program

variable {digest : Digest} {runner : Runner} {order : IterationOrder (String × String)}
  {grant : ActionGrant} {start world : machine.World} {history : History} {requestHash : String}

theorem Op.isWrite_of_isCheck (isCheck : op.isCheck = true) : op.isWrite = false := by
  cases op <;> first | rfl | cases isCheck

theorem Op.isExecute_of_isWrite (harmless : op.isWrite = false) : op.isExecute = false := by
  cases op <;> first | rfl | cases harmless

theorem justified_of_isCheck {reserves : RunnerActionRecord → Prop} (isCheck : op.isCheck = true) :
    Justified reserves history op := by
  cases op with
  | reserveRunnerAction | completeRunnerAction => cases isCheck
  | _ => trivial

/-- A call which has only made checks. -/
structure Checking (machine : Machine requests) (history : History) : Prop where
  quiet : Quiet machine
  checks : ∀ event ∈ history, event.1.isCheck = true

variable {other : ActionGrant}

namespace Checking

theorem append (checking : Checking machine history) {answer : op.Res}
    (isCheck : op.isCheck = true) : Checking machine (history ++ [⟨op, answer⟩]) := by
  refine ⟨checking.quiet, ?_⟩
  intro event member
  rcases List.mem_append.mp member with earlier | last
  · exact checking.checks event earlier
  · rw [List.mem_singleton] at last
    subst last
    exact isCheck

theorem clean (checking : Checking machine history) :
    Clean start ((start, history) : machine.traced.World) :=
  fun _ => ⟨rfl, fun event member => Op.isWrite_of_isCheck (checking.checks event member)⟩

variable {α : Type} {follow : α → Call Result}

section

variable (checking : Checking machine history)

include checking

theorem ask (op : Op) (isCheck : op.isCheck = true) {follow : op.Res → Call Result}
    (continues : ∀ answer, Checking machine (history ++ [⟨op, answer⟩]) →
      Executes digest runner order grant start (start, history ++ [⟨op, answer⟩])
        (follow answer)) :
    Executes digest runner order grant start (start, history) (Runner.ask op >>= follow) := by
  refine Ensures.requestTraced ⟨checking.clean, ?_, fun _ => justified_of_isCheck isCheck⟩ ?_
  · intro isWrite
    rw [Op.isWrite_of_isCheck isCheck] at isWrite
    cases isWrite
  · intro answer middle answered
    rw [checking.quiet.check isCheck answered]
    exact continues answer (checking.append isCheck)

theorem leave {exit : Exit} (recorded : Recorded digest order grant history exit.1) :
    Executes digest runner order grant start (start, history) (throw exit) :=
  Ensures.pure ⟨checking.clean, fun _ => recorded⟩

theorem reject :
    Executes digest runner order grant start (start, history)
      (Runner.reject other reason error >>= follow) :=
  checking.ask .now rfl fun _ checking => checking.leave (recorded_of_rejected (by simp))

theorem check {condition : Prop} [Decidable condition] {follow : Unit → Call Result}
    (continues : condition → Executes digest runner order grant start (start, history)
      (follow ())) :
    Executes digest runner order grant start (start, history)
      (Runner.check grant condition reason error >>= follow) := by
  unfold Runner.check
  split
  · next holds => exact continues holds
  · exact checking.reject

theorem accept {answer : Except GoError α} (continues : ∀ value, answer = .ok value →
      Executes digest runner order grant start (start, history) (follow value)) :
    Executes digest runner order grant start (start, history)
      (Runner.accept grant reason answer >>= follow) := by
  cases answer with
  | ok value => exact continues value rfl
  | error error => exact checking.reject

theorem verifyGrant {follow : String → Call Result}
    (continues : ∀ requestHash later, history ⊆ later → Checking machine later →
      ⟨Op.verifyGrant grant, .ok ()⟩ ∈ later →
      runner.tenantID ≠ "" ∧ grant.tenantID = runner.tenantID →
      runner.runnerGroup ≠ "" ∧ grant.runnerGroup = runner.runnerGroup →
      grantHash digest order grant = .ok requestHash →
      Executes digest runner order grant start (start, later) (follow requestHash)) :
    Executes digest runner order grant start (start, history)
      (runner.verifyGrant digest order grant >>= follow) := by
  simp only [Runner.verifyGrant, bind_assoc]
  refine checking.check fun _ => ?_
  refine checking.ask _ rfl fun answer asked => ?_
  rcases answer with error | ⟨⟩
  · exact asked.reject
  · simp only [bind_assoc]
    refine asked.check fun tenant => ?_
    refine asked.check fun group => ?_
    refine asked.accept fun requestHash hashed => ?_
    exact continues requestHash _ (List.subset_append_left _ _) asked (by simp) tenant group hashed

theorem checkReplay
    (hashed : grantHash digest order grant = .ok requestHash) {follow : Unit → Call Result}
    (continues : ∀ later, history ⊆ later → Checking machine later →
      Executes digest runner order grant start (start, later) (follow ())) :
    Executes digest runner order grant start (start, history)
      (runner.checkReplay grant requestHash >>= follow) := by
  simp only [Runner.checkReplay, bind_assoc]
  refine checking.check fun _ => ?_
  refine checking.ask _ rfl fun answer asked => ?_
  rcases answer with (_ | _ | error) | existing
  · exact continues _ (List.subset_append_left _ _) asked
  · exact asked.reject
  · exact asked.reject
  · exact asked.leave (recorded_replayResult hashed (Known.last (by simp [shown])))

theorem verifySubject {follow : Subject → Call Result}
    (continues : ∀ subject later, history ⊆ later → Checking machine later →
      ⟨Op.connected, true⟩ ∈ later →
      ⟨Op.verifySubject grant.userIdentityProof, .ok subject⟩ ∈ later →
      subject.id = grant.userSubject →
      Executes digest runner order grant start (start, later) (follow subject)) :
    Executes digest runner order grant start (start, history)
      (runner.verifySubject grant >>= follow) := by
  simp only [Runner.verifySubject, bind_assoc]
  refine checking.check fun _ => ?_
  refine checking.ask .connected rfl fun connected asked => ?_
  refine asked.check fun isConnected => ?_
  refine asked.check fun _ => ?_
  refine asked.ask _ rfl fun answer verified => ?_
  refine verified.accept fun subject found => ?_
  refine verified.check fun user => ?_
  subst found
  subst isConnected
  refine continues subject _ ?_ verified (by simp) (by simp) user
  exact List.Subset.trans (List.subset_append_left _ _) (List.subset_append_left _ _)

theorem verifyDelegation {follow : Delegation → Call Result}
    (continues : ∀ delegation later, history ⊆ later → Checking machine later →
      ⟨Op.verifyDelegation (delegationRequest grant subject), .ok delegation⟩ ∈ later →
      Executes digest runner order grant start (start, later) (follow delegation)) :
    Executes digest runner order grant start (start, history)
      (runner.verifyDelegation grant subject >>= follow) := by
  simp only [Runner.verifyDelegation, bind_assoc]
  refine checking.check fun _ => ?_
  refine checking.ask _ rfl fun answer asked => ?_
  refine asked.accept fun delegation found => ?_
  subst found
  exact continues delegation _ (List.subset_append_left _ _) asked (by simp)

theorem resolveContext {follow : PinnedContext → Call Result}
    (continues : ∀ pinned later, history ⊆ later → Checking machine later →
      ⟨Op.resolveContext grant.runID grant.stepID, .ok pinned⟩ ∈ later →
      matchingHashes grant pinned →
      Executes digest runner order grant start (start, later) (follow pinned)) :
    Executes digest runner order grant start (start, history)
      (runner.resolveContext grant >>= follow) := by
  simp only [Runner.resolveContext, bind_assoc]
  refine checking.check fun _ => ?_
  refine checking.ask _ rfl fun answer asked => ?_
  refine asked.accept fun pinned found => ?_
  refine asked.check fun hashes => ?_
  subst found
  exact continues pinned _ (List.subset_append_left _ _) asked (by simp) hashes

theorem verifyApprovals {pinned : PinnedContext}
    {follow : Unit → Call Result} (continues : ∀ later, history ⊆ later → Checking machine later →
      (pinned.approvalRequired = true → grant.approvalProofs ≠ []) →
      (grant.approvalProofs ≠ [] → ⟨Op.verifyApprovals grant subject, .ok ()⟩ ∈ later) →
      Executes digest runner order grant start (start, later) (follow ())) :
    Executes digest runner order grant start (start, history)
      (runner.verifyApprovals grant subject pinned >>= follow) := by
  simp only [Runner.verifyApprovals, bind_assoc]
  refine checking.check fun present => ?_
  have required : pinned.approvalRequired = true → grant.approvalProofs ≠ [] :=
    fun required missing => present ⟨required, missing⟩
  split
  · next missing =>
    exact continues history (List.Subset.refl _) checking required fun some => absurd missing some
  · simp only [bind_assoc]
    refine checking.check fun _ => ?_
    refine checking.ask _ rfl fun answer asked => ?_
    refine asked.check fun verified => ?_
    rcases answer with error | ⟨⟩
    · cases verified
    · exact continues _ (List.subset_append_left _ _) asked required fun _ => by simp

theorem evaluatePolicy {delegation : Delegation} {follow : Unit → Call Result}
    (continues : ∀ evaluation later, history ⊆ later → Checking machine later →
      grant.action.capability ∈ runner.capabilities →
      ⟨Op.evaluatePolicy (Policy.inputForGrant grant subject.issuer subject.id delegation.agentID
        delegation.id), .ok evaluation⟩ ∈ later →
      evaluation.decision = .allow →
      evaluation.inputHash = grant.policyInputHash ∧ evaluation.policyHash = grant.policyHash →
      Executes digest runner order grant start (start, later) (follow ())) :
    Executes digest runner order grant start (start, history)
      (runner.evaluatePolicy grant subject delegation >>= follow) := by
  simp only [Runner.evaluatePolicy, bind_assoc]
  refine checking.check fun capability => ?_
  refine checking.check fun _ => ?_
  refine checking.ask _ rfl fun answer asked => ?_
  refine asked.accept fun evaluation found => ?_
  refine asked.check fun allowed => ?_
  refine asked.check fun hashes => ?_
  subst found
  exact continues evaluation _ (List.subset_append_left _ _) asked capability (by simp) allowed
    hashes

theorem authorize {follow : String → Call Result}
    (continues : ∀ requestHash findings later, Checking machine later →
      grantHash digest order grant = .ok requestHash → Authorized runner grant findings later →
      Executes digest runner order grant start (start, later) (follow requestHash)) :
    Executes digest runner order grant start (start, history)
      (runner.authorize digest order grant >>= follow) := by
  simp only [Runner.authorize, bind_assoc]
  refine checking.verifyGrant fun requestHash first _ checking granted tenant group hashed => ?_
  refine checking.checkReplay hashed fun second secondSub checking => ?_
  refine checking.verifySubject fun subject third thirdSub checking connected verified user => ?_
  refine checking.verifyDelegation fun delegation fourth fourthSub checking delegated => ?_
  refine checking.resolveContext fun pinned fifth fifthSub checking context hashes => ?_
  refine checking.verifyApprovals fun sixth sixthSub checking present approvals => ?_
  refine checking.evaluatePolicy
    fun evaluation seventh seventhSub checking capability policy decision policyHashes => ?_
  have fromFifth := List.Subset.trans sixthSub seventhSub
  have fromFourth := List.Subset.trans fifthSub fromFifth
  have fromThird := List.Subset.trans fourthSub fromFourth
  have fromFirst := List.Subset.trans secondSub (List.Subset.trans thirdSub fromThird)
  exact continues requestHash ⟨subject, delegation, pinned, evaluation⟩ seventh checking hashed
    ⟨fromFirst granted, tenant, group, fromThird connected, fromThird verified, user,
      fromFourth delegated, fromFifth context, hashes, present,
      fun some => seventhSub (approvals some), capability, policy, decision, policyHashes⟩

end

end Checking

theorem not_unreserved_append (reserved : ¬Unreserved history) (event : Event requests) :
    ¬Unreserved (history ++ [event]) := by
  intro unreserved
  exact reserved fun record audit answer member =>
    unreserved record audit answer (List.mem_append_left _ member)

theorem clean_of_reserved {last : machine.traced.World} (reserved : ¬Unreserved last.2) :
    Clean start last :=
  fun unreserved => absurd unreserved reserved

/-- After a reservation was asked for, a call may reject its grant. -/
theorem reject_reserved (reserved : ¬Unreserved history) :
    Executes digest runner order grant start (world, history)
      (reject other reason error : Call Result) := by
  refine Ensures.requestTraced ⟨clean_of_reserved reserved, fun isWrite => ?_, fun _ => trivial⟩ ?_
  · cases isWrite
  · intro answer middle _
    exact Ensures.pure ⟨clean_of_reserved (not_unreserved_append reserved _),
      fun _ => recorded_of_rejected (by simp [exitOf])⟩

/-- The call holds a reservation, which it reads as `record`. -/
structure Holds (digest : Digest) (order : IterationOrder (String × String)) (grant : ActionGrant)
    (record : RunnerActionRecord) (history : History) : Prop where
  reserved : ¬Unreserved history
  known : Known history record
  status : Honestly history → record.status = some .reserved
  hash : Honestly history → grantHash digest order grant = .ok record.requestHash

namespace Holds

variable {record : RunnerActionRecord}

theorem of_created (hashed : grantHash digest order grant = .ok requestHash) {now : Time}
    {audit : AuditEvent} :
    Holds digest order grant record (history ++
      [⟨Op.reserveRunnerAction (newRecord grant requestHash now) audit, .ok (record, true)⟩]) := by
  let event : Event requests :=
    ⟨Op.reserveRunnerAction (newRecord grant requestHash now) audit, .ok (record, true)⟩
  have created : Honestly (history ++ [event]) → record = { newRecord grant requestHash now with
      status := some .reserved, stateVersion := 1 } :=
    fun honest => honest event (List.mem_append_right _ (List.mem_singleton_self _))
  refine ⟨?_, Known.last (List.mem_singleton_self _), ?_, ?_⟩
  · intro unreserved
    obtain ⟨other, eq⟩ := unreserved _ _ _ (List.mem_append_right _ (List.mem_singleton_self _))
    cases eq
  · intro honest
    rw [created honest]
  · intro honest
    rw [created honest]
    exact hashed

section

variable (holds : Holds digest order grant record history)

include holds

theorem append (event : Event requests) :
    Holds digest order grant record (history ++ [event]) where
  reserved := not_unreserved_append holds.reserved event
  known := holds.known.mono (List.subset_append_left _ _)
  status honest := holds.status honest.of_append
  hash honest := holds.hash honest.of_append

theorem ask (op : Op) (harmless : op.isWrite = false)
    (justified : Honestly history → Justified (Reserves digest order grant) history op)
    {follow : op.Res → Call Result}
    (continues : ∀ answer middle, Holds digest order grant record (history ++ [⟨op, answer⟩]) →
      Executes digest runner order grant start (middle, history ++ [⟨op, answer⟩])
        (follow answer)) :
    Executes digest runner order grant start (world, history) (Runner.ask op >>= follow) := by
  refine Ensures.requestTraced ⟨clean_of_reserved holds.reserved, ?_, justified⟩ ?_
  · intro isWrite
    rw [harmless] at isWrite
    cases isWrite
  · intro answer middle _
    exact continues answer middle (holds.append _)

theorem failReserved {cause : GoError} :
    Executes digest runner order grant start (world, history)
      (failReserved record grant reason cause) := by
  refine holds.ask .now rfl (fun _ => trivial) fun completedAt _ holds => ?_
  refine holds.ask .now rfl (fun _ => trivial) fun updatedAt _ holds => ?_
  refine holds.ask (.completeRunnerAction ..) rfl ?_ fun _ _ holds => ?_
  · intro honest
    refine ⟨record, holds.known, rfl, ?_, rfl, rfl⟩
    exact Or.inr (Or.inl ⟨holds.status honest, rfl⟩)
  · exact Ensures.pure ⟨clean_of_reserved holds.reserved,
      fun _ => recorded_of_rejected (by simp [exitOf])⟩

theorem completeReserved {outcome : AdapterResult} :
    Executes digest runner order grant start (world, history)
      (completeReserved record grant outcome) := by
  refine holds.ask .now rfl (fun _ => trivial) fun updatedAt _ holds => ?_
  refine holds.ask (.completeRunnerAction ..) rfl ?_ fun completed _ later => ?_
  · intro honest
    exact ⟨record, holds.known, rfl, Or.inl ⟨holds.status honest, rfl⟩, rfl, rfl⟩
  · rcases completed with error | ⟨⟩
    · exact reject_reserved later.reserved
    · refine Ensures.pure ⟨clean_of_reserved later.reserved, fun honest _ => ?_⟩
      exact ⟨_, Known.last (List.mem_singleton_self _), rfl, rfl, later.hash honest⟩

end

end Holds

namespace Ready

variable {findings : Findings}

section

variable (ready : Ready runner grant findings history)

include ready

theorem append {event : Event requests} (harmless : event.1.isExecute = false) :
    Ready runner grant findings (history ++ [event]) := by
  have grows : history ⊆ history ++ [event] := List.subset_append_left _ _
  obtain ⟨requestHash, now, found, member⟩ := ready.reserved
  refine ⟨ready.authorized.mono grows, ⟨requestHash, now, found, grows member⟩, ?_⟩
  intro other otherMem
  rcases List.mem_append.mp otherMem with earlier | last
  · exact ready.first other earlier
  · rw [List.mem_singleton] at last
    rw [last]
    exact harmless

theorem mediated (pinned : ∀ request credential, op = .executeAdapter request credential →
      request.target = grant.target ∧ request.action = grant.action) :
    Mediated runner grant history op := by
  refine ⟨findings, ready, ?_⟩
  intro request credential eq
  obtain ⟨target, action⟩ := pinned request credential eq
  obtain ⟨-, -, -, -, -, pinnedTarget, pinnedAction⟩ := ready.authorized.hashes
  exact ⟨target.trans pinnedTarget, action.trans pinnedAction⟩

theorem write {record : RunnerActionRecord}
    (holds : Holds digest order grant record history) {dispatchedAt : Time} :
    Executes digest runner order grant start (world, history)
      (runner.write record grant dispatchedAt) := by
  unfold Runner.write
  split
  · next adapter _ _ =>
    refine Ensures.requestTraced
      ⟨clean_of_reserved holds.reserved, fun _ => ready.mediated ?_, fun _ => trivial⟩ ?_
    · intro request credential eq
      cases eq
    · intro acquired middle _
      have acquiredReady : Ready runner grant findings
          (history ++ [⟨Op.acquireCredential (credentialRequest adapter grant), acquired⟩]) :=
        ready.append rfl
      have holding := holds.append
        ⟨Op.acquireCredential (credentialRequest adapter grant), acquired⟩
      rcases acquired with error | credential
      · exact holding.failReserved
      · refine Ensures.requestTraced ⟨clean_of_reserved holding.reserved,
          fun _ => acquiredReady.mediated ?_, fun _ => trivial⟩ ?_
        · intro request other eq
          cases eq
          exact ⟨rfl, rfl⟩
        · intro outcome _ _
          rcases outcome with error | outcome
          · exact (holding.append _).failReserved
          · exact (holding.append _).completeReserved
  · exact holds.failReserved

end

end Ready

theorem dispatch_executes (checking : Checking machine history) {findings : Findings}
    (authorized : Authorized runner grant findings history)
    (hashed : grantHash digest order grant = .ok requestHash) :
    Executes digest runner order grant start (start, history)
      (runner.dispatch grant requestHash) := by
  refine checking.ask .now rfl fun now checking => ?_
  refine Ensures.requestTraced ⟨checking.clean, fun isWrite => (by cases isWrite),
    fun _ => ⟨requestHash, now, hashed, rfl⟩⟩ ?_
  intro answer middle answered
  rcases answer with error | ⟨found, _ | _⟩
  · refine reject_reserved fun unreserved => ?_
    obtain ⟨found, impossible⟩ := unreserved _ _ _
      (List.mem_append_right _ (List.mem_singleton_self _))
    cases impossible
  · rw [checking.quiet.refused answered]
    refine Ensures.pure ⟨fun _ => ⟨rfl, ?_⟩, fun _ =>
      recorded_replayResult hashed (Known.last (List.mem_singleton_self _))⟩
    intro event member
    rcases List.mem_append.mp member with earlier | last
    · exact Op.isWrite_of_isCheck (checking.checks event earlier)
    · rw [List.mem_singleton] at last
      subst last
      rfl
  · have grows : history ⊆ history ++ [⟨Op.now, now⟩] ++ [⟨Op.reserveRunnerAction
        (newRecord grant requestHash now) (reserveAudit grant requestHash now),
          .ok (found, true)⟩] := by
      rw [List.append_assoc]
      exact List.subset_append_left _ _
    have ready : Ready runner grant findings _ :=
      ⟨authorized.mono grows, ⟨requestHash, now, found, by simp⟩, ?_⟩
    · exact ready.write (Holds.of_created hashed)
    · intro event member
      rcases List.mem_append.mp member with earlier | last
      · exact Op.isExecute_of_isWrite (Op.isWrite_of_isCheck (checking.checks event earlier))
      · rw [List.mem_singleton] at last
        subst last
        rfl

theorem execute_ensures (quiet : Quiet machine) (start : machine.World) :
    Ensures machine.traced (SafeRequest digest runner order grant start)
      (Leaves digest order grant start) (start, []) (runner.execute digest order grant) := by
  have nothing : Checking machine [] := ⟨quiet, by simp⟩
  refine Ensures.bind (Ensures.mono (fun _ _ safe => safe) ?_ (nothing.authorize
    fun requestHash findings later checking hashed authorized =>
      dispatch_executes checking authorized hashed))
  intro outcome last leaves
  cases outcome with
  | ok result | error exit => exact Ensures.pure leaves

end Execute

end Themisy.Runner
