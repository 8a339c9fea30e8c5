import Themisy.Interaction.Play
import Themisy.Interaction.Reservation
import Themisy.Runner.Journal
import Themisy.Runner.Reconciliation

/-!
# Runners write at most once

Any number of calls of `Execute` and `Reconcile` share one journal. Their steps
interleave arbitrarily, every call may crash between two steps, and every
operation may fail.

The journal keeps two indexes, by nonce and by idempotency key. For each of them
the calls follow a reservation discipline: `Execute` calls the adapter once, and
only after a reservation of its own, and `Reconcile` never calls it to write.
-/

namespace Themisy.Runner

open Domain Protocol Store Interaction

/-- A call of a runner. -/
inductive Invocation where
  | execute (runner : Runner) (order : IterationOrder (String × String)) (grant : ActionGrant)
  | reconcile (runner : Runner) (reconciler : Option Adapter) (limit : ℤ)

def Invocation.program (digest : Digest) :
    Invocation → Prog requests (Exit ⊕ Option GoError)
  | execute runner order grant => do return .inl (← runner.execute digest order grant)
  | reconcile runner reconciler limit => do return .inr (← runner.reconcile reconciler limit)

/-- The indexes of the journal. -/
inductive Index where
  | nonce
  | idempotency

/-- Tenant, runner group, and nonce or idempotency key. -/
abbrev Key := String × String × String

variable {record : RunnerActionRecord} {invocation : Invocation} {op : Op}

namespace Index

def ofGrant (grant : ActionGrant) : Index → Key
  | nonce => (grant.tenantID, grant.runnerGroup, grant.nonce)
  | idempotency => (grant.tenantID, grant.runnerGroup, grant.idempotencyKey)

def ofRecord (record : RunnerActionRecord) : Index → Key
  | nonce => (record.tenantID, record.runnerGroup, record.nonce)
  | idempotency => (record.tenantID, record.runnerGroup, record.idempotencyKey)

def Taken (memory : Memory) (key : Key) : Index → Prop
  | nonce => (memory.runnerActions.get? (runnerNonceKey key.1 key.2.1 key.2.2)).isSome
  | idempotency => (memory.runnerByKey.get? (runnerIdempotencyKey key.1 key.2.1 key.2.2)).isSome

variable (index : Index)

/-- The key which an answered request has newly reserved. -/
def reserved : Event requests → Option Key
  | ⟨.reserveRunnerAction record _, .ok (_, true)⟩ => some (index.ofRecord record)
  | _ => none

/-- The key for which a call asks the adapter to write. -/
def written : Invocation → Op → Option Key
  | .execute _ _ grant, .executeAdapter _ _ => some (index.ofGrant grant)
  | _, _ => none

variable {index} {memory next : Memory} {key : Key}

theorem taken_insertAction (taken : index.Taken memory key) :
    index.Taken (memory.insertAction record) key := by
  cases index
  all_goals
    simp only [Taken, Memory.insertAction, GoMap.get?_set] at taken ⊢
    split
    · rfl
    · exact taken

theorem taken_replaceAction (taken : index.Taken memory key) :
    index.Taken (memory.replaceAction record) key := by
  cases index with
  | nonce =>
    simp only [Taken, Memory.replaceAction, GoMap.get?_set] at taken ⊢
    split
    · rfl
    · exact taken
  | idempotency => exact taken

theorem taken_appendAudit {audit : AuditEvent} :
    index.Taken (memory.appendAudit audit) key ↔ index.Taken memory key := by
  cases index <;> rfl

variable {answer : op.Res}

theorem taken_of_effect (taken : index.Taken memory key)
    (effect : JournalEffect memory op answer next) : index.Taken next key := by
  rcases journalEffect_cases effect with rfl | ⟨record, audit, found, -, eq⟩ |
    ⟨record, expected, audit, -, eq⟩
  · exact taken
  · rcases Memory.reserveRunnerAction_cases eq with ⟨impossible, -⟩ | ⟨-, -, -, -, rfl⟩
    · cases impossible
    · exact taken_appendAudit.mpr (taken_insertAction taken)
  · rw [Memory.eq_of_completeRunnerAction eq]
    exact taken_appendAudit.mpr (taken_replaceAction taken)

theorem eq_of_reserved {event : Event requests} (reserves : index.reserved event = some key) :
    ∃ record audit found, event = ⟨.reserveRunnerAction record audit, .ok (found, true)⟩ ∧
      key = index.ofRecord record := by
  unfold reserved at reserves
  split at reserves
  · next record audit found =>
    cases reserves
    exact ⟨record, audit, found, rfl, rfl⟩
  · cases reserves

theorem eq_of_written (writes : index.written invocation op = some key) :
    ∃ runner order grant request credential, invocation = .execute runner order grant ∧
      op = .executeAdapter request credential ∧ key = index.ofGrant grant := by
  unfold written at writes
  split at writes
  · next runner order grant request credential =>
    cases writes
    exact ⟨runner, order, grant, request, credential, rfl, rfl, rfl⟩
  · cases writes

theorem written_eq_none (harmless : op.isExecute = false) : index.written invocation op = none := by
  cases writes : index.written invocation op with
  | none => rfl
  | some key =>
    obtain ⟨-, -, -, request, credential, -, rfl, -⟩ := eq_of_written writes
    cases harmless

theorem fresh_of_effect (effect : JournalEffect memory op answer next)
    (reserves : index.reserved ⟨op, answer⟩ = some key) :
    ¬index.Taken memory key ∧ index.Taken next key := by
  obtain ⟨record, audit, found, eq, rfl⟩ := eq_of_reserved reserves
  cases eq
  have performed := reserve_of_created effect
  rcases Memory.reserveRunnerAction_cases performed with ⟨impossible, -⟩ |
    ⟨-, unused, free, rfl, rfl⟩
  · cases impossible
  · rw [taken_appendAudit]
    cases index with
    | nonce => simp [Taken, ofRecord, unused, Memory.insertAction]
    | idempotency => simp [Taken, ofRecord, free, Memory.insertAction]

end Index

namespace Invocation

/-- What a call may ask for, after what it has been answered. -/
def Safe (digest : Digest) (history : History) : Invocation → Op → Prop
  | execute runner order grant, op =>
    (op.isWrite = true → Mediated runner grant history op) ∧
      (Honestly history → Justified (Reserves digest order grant) history op)
  | reconcile _ _ _, op => Resolves history op

def Returns (digest : Digest) (history : History) : Invocation → Exit ⊕ Option GoError → Prop
  | execute _ order grant, .inl exit =>
    Honestly history → Recorded digest order grant history exit.1
  | _, _ => True

variable {digest : Digest} {invocation : Invocation} {events : History}
  {rest : Prog requests (Exit ⊕ Option GoError)} {legal : (op : Op) → op.Res → Prop}

/-- What holds of a run of a call, whatever its environment answers. -/
theorem of_run (run : Runs (Machine.free (S := requests) legal) () (invocation.program digest)
    events () rest) :
    (∀ value, rest = .pure value → invocation.Returns digest events value) ∧
      ∀ op next, rest.head = .request op next → invocation.Safe digest events op := by
  have ensured : Ensures (Machine.free (S := requests) legal).traced
      (fun world op => invocation.Safe digest world.2 op)
      (fun value world => invocation.Returns digest world.2 value) ((), [])
      (invocation.program digest) := by
    cases invocation with
    | execute runner order grant =>
      have quiet : Quiet (Machine.free (S := requests) legal) := ⟨fun _ _ => rfl, fun _ => rfl⟩
      exact Ensures.bind (Ensures.mono (fun _ _ safe => ⟨safe.mediated, safe.justified⟩)
        (fun _ _ leaves => Ensures.pure leaves.recorded) (execute_ensures quiet ()))
    | reconcile runner reconciler limit =>
      exact Ensures.bind (reconcile_resolves.mono (fun _ _ resolves => resolves)
        fun _ _ _ => Ensures.pure trivial)
  exact ensured.of_traced run

end Invocation

theorem Op.isWrite_of_isExecute (isExecute : op.isExecute = true) : op.isWrite = true := by
  cases op <;> first | rfl | cases isExecute

variable {digest : Digest}

/-- A call which asks the adapter to write is an `Execute` which is ready. -/
theorem mediated_of_execute {events : History}
    {rest : Prog requests (Exit ⊕ Option GoError)}
    (run : Runs Pool.anything () (invocation.program digest) events () rest)
    {next : op.Res → Prog requests (Exit ⊕ Option GoError)}
    (requested : rest.head = .request op next) (isExecute : op.isExecute = true) :
    ∃ runner order grant, invocation = .execute runner order grant ∧
      Mediated runner grant events op := by
  have safe := (Invocation.of_run run).2 op next requested
  cases invocation with
  | execute runner order grant =>
    exact ⟨runner, order, grant, rfl, safe.1 (Op.isWrite_of_isExecute isExecute)⟩
  | reconcile runner reconciler limit =>
    rw [Resolves.isExecute safe] at isExecute
    cases isExecute

section Discipline

variable {ι : Type} [DecidableEq ι] (digest : Digest) (legal : (op : Op) → op.Res → Prop)
  (invocations : ι → Invocation)

def code (process : ι) : Prog requests (Exit ⊕ Option GoError) :=
  (invocations process).program digest

def discipline (index : Index) :
    Discipline (sharedJournal legal) (code digest invocations) Key where
  present memory key := index.Taken memory key
  reserves := index.reserved
  acts process op := index.written (invocations process) op
  kept answered taken := index.taken_of_effect taken answered.2
  fresh answered reserves := index.fresh_of_effect answered.2 reserves
  guarded := by
    intro process events rest op next key run requested writes
    obtain ⟨runner, order, grant, request, credential, invocation, rfl, rfl⟩ :=
      index.eq_of_written writes
    obtain ⟨runner', order', grant', invocation', findings, ready, -⟩ :=
      mediated_of_execute run requested rfl
    rw [invocation] at invocation'
    cases invocation'
    obtain ⟨requestHash, now, found, reserved⟩ := ready.reserved
    refine ⟨⟨_, reserved, ?_⟩, ?_⟩
    · cases index <;> rfl
    · exact fun event member => index.written_eq_none (ready.first event member)

end Discipline

/-- The audit event of every created reservation is in the journal. -/
theorem audited_of_reachable {ι : Type} [DecidableEq ι] {legal : (op : Op) → op.Res → Prop}
    {invocations : ι → Invocation} {start : Memory}
    {pool : Pool (sharedJournal legal) ι (Exit ⊕ Option GoError)}
    (reachable : Pool.Reachable (code digest invocations) start pool) {process : ι}
    {found : RunnerActionRecord} {audit : AuditEvent}
    (created : (process, ⟨Op.reserveRunnerAction record audit, .ok (found, true)⟩) ∈ pool.trace) :
    audit ∈ Memory.auditEvents pool.world audit.correlationID := by
  have allowed : ∀ memory op answer next, (sharedJournal legal).answers memory op answer next →
      legal op answer := fun _ _ _ _ answered => answered.1
  refine reachable.invariant allowed (fun (memory : Memory) trace => ∀ process record audit found,
    (process, ⟨Op.reserveRunnerAction record audit, .ok (found, true)⟩) ∈ trace →
      audit ∈ memory.auditEvents audit.correlationID) (by simp) ?_
    process record audit found created
  rintro memory trace acting program op next answer after held - - ⟨-, effect⟩
  intro process record audit found member
  rcases List.mem_append.mp member with earlier | last
  · exact auditEvents_of_effect effect (held process record audit found earlier)
  · cases List.mem_singleton.mp last
    rcases Memory.reserveRunnerAction_cases (reserve_of_created effect) with ⟨impossible, -⟩ |
      ⟨-, -, -, -, rfl⟩
    · cases impossible
    · simp [Memory.auditEvents_appendAudit]

section Writes

variable {ι : Type}

def writes (invocations : ι → Invocation) (index : Index) (key : Key)
    (trace : List (ι × Event requests)) : List (ι × Event requests) :=
  trace.filter fun entry => index.written (invocations entry.1) entry.2.1 = some key

/-- What holds of the writes in a pool of calls over one journal. -/
structure WritesOnce [DecidableEq ι] {legal : (op : Op) → op.Res → Prop}
    (invocations : ι → Invocation)
    (pool : Pool (sharedJournal legal) ι (Exit ⊕ Option GoError)) : Prop where
  /-- At most one write for each nonce and for each idempotency key. -/
  once : ∀ index key, (writes invocations index key pool.trace).length ≤ 1
  /-- Every write follows a reservation of the same call, with its audit event. -/
  reserved : ∀ before process request credential answer after,
    pool.trace = before ++ (process, ⟨Op.executeAdapter request credential, answer⟩) :: after →
    ∃ runner order grant, invocations process = .execute runner order grant ∧
      ∃ requestHash now found, (process, ⟨Op.reserveRunnerAction (newRecord grant requestHash now)
        (reserveAudit grant requestHash now), .ok (found, true)⟩) ∈ before ∧
        reserveAudit grant requestHash now ∈ Memory.auditEvents pool.world grant.grantID
  /-- A recorded key whose reserving call has ended is not written for any more. -/
  abandoned : ∀ index key later, Index.Taken pool.world key index →
    (∀ entry ∈ pool.trace, index.reserved entry.2 = some key → Discipline.Stopped pool entry.1) →
    Relation.ReflTransGen Pool.Step pool later →
    writes invocations index key later.trace = writes invocations index key pool.trace

end Writes

/--
Any number of calls of `Execute` and `Reconcile` over one journal, interleaved
and crashing arbitrarily, with failing operations and arbitrary answers of their
other components, write at most once for each nonce and each idempotency key,
always after their own reservation; an abandoned record is never written for.
-/
theorem executeAdapter_at_most_once {ι : Type} [DecidableEq ι] (digest : Digest)
    (legal : (op : Op) → op.Res → Prop) (invocations : ι → Invocation) (start : Memory)
    (pool : Pool (sharedJournal legal) ι (Exit ⊕ Option GoError))
    (reachable : Pool.Reachable (code digest invocations) start pool) :
    WritesOnce invocations pool := by
  constructor
  case once =>
    intro index key
    exact (discipline digest legal invocations index).actions_le_one reachable key
  case reserved =>
    intro before process request credential answer after split
    obtain ⟨rest, next, run, requested⟩ := reachable.requested (fun _ _ _ _ _ => trivial) split
    obtain ⟨runner, order, grant, invocation, findings, ready, -⟩ :=
      mediated_of_execute run requested rfl
    obtain ⟨requestHash, now, found, member⟩ := ready.reserved
    have reservation := Discipline.mem_localTrace.mp member
    have recorded := List.mem_append_left
      ((process, ⟨Op.executeAdapter request credential, answer⟩) :: after) reservation
    rw [← split] at recorded
    exact ⟨runner, order, grant, invocation, requestHash, now, found, reservation,
      audited_of_reachable reachable recorded⟩
  case abandoned =>
    intro index key later taken stopped steps
    let rule := discipline digest legal invocations index
    refine rule.actions_eq_of_stopped reachable steps taken ?_
    intro entry member
    obtain ⟨entryMem, reserved⟩ := Discipline.mem_reservations.mp member
    exact stopped entry entryMem reserved

/-- The environment in which every check passes with the given findings. -/
def cooperate (findings : Findings) : Strategy requests Memory
  | memory, .verifyGrant _ => (.ok (), memory)
  | memory, .connected => (true, memory)
  | memory, .verifySubject _ => (.ok findings.subject, memory)
  | memory, .verifyDelegation _ => (.ok findings.delegation, memory)
  | memory, .resolveContext _ _ => (.ok findings.pinned, memory)
  | memory, .verifyApprovals _ _ => (.ok (), memory)
  | memory, .evaluatePolicy _ => (.ok findings.evaluation, memory)
  | memory, .now => (1, memory)
  | memory, .getRunnerAction tenantID runnerGroup nonce =>
    answerOf memory ((memory.getRunnerAction tenantID runnerGroup nonce).map (·, memory))
  | memory, .reserveRunnerAction record audit =>
    answerOf memory (memory.reserveRunnerAction record audit)
  | memory, .completeRunnerAction record expected audit =>
    answerOf memory ((memory.completeRunnerAction record expected audit).map ((), ·))
  | memory, .pendingRunnerActions tenantID runnerGroup limit =>
    answerOf memory
      ((memory.pendingRunnerActions .stored tenantID runnerGroup limit).map (·, memory))
  | memory, .acquireCredential _ => (.ok ⟨∅, 0⟩, memory)
  | memory, .executeAdapter _ _ => (.ok ⟨"execution-1", 1⟩, memory)
  | memory, .reconcileAdapter _ _ => (.ok (⟨"execution-1", 1⟩, true), memory)

theorem journalEffect_cooperate (findings : Findings) (memory : Memory) (op : Op) :
    JournalEffect memory op (cooperate findings memory op).1 (cooperate findings memory op).2 := by
  cases op with
  | getRunnerAction | reserveRunnerAction | completeRunnerAction => exact performs_answerOf memory _
  | pendingRunnerActions => exact ⟨.stored, performs_answerOf memory _⟩
  | _ => rfl

def findingsFor (grant : ActionGrant) : Findings where
  subject := { issuer := "https://idp.example", id := grant.userSubject }
  delegation := ⟨grant.delegationRef, "https://idp.example", grant.userSubject, grant.agentID,
    [grant.action.capability], [grant.target.service], [grant.target.environment], grant.risk,
    grant.expiresAt.instant⟩
  pinned := ⟨grant.planHash, grant.contractHash, grant.profileHash, grant.policyHash,
    grant.evidenceHash, true, grant.target, grant.action⟩
  evaluation := {
    decision := .allow
    reasons := ["POLICY_ALLOW"]
    inputHash := grant.policyInputHash
    policyVersion := "v1"
    policyHash := grant.policyHash }

def runnerFor (grant : ActionGrant) : Runner where
  tenantID := grant.tenantID
  runnerGroup := grant.runnerGroup
  capabilities := [grant.action.capability]

/-- Two calls, one after the other. -/
def playTwice (invocations : Bool → Invocation) :
    Pool (sharedJournal fun _ _ => True) Bool (Exit ⊕ Option GoError) :=
  ((Pool.initial (code default invocations) newMemory).play
    (cooperate (findingsFor protocolFixture)) 20 true).play
      (cooperate (findingsFor protocolFixture)) 20 false

theorem reachable_playTwice (invocations : Bool → Invocation) :
    Pool.Reachable (code default invocations) newMemory (playTwice invocations) := by
  have allowed : ∀ memory op, (sharedJournal fun _ _ => True).answers memory op
      (cooperate (findingsFor protocolFixture) memory op).1
      (cooperate (findingsFor protocolFixture) memory op).2 :=
    fun memory op => ⟨trivial, journalEffect_cooperate _ memory op⟩
  exact ((Pool.reachable_initial _ _).play allowed 20 true).play allowed 20 false

/-- Two calls with one grant, one after the other: the second one only looks the nonce up. -/
theorem executeAdapter_at_most_once_repeated :
    let invocations : Bool → Invocation :=
      fun _ => .execute (runnerFor protocolFixture) .stored protocolFixture
    ∃ pool : Pool (sharedJournal fun _ _ => True) Bool (Exit ⊕ Option GoError),
      Pool.Reachable (code default invocations) newMemory pool ∧ WritesOnce invocations pool ∧
      (pool.trace.map Prod.fst).count false = 2 ∧
      (writes invocations .nonce ("tenant-1", "prod-jp", "nonce-1") pool.trace).length = 1 := by
  intro invocations
  have reachable := reachable_playTwice invocations
  exact ⟨_, reachable, executeAdapter_at_most_once _ _ _ _ _ reachable, by decide +kernel⟩

end Themisy.Runner
