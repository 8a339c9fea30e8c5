import Themisy.Interaction.History
import Themisy.Interaction.Play
import Themisy.Interaction.Reservation
import Themisy.Workflow.Activities

/-!
# Activities write at most once

Any number of calls of `Deploy` and `Rollback` share one store, interleave and crash,
and operations may fail before or after their effect.

The calls follow a reservation discipline whose keys are the adapter and the
idempotency key of an execution. An execution which is recorded as succeeded carries
the identifier which a successful call for its key has returned.
-/

namespace Themisy

namespace Store.Memory

open Domain

variable {memory next : Memory} {record found : ExecutionRecord} {audit : AuditEvent}
  {outbox : OutboxEvent}

theorem reserveExecution_cases {created : Bool}
    (reserved : memory.reserveExecution record audit outbox = ((found, created), next)) :
    created = false ∧ next = memory ∧ memory.executions.get? record.mapKey = some found ∨
      created = true ∧ memory.executions.get? record.mapKey = none ∧ found = record.reserved ∧
        next = (memory.setExecution record.reserved).appendAtomic [audit] [outbox] := by
  unfold reserveExecution at reserved
  split at reserved
  · next existing present =>
    cases reserved
    exact Or.inl ⟨rfl, rfl, present⟩
  · next absent =>
    cases reserved
    exact Or.inr ⟨rfl, absent, rfl, rfl⟩

theorem eq_of_completeExecution {expectedVersion : ℤ}
    (completed : memory.completeExecution record expectedVersion audit outbox = .ok next) :
    next = (memory.setExecution (record.advanced expectedVersion)).appendAtomic [audit]
      [outbox] := by
  unfold completeExecution at completed
  split at completed
  · cases completed
  · simp only [bind_eq_ok, require_eq_ok, exists_const] at completed
    obtain ⟨-, returned⟩ := completed
    cases returned
    rfl

end Store.Memory

namespace Workflow.Activities

open Domain Store Interaction

/-- How the store changes when a request is answered. -/
def StoreEffect (memory : Memory) : (op : Op) → op.Res → Memory → Prop
  | .updateRunAtomic run expectedVersion audits outbox, answer, next =>
    Performs memory (memory.updateRunAtomic run expectedVersion audits outbox) answer next
  | .getRun id, answer, next =>
    Performs memory ((memory.getRun id).map (·, memory)) answer next
  | .reserveExecution record audit outbox, answer, next =>
    Performs memory
      (.ok (memory.reserveExecution record audit outbox) : Except StoreError _) answer next
  | .completeExecution record expectedVersion audit outbox, answer, next =>
    Performs memory ((memory.completeExecution record expectedVersion audit outbox).map ((), ·))
      answer next
  | _, _, next => next = memory

/-- Activities over one store; the clock, the identifiers and the executor are arbitrary. -/
def sharedStore : Machine requests where
  World := Memory
  answers := StoreEffect

variable {record found : ExecutionRecord} {audit : AuditEvent} {outbox : OutboxEvent} {op : Op}
  {answer : op.Res} {memory next : Memory}

/-- The only operations which change the store. -/
theorem storeEffect_cases (effect : StoreEffect memory op answer next) :
    next = memory ∨
      (∃ run version audits outbox, op = .updateRunAtomic run version audits outbox ∧
        next = (memory.replaceRun (run.advanced version)).appendAtomic audits
          (Memory.appendProjection outbox (run.advanced version))) ∨
      (∃ record audit outbox, op = .reserveExecution record audit outbox ∧
        next = (memory.setExecution record.reserved).appendAtomic [audit] [outbox]) ∨
      ∃ record version audit outbox, op = .completeExecution record version audit outbox ∧
        next = (memory.setExecution (record.advanced version)).appendAtomic [audit] [outbox] := by
  cases op with
  | updateRunAtomic run expectedVersion audits outbox =>
    rcases effect.eq_or with same | ⟨updated, eq⟩
    · exact Or.inl same
    · obtain ⟨rfl, rfl⟩ := Memory.eq_of_updateRunAtomic eq
      exact Or.inr (Or.inl ⟨_, _, _, _, rfl, rfl⟩)
  | getRun id => exact Or.inl effect.eq_of_read
  | reserveExecution record audit outbox =>
    rcases effect.eq_or with same | ⟨⟨found, created⟩, eq⟩
    · exact Or.inl same
    · rcases Memory.reserveExecution_cases (Except.ok.inj eq) with ⟨-, same, -⟩ | ⟨-, -, -, same⟩
      · exact Or.inl same
      · exact Or.inr (Or.inr (Or.inl ⟨record, audit, outbox, rfl, same⟩))
  | completeExecution record expectedVersion audit outbox =>
    rcases effect.eq_or_of_write with same | eq
    · exact Or.inl same
    · exact Or.inr (Or.inr (Or.inr ⟨_, _, _, _, rfl, Memory.eq_of_completeExecution eq⟩))
  | _ => exact Or.inl effect

theorem auditEvents_of_effect (effect : StoreEffect memory op answer next) {event : AuditEvent}
    {correlationID : String} (member : event ∈ memory.auditEvents correlationID) :
    event ∈ next.auditEvents correlationID := by
  have appended : ∀ {changed : Memory} {audits outbox}, changed.audit = memory.audit →
      event ∈ (changed.appendAtomic audits outbox).auditEvents correlationID := by
    intro changed audits outbox same
    have kept : event ∈ changed.auditEvents correlationID := by
      rw [Memory.auditEvents, same]
      exact member
    rw [Memory.auditEvents_appendAtomic]
    exact List.mem_append_left _ kept
  rcases storeEffect_cases effect with rfl | ⟨_, _, _, _, -, rfl⟩ | ⟨_, _, _, -, rfl⟩ |
    ⟨_, _, _, _, -, rfl⟩
  · exact member
  all_goals exact appended rfl

theorem reserve_of_answer {created : Bool}
    (effect : StoreEffect memory (.reserveExecution record audit outbox) (.ok (found, created))
      next) : memory.reserveExecution record audit outbox = ((found, created), next) := by
  cases effect with
  | returned eq => exact Except.ok.inj eq

section Local

variable (write : Write)

/-- The adapter and the idempotency key under which the execution is recorded. -/
def Write.key : String × String :=
  (write.adapter, write.idempotencyKey)

/-- Where the execution is recorded in the store. -/
def Write.place : String :=
  executionKey write.adapter write.idempotencyKey

def Write.Reserved (history : History) (audit : AuditEvent)
    (found : ExecutionRecord) (created : Bool) : Prop :=
  ∃ id now outbox,
    ⟨.reserveExecution (write.record id now) audit outbox, .ok (found, created)⟩ ∈ history

/-- The call of the executor has succeeded with the given identifier. -/
def Write.Called (history : History) (externalID : String) : Prop :=
  ∃ deployment, ⟨.execute write.call, .ok deployment⟩ ∈ history ∧
    deployment.externalID = externalID

def Write.ReserveAudit (audit : AuditEvent) : Prop :=
  audit.correlationID = write.runID ∧ audit.action = write.reserveIntent.action ∧
    audit.actorID = write.reserveIntent.actorID ∧ audit.resourceID = write.reserveIntent.resourceID

/-- The condition under which the activity makes a request. -/
def Write.Guarded (history : History) : Op → Prop
  | .execute call => call = write.call ∧
      (∃ audit found, write.ReserveAudit audit ∧ write.Reserved history audit found true) ∧
      ∀ event ∈ history, event.1.isExecute = false
  | .completeExecution record _ _ _ => record.status = some .succeeded →
      write.Called history record.externalExecutionID ∧
      ∃ audit found, write.Reserved history audit found true ∧
        record.adapter = found.adapter ∧ record.idempotencyKey = found.idempotencyKey
  | _ => True

/-- A successful result is that of the own call or of the record which was found. -/
def Write.Explained (history : History) : Except ActivityError DeployResult → Prop
  | .error _ => True
  | .ok result => result.execution.externalExecutionID = result.deployment.externalID ∧
      (write.Called history result.deployment.externalID ∨
        ∃ audit found, write.Reserved history audit found false ∧
          found.status = some .succeeded ∧
          found.externalExecutionID = result.deployment.externalID)

/-- Whatever is answered, the activity is guarded and its result is explained. -/
abbrev Write.Ensured (legal : (op : Op) → op.Res → Prop) (history : History)
    (program : Call DeployResult) : Prop :=
  Always (S := requests) legal write.Guarded (fun result history => write.Explained history result)
    history program

variable {write} {legal : (op : Op) → op.Res → Prop} {history : History}

theorem Write.Ensured.ask {op : Op} {follow : op.Res → Call DeployResult}
    (guarded : write.Guarded history op)
    (continues : ∀ answer, write.Ensured legal (history ++ [⟨op, answer⟩]) (follow answer)) :
    write.Ensured legal history (ask op >>= follow) :=
  Always.request guarded fun answer _ => continues answer

theorem Write.Ensured.runReserved (reserved : write.Reserved history audit found true)
    (audited : write.ReserveAudit audit) (quiet : ∀ event ∈ history, event.1.isExecute = false) :
    write.Ensured legal history (write.runReserved found) := by
  simp only [Write.runReserved, Write.complete, auditFor, outbox, bind_assoc, pure_bind]
  refine .ask ⟨rfl, ⟨audit, found, audited, reserved⟩, quiet⟩ fun called => ?_
  rcases called with error | deployment
  · refine .ask trivial fun updatedAt => .ask trivial fun auditID => .ask trivial fun now =>
      .ask trivial fun eventID => .ask ?_ fun completed => ?_
    · intro impossible
      cases impossible
    · exact Always.pure trivial
  · refine .ask trivial fun updatedAt => .ask trivial fun auditID => .ask trivial fun now =>
      .ask trivial fun eventID => .ask ?_ fun completed => ?_
    · obtain ⟨id, reservedAt, event, member⟩ := reserved
      exact fun _ => ⟨⟨deployment, by simp, rfl⟩,
        audit, found, ⟨id, reservedAt, event, by simp [member]⟩, rfl, rfl⟩
    · rcases completed with error | ⟨⟩
      · exact Always.pure trivial
      · exact Always.pure ⟨rfl, Or.inl ⟨deployment, by simp, rfl⟩⟩

theorem Write.Ensured.perform (write : Write) (legal : (op : Op) → op.Res → Prop) :
    write.Ensured legal [] write.perform := by
  simp only [Write.perform, auditFor, outbox, bind_assoc, pure_bind]
  refine .ask trivial fun reservedAt => .ask trivial fun id => .ask trivial fun auditID =>
    .ask trivial fun now => .ask trivial fun eventID => .ask trivial fun answer => ?_
  rcases answer with error | ⟨found, _ | _⟩
  · exact Always.pure trivial
  · dsimp only
    split
    · next succeeded =>
      exact Always.pure ⟨rfl, Or.inr ⟨_, found, ⟨id, reservedAt, _,
        List.mem_append_right _ (List.mem_singleton_self _)⟩, succeeded, rfl⟩⟩
    · exact Always.pure trivial
  · refine .runReserved
      ⟨id, reservedAt, _, List.mem_append_right _ (List.mem_singleton_self _)⟩
      ⟨rfl, rfl, rfl, rfl⟩ ?_
    simp [Op.isExecute]

end Local

section Persist

/-- A run which was updated is stored with the next version. -/
def Updates : (op : Op) → op.Res → Prop
  | .updateRunAtomic run expectedVersion _ _, .ok updated =>
    updated = run.advanced expectedVersion
  | _, _ => True

theorem updates_of_effect (effect : StoreEffect memory op answer next) : Updates op answer := by
  unfold Updates
  split
  · cases effect with
    | returned eq => exact (Memory.eq_of_updateRunAtomic eq).1
  · trivial

/-- Values satisfy the postcondition, as long as updates store the next version. -/
abbrev Persists {α : Type} (post : α → Prop) (history : History) (program : Call α) :
    Prop :=
  Settles (S := requests) Updates (fun _ _ => True) (fun _ _ => True) (fun value _ => post value)
    history program

variable {history : History}

theorem runAudits_persists (run : ReleaseRun) (intents : List AuditIntent) :
    Persists (fun _ => True) history (runAudits run intents) := by
  induction intents generalizing history with
  | nil => exact .pure trivial
  | cons intent rest ih =>
    simp only [runAudits, auditFor, bind_assoc, pure_bind]
    exact .ask trivial fun id _ => .bind ih fun later _ _ => .pure trivial

theorem runOutbox_persists (input : PersistInput) :
    Persists (fun _ => True) history (runOutbox input) := by
  unfold runOutbox
  split
  · exact .pure trivial
  · simp only [outbox, bind_assoc, pure_bind]
    exact .ask trivial fun now _ => .ask trivial fun id _ => .pure trivial

/-- The store has confirmed that it has the run: it was updated with it, or it has returned it. -/
def Confirms (stored : ReleaseRun) (run : ReleaseRun) (history : History) : Prop :=
  ∃ before, (∃ version audits outbox,
      history = before ++ [⟨.updateRunAtomic stored version audits outbox, .ok run⟩]) ∨
    history = before ++ [⟨.getRun stored.id, .ok run⟩]

theorem persistRun_settles (history : History) (input : PersistInput) :
    Settles (S := requests) Updates (fun _ _ => True) (fun _ _ => True)
      (fun run later => run = persisted input.run ∧ Confirms input.run run later) history
      (persistRun input) := by
  refine .bind (runAudits_persists _ _) fun audits _ _ => ?_
  refine .bind (runOutbox_persists input) fun events _ _ => ?_
  unfold storeRun
  refine .ask trivial fun answer legal => ?_
  rcases answer with (_ | _ | _) | updated
  all_goals dsimp only
  · exact .throw trivial
  · refine .ask trivial fun current _ => ?_
    rcases current with error | current
    · exact .throw trivial
    · dsimp only
      split
      · next same => exact .pure ⟨same, _, Or.inr rfl⟩
      · exact .throw trivial
  · exact .throw trivial
  · exact .pure ⟨legal, _, Or.inl ⟨_, _, _, rfl⟩⟩

section Returned

variable {input : PersistInput} {run : ReleaseRun} {memory last : Memory}
  {events : History}

section

variable (ran : Runs sharedStore memory (persistRun input) events last (.pure (.ok run)))

include ran

theorem confirmed_of_runs :
    run = persisted input.run ∧ Confirms input.run run events := by
  have settles := persistRun_settles [] input
  exact (settles.of_runs (fun _ _ _ _ effect => updates_of_effect effect) ran).1 _ rfl

theorem persisted_of_runs :
    run = persisted input.run :=
  (confirmed_of_runs ran).1

theorem stored_of_runs :
    last.runs.get? run.id = some run := by
  obtain ⟨rfl, before, ⟨version, audits, outbox, rfl⟩ | rfl⟩ := confirmed_of_runs ran
  · obtain ⟨middle, _, _, -, -, answered, -⟩ := ran.last
    cases answered with
    | returned eq =>
      obtain ⟨-, rfl⟩ := Memory.eq_of_updateRunAtomic eq
      rw [Memory.runs_appendAtomic]
      exact GoMap.get?_set_self _ _ _
  · obtain ⟨middle, _, _, -, -, answered, -⟩ := ran.last
    cases answered with
    | returned eq =>
      simp only [Memory.getRun] at eq
      split at eq
      · next found =>
        cases eq
        exact found
      · cases eq

end

end Returned

end Persist

/-- A call of one of the two activities. -/
inductive Invocation where
  | deploy (input : DeployInput)
  | rollback (input : RollbackInput)
  deriving DecidableEq

namespace Invocation

variable (activities : Activities)

def program : Invocation → Prog requests (Except ActivityError DeployResult)
  | deploy input => activities.deploy input
  | rollback input => activities.rollback input

def write : Invocation → Write
  | deploy input => activities.deployWrite input
  | rollback input => activities.rollbackWrite input

def isDeploy : Invocation → Bool
  | deploy _ => true
  | rollback _ => false

variable {activities}

theorem program_eq (invocation : Invocation) :
    invocation.program activities = (invocation.write activities).perform := by
  cases invocation <;> rfl

/-- Calls whose executions are recorded in the same place have the same key and operation. -/
theorem key_eq_of_place_eq {first second : Invocation}
    (same : (first.write activities).place = (second.write activities).place) :
    (first.write activities).key = (second.write activities).key ∧
      first.isDeploy = second.isDeploy := by
  have characters := congrArg String.toList same
  simp only [Write.place] at characters
  cases first with
  | deploy first =>
    cases second with
    | deploy second =>
      simp only [write, deployWrite, executionKey, String.toList_append, List.append_cancel_left_eq,
        String.toList_inj] at characters
      exact ⟨by simp [write, Write.key, deployWrite, characters], rfl⟩
    | rollback second => simp [write, deployWrite, rollbackWrite, executionKey] at characters
  | rollback first =>
    cases second with
    | deploy second => simp [write, deployWrite, rollbackWrite, executionKey] at characters
    | rollback second =>
      simp only [write, rollbackWrite, executionKey, String.toList_append,
        List.append_cancel_left_eq, List.append_cancel_right_eq, String.toList_inj] at characters
      exact ⟨by simp [write, Write.key, rollbackWrite, characters], rfl⟩

end Invocation

section Many

variable {ι : Type} (activities : Activities) (invocations : ι → Invocation)

def code (process : ι) : Prog requests (Except ActivityError DeployResult) :=
  (invocations process).program activities

abbrev writeOf (process : ι) : Write :=
  (invocations process).write activities

variable {activities invocations}

theorem guarded_of_run {legal : (op : Op) → op.Res → Prop} {process : ι}
    {events : History} {rest : Prog requests (Except ActivityError DeployResult)}
    (run : Runs (Machine.free (S := requests) legal) () (code activities invocations process)
      events () rest) :
    (∀ result, rest = .pure result → (writeOf activities invocations process).Explained events
      result) ∧
    ∀ op next, rest.head = .request op next →
      (writeOf activities invocations process).Guarded events op := by
  rw [code, Invocation.program_eq] at run
  exact (Write.Ensured.perform _ legal).of_runs (fun _ _ _ _ answered => answered) run

/-- The key which an answered request has newly reserved. -/
def reserved : Event requests → Option (String × String)
  | ⟨.reserveExecution record _ _, .ok (_, true)⟩ => some (record.adapter, record.idempotencyKey)
  | _ => none

def Present (memory : Memory) (key : String × String) : Prop :=
  (memory.executions.get? (executionKey key.1 key.2)).isSome

theorem present_setExecution {key : String × String} {audits : List AuditEvent}
    {outbox : List OutboxEvent} (present : Present memory key) :
    Present ((memory.setExecution record).appendAtomic audits outbox) key := by
  simp only [Present, Memory.executions_appendAtomic, Memory.setExecution,
    GoMap.get?_set] at present ⊢
  split
  · rfl
  · exact present

theorem present_of_effect {key : String × String} (effect : StoreEffect memory op answer next)
    (present : Present memory key) : Present next key := by
  rcases storeEffect_cases effect with rfl | ⟨_, _, _, _, -, rfl⟩ | ⟨_, _, _, -, rfl⟩ |
    ⟨_, _, _, _, -, rfl⟩
  · exact present
  · rw [Present, Memory.executions_appendAtomic]
    exact present
  all_goals exact present_setExecution present

theorem fresh_of_effect {key : String × String} (effect : StoreEffect memory op answer next)
    (reserves : reserved ⟨op, answer⟩ = some key) : ¬Present memory key ∧ Present next key := by
  unfold reserved at reserves
  split at reserves
  · next record audit outbox found eq =>
    cases eq
    cases reserves
    rcases Memory.reserveExecution_cases (reserve_of_answer effect) with ⟨impossible, -⟩ |
      ⟨-, absent, -, rfl⟩
    · cases impossible
    · simp [Present, absent, Memory.setExecution]
  · cases reserves

variable (activities invocations)

/-- The calls are disciplined by the keys of their executions. -/
def discipline : Discipline sharedStore (code activities invocations) (String × String) where
  present := Present
  reserves := reserved
  acts process op :=
    if op.isExecute then some (writeOf activities invocations process).key else none
  kept := present_of_effect
  fresh := fresh_of_effect
  guarded := by
    intro process events rest op next key run requested acts
    have guarded := (guarded_of_run run).2 op next requested
    cases op with
    | execute call =>
      cases acts
      obtain ⟨-, ⟨audit, found, -, id, now, outbox, member⟩, quiet⟩ := guarded
      refine ⟨⟨_, member, rfl⟩, ?_⟩
      intro event earlier
      simp [quiet event earlier]
    | _ => cases acts

variable [DecidableEq ι]

/-- A call whose execution is recorded in the given place has succeeded. -/
def Succeeded (trace : List (ι × Event requests)) (place externalID : String) : Prop :=
  ∃ process, (writeOf activities invocations process).Called (Pool.localTrace trace process)
      externalID ∧
    (writeOf activities invocations process).place = place

/-- Successes which are recorded, or have been read, are successes of calls. -/
structure Recorded (memory : Memory) (trace : List (ι × Event requests)) : Prop where
  stored : ∀ place record, memory.executions.get? place = some record →
    record.status = some .succeeded →
    Succeeded activities invocations trace place record.externalExecutionID
  read : ∀ process record audit outbox found created,
    (process, ⟨.reserveExecution record audit outbox, .ok (found, created)⟩) ∈ trace →
    found.status = some .succeeded →
    Succeeded activities invocations trace record.mapKey
      found.externalExecutionID

variable {activities invocations}

theorem Succeeded.append {trace : List (ι × Event requests)} {place externalID : String}
    (succeeded : Succeeded activities invocations trace place externalID)
    (entry : ι × Event requests) :
    Succeeded activities invocations (trace ++ [entry]) place externalID := by
  obtain ⟨process, ⟨deployment, member, eq⟩, recorded⟩ := succeeded
  refine ⟨process, ⟨deployment, ?_, eq⟩, recorded⟩
  rw [Discipline.mem_localTrace] at member ⊢
  exact List.mem_append_left _ member

/-- The answers which the shared store gives to reservations. -/
def Honest : (op : Op) → op.Res → Prop
  | .reserveExecution record _ _, .ok (found, true) =>
    found = record.reserved
  | _, _ => True

theorem honest_of_answers (memory : sharedStore.World) (op : Op) (answer : op.Res)
    (next : sharedStore.World) (answered : sharedStore.answers memory op answer next) :
    Honest op answer := by
  unfold Honest
  split
  · rcases Memory.reserveExecution_cases (reserve_of_answer answered) with ⟨impossible, -⟩ |
      ⟨-, -, eq, -⟩
    · cases impossible
    · exact eq
  · trivial

/-- A success which is about to be recorded is the success of the call itself. -/
theorem succeeded_of_complete {trace : List (ι × Event requests)} {process : ι}
    {program : Prog requests (Except ActivityError DeployResult)}
    (run : Runs (Machine.free (S := requests) Honest) () (code activities invocations process)
      (Pool.localTrace trace process) () program) {expectedVersion : ℤ}
    {next : Except StoreError Unit → Prog requests (Except ActivityError DeployResult)}
    (requested : program.head =
      .request (.completeExecution record expectedVersion audit outbox) next)
    (succeeded : record.status = some .succeeded) :
    Succeeded activities invocations trace record.mapKey
      record.externalExecutionID := by
  obtain ⟨called, reserveAudit, found, ⟨id, now, event, member⟩, adapterEq, keyEq⟩ :=
    (guarded_of_run run).2 _ _ requested succeeded
  have honest := run.legal _ member
  refine ⟨process, called, ?_⟩
  rw [ExecutionRecord.mapKey, adapterEq, keyEq, honest]
  rfl

theorem Recorded.step {trace : List (ι × Event requests)} {process : ι}
    {program : Prog requests (Except ActivityError DeployResult)}
    {follow : op.Res → Prog requests (Except ActivityError DeployResult)}
    (recorded : Recorded activities invocations memory trace)
    (run : Runs (Machine.free (S := requests) Honest) () (code activities invocations process)
      (Pool.localTrace trace process) () program) (requested : program.head = .request op follow)
    (effect : StoreEffect memory op answer next) :
    Recorded activities invocations next (trace ++ [(process, ⟨op, answer⟩)]) := by
  constructor
  case stored =>
    intro place record present succeeded
    refine Succeeded.append ?_ _
    rcases storeEffect_cases effect with rfl | ⟨_, _, _, _, -, rfl⟩ | ⟨reservation, _, _, -, rfl⟩ |
      ⟨completed, _, _, _, rfl, rfl⟩
    · exact recorded.stored place record present succeeded
    · rw [Memory.executions_appendAtomic] at present
      exact recorded.stored place record present succeeded
    · rw [Memory.executions_appendAtomic, Memory.setExecution, GoMap.get?_set] at present
      split at present
      · cases present
        cases succeeded
      · exact recorded.stored place record present succeeded
    · rw [Memory.executions_appendAtomic, Memory.setExecution, GoMap.get?_set] at present
      split at present
      · next here =>
        cases present
        rw [here]
        exact (succeeded_of_complete run requested succeeded :)
      · exact recorded.stored place record present succeeded
  case read =>
    intro reader record audit outbox found created member succeeded
    refine Succeeded.append ?_ _
    rcases List.mem_append.mp member with earlier | last
    · exact recorded.read reader record audit outbox found created earlier succeeded
    · cases List.mem_singleton.mp last
      rcases Memory.reserveExecution_cases (reserve_of_answer effect) with ⟨-, -, present⟩ |
        ⟨-, -, rfl, -⟩
      · exact recorded.stored _ found present succeeded
      · cases succeeded

variable {start : Memory} {pool : Pool sharedStore ι (Except ActivityError DeployResult)}

def Unfinished (memory : Memory) : Prop :=
  ∀ place record, memory.executions.get? place = some record →
    record.status ≠ some .succeeded

theorem recorded_of_reachable (unfinished : Unfinished start)
    (reachable : Pool.Reachable (code activities invocations) start pool) :
    Recorded activities invocations pool.world pool.trace := by
  refine reachable.invariant honest_of_answers (Recorded activities invocations) ?_ ?_
  · exact ⟨fun place record present succeeded => absurd succeeded (unfinished place record present),
      by simp⟩
  · intro memory trace process program op next answer after recorded run requested effect
    exact recorded.step run requested effect

theorem audited_of_reachable (reachable : Pool.Reachable (code activities invocations) start pool)
    {process : ι}
    (created : (process, ⟨Op.reserveExecution record audit outbox, .ok (found, true)⟩) ∈
      pool.trace) : audit ∈ Memory.auditEvents pool.world audit.correlationID := by
  refine reachable.invariant honest_of_answers (fun (memory : Memory) trace =>
    ∀ process record audit outbox found,
      (process, ⟨Op.reserveExecution record audit outbox, .ok (found, true)⟩) ∈ trace →
      audit ∈ memory.auditEvents audit.correlationID) (by simp) ?_
    process record audit outbox found created
  intro memory trace acting program op next answer after held _ _ effect process record audit
    outbox found member
  rcases List.mem_append.mp member with earlier | last
  · exact auditEvents_of_effect effect (held process record audit outbox found earlier)
  · cases List.mem_singleton.mp last
    rcases Memory.reserveExecution_cases (reserve_of_answer effect) with ⟨impossible, -⟩ |
      ⟨-, -, -, rfl⟩
    · cases impossible
    · simp [Memory.auditEvents_appendAtomic]

/-- The calls of the executor for an adapter and an idempotency key. -/
def executorCalls (activities : Activities) (invocations : ι → Invocation)
    (key : String × String) (trace : List (ι × Event requests)) : List (ι × Event requests) :=
  trace.filter fun entry =>
    entry.2.1.isExecute = true ∧ (writeOf activities invocations entry.1).key = key

/-- What holds of the calls of the executor in a pool of activities over one store. -/
structure ExecutesOnce (activities : Activities) (invocations : ι → Invocation) (start : Memory)
    (pool : Pool sharedStore ι (Except ActivityError DeployResult)) : Prop where
  /-- At most one call for each adapter and idempotency key. -/
  once : ∀ key, (executorCalls activities invocations key pool.trace).length ≤ 1
  /-- Every call is the one of its activity and follows its reservation, with the audit event. -/
  reserved : ∀ before process call answer after,
    pool.trace = before ++ (process, ⟨Op.execute call, answer⟩) :: after →
    call = (writeOf activities invocations process).call ∧
    ∃ id now audit outbox found,
      (process, ⟨Op.reserveExecution ((writeOf activities invocations process).record id now)
        audit outbox, .ok (found, true)⟩) ∈ before ∧
      (writeOf activities invocations process).ReserveAudit audit ∧
      audit ∈ Memory.auditEvents pool.world (writeOf activities invocations process).runID
  /-- A returned success has the identifier of the only call for its key, which has succeeded. -/
  returned : Unfinished start → ∀ process result,
    pool.processes process = some (.pure (.ok result)) →
    ∃ caller deployment,
      executorCalls activities invocations (writeOf activities invocations process).key
        pool.trace = [(caller,
          ⟨Op.execute (writeOf activities invocations caller).call, .ok deployment⟩)] ∧
      (invocations caller).isDeploy = (invocations process).isDeploy ∧
      result.execution.externalExecutionID = deployment.externalID ∧
      result.deployment.externalID = deployment.externalID

theorem executorCalls_le_one (reachable : Pool.Reachable (code activities invocations) start pool)
    (key : String × String) : (executorCalls activities invocations key pool.trace).length ≤ 1 := by
  have bound := (discipline activities invocations).actions_le_one reachable key
  have same : executorCalls activities invocations key pool.trace =
      (discipline activities invocations).actions pool.trace key := by
    refine List.filter_congr fun entry _ => ?_
    cases executes : entry.2.1.isExecute <;> simp [discipline, executes]
  rw [same]
  exact bound

/-- A success of a call explains every returned success. -/
theorem succeeded_of_returned (unfinished : Unfinished start)
    (reachable : Pool.Reachable (code activities invocations) start pool) {process : ι}
    {result : DeployResult} (returned : pool.processes process = some (.pure (.ok result))) :
    result.execution.externalExecutionID = result.deployment.externalID ∧
      Succeeded activities invocations pool.trace (writeOf activities invocations process).place
        result.deployment.externalID := by
  obtain ⟨rest, run, current⟩ := reachable.localRun honest_of_answers process
  obtain ⟨same, called | ⟨audit, found, ⟨id, now, outbox, member⟩, succeeded, eq⟩⟩ :=
    (guarded_of_run run).1 _ (current _ returned).symm
  · exact ⟨same, process, called, rfl⟩
  · refine ⟨same, ?_⟩
    rw [← eq]
    exact (recorded_of_reachable unfinished reachable).read process _ audit outbox found false
      (Discipline.mem_localTrace.mp member) succeeded

/--
Any number of calls of `Deploy` and `Rollback` over one store, interleaved and
crashing arbitrarily, with failing operations, call the executor at most once for
each adapter and idempotency key, always after their own reservation; they return
a success only with the identifier which that call has returned.
-/
theorem execute_at_most_once (activities : Activities) (invocations : ι → Invocation)
    (start : Memory) (pool : Pool sharedStore ι (Except ActivityError DeployResult))
    (reachable : Pool.Reachable (code activities invocations) start pool) :
    ExecutesOnce activities invocations start pool := by
  constructor
  case once => exact executorCalls_le_one reachable
  case reserved =>
    intro before process call answer after split
    have anyAnswer : ∀ memory op answer next, sharedStore.answers memory op answer next → True :=
      fun _ _ _ _ _ => trivial
    obtain ⟨rest, next, run, requested⟩ := reachable.requested anyAnswer split
    obtain ⟨own, ⟨audit, found, audited, id, now, outbox, member⟩, -⟩ :=
      (guarded_of_run run).2 _ _ requested
    have reservation := Discipline.mem_localTrace.mp member
    have recorded := List.mem_append_left
      ((process, ⟨Op.execute call, answer⟩) :: after) reservation
    rw [← split] at recorded
    have logged := audited_of_reachable reachable recorded
    rw [audited.1] at logged
    exact ⟨own, id, now, audit, outbox, found, reservation, audited, logged⟩
  case returned =>
    intro unfinished process result returned
    obtain ⟨same, caller, ⟨deployment, member, eq⟩, place⟩ :=
      succeeded_of_returned unfinished reachable returned
    obtain ⟨keyEq, kindEq⟩ := Invocation.key_eq_of_place_eq place
    refine ⟨caller, deployment, ?_, kindEq, same.trans eq.symm, eq.symm⟩
    have counted : (caller, ⟨Op.execute (writeOf activities invocations caller).call,
        .ok deployment⟩) ∈ executorCalls activities invocations
          (writeOf activities invocations process).key pool.trace := by
      simp only [executorCalls, List.mem_filter, decide_eq_true_eq]
      exact ⟨Discipline.mem_localTrace.mp member, rfl, keyEq⟩
    have bound := executorCalls_le_one reachable (writeOf activities invocations process).key
    obtain ⟨only, single⟩ := List.length_eq_one_iff.mp
      (Nat.le_antisymm bound (List.length_pos_of_mem counted))
    rw [single, List.mem_singleton] at counted
    rw [single, counted]

end Many

/-- The environment in which nothing fails; the executor returns the given deployment. -/
def cooperate (deployment : Deployment) : Strategy requests Memory
  | memory, .now => (1, memory)
  | memory, .newID kind => (kind ++ "_1", memory)
  | memory, .updateRunAtomic run expectedVersion audits outbox =>
    answerOf memory (memory.updateRunAtomic run expectedVersion audits outbox)
  | memory, .getRun id => answerOf memory ((memory.getRun id).map (·, memory))
  | memory, .reserveExecution record audit outbox =>
    answerOf memory (.ok (memory.reserveExecution record audit outbox))
  | memory, .completeExecution record expectedVersion audit outbox =>
    answerOf memory ((memory.completeExecution record expectedVersion audit outbox).map ((), ·))
  | memory, .execute _ => (.ok deployment, memory)

theorem storeEffect_cooperate (deployment : Deployment) (memory : Memory) (op : Op) :
    StoreEffect memory op (cooperate deployment memory op).1
      (cooperate deployment memory op).2 := by
  cases op with
  | updateRunAtomic | getRun | reserveExecution | completeExecution =>
    exact performs_answerOf memory _
  | _ => rfl

/-- Two calls with one key, one after the other: the second one returns the recorded result. -/
theorem execute_at_most_once_replayed :
    let activities : Activities := ⟨"mock"⟩
    let input : DeployInput := {
      runID := "run-1"
      requestedBy := "user"
      agentID := "agent"
      service := "api"
      environment := "production"
      desiredVersion := "v2"
      idempotencyKey := "run-1/production/api/v2" }
    let invocations : Bool → Invocation := fun _ => .deploy input
    ∃ pool : Pool sharedStore Bool (Except ActivityError DeployResult),
      Pool.Reachable (code activities invocations) newMemory pool ∧
      ExecutesOnce activities invocations newMemory pool ∧
      (executorCalls activities invocations ("mock", "run-1/production/api/v2")
        pool.trace).map Prod.fst = [true] ∧
      (pool.returned false).map (Except.map fun result => result.execution.externalExecutionID) =
        some (.ok "mock-api-1") := by
  intro activities input invocations
  have allowed : ∀ memory op, sharedStore.answers memory op
      (cooperate ⟨"mock-api-1", 5, 6⟩ memory op).1 (cooperate ⟨"mock-api-1", 5, 6⟩ memory op).2 :=
    storeEffect_cooperate ⟨"mock-api-1", 5, 6⟩
  have reachable := ((Pool.reachable_initial (code activities invocations) newMemory).play
    allowed 20 true).play allowed 20 false
  exact ⟨_, reachable, execute_at_most_once _ _ _ _ reachable, by decide +kernel,
    by decide +kernel⟩

end Workflow.Activities

end Themisy
