import Themisy.Store.Calls

/-!
# The statements of the in-memory store

The methods of the store, statement by statement. Each statement changes the state, and an
error leaves the method with the state as it is then. Every method checks before it
changes anything, so one which fails has changed nothing: it does what the function in
`Themisy.Store.Memory` says, or it leaves the store alone.
-/

namespace Themisy.Store

open Domain Interaction

/-- A method of the store, which may fail. -/
abbrev Operation (Value : Type) := ExceptT StoreError (StateM Memory) Value

namespace Operation

section

variable {Value Other : Type} (memory : Memory)

/-- What a method returns, and the store after it. -/
def on (operation : Operation Value) (memory : Memory) : Except StoreError Value × Memory :=
  operation memory

@[simp]
theorem on_pure (value : Value) : (pure value : Operation Value).on memory = (.ok value, memory) :=
  rfl

@[simp]
theorem on_throw (error : StoreError) :
    (throw error : Operation Value).on memory = (.error error, memory) :=
  rfl

@[simp]
theorem on_get_bind (follow : Memory → Operation Value) :
    (get >>= follow : Operation Value).on memory = (follow memory).on memory :=
  rfl

@[simp]
theorem on_modify (change : Memory → Memory) :
    (modify change : Operation Unit).on memory = (.ok (), change memory) :=
  rfl

@[simp]
theorem on_modify_bind (change : Memory → Memory) (follow : PUnit → Operation Value) :
    (modify change >>= follow : Operation Value).on memory = (follow ⟨⟩).on (change memory) :=
  rfl

end

def createRunAtomic (run : ReleaseRun) (audit : List AuditEvent) (outbox : List OutboxEvent) :
    Operation (ReleaseRun × Bool) := do
  let memory ← get
  match found : memory.runByRequestID.get? run.requestID with
  | some _ => return (memory.indexedRun found, false)
  | none =>
    if memory.runs.get? run.id = none then
      modify (·.insertRun run)
      modify (·.appendAtomic audit (Memory.appendProjection outbox run))
      return (run, true)
    else throw (.other (.plain ("duplicate run id " ++ GoText.quote run.id)))

def getRun (id : String) : Operation ReleaseRun := do
  match (← get).runs.get? id with
  | some run => return run
  | none => throw .notFound

def updateRunAtomic (run : ReleaseRun) (expectedVersion : ℤ) (audit : List AuditEvent)
    (outbox : List OutboxEvent) : Operation ReleaseRun := do
  match (← get).runs.get? run.id with
  | none => throw .notFound
  | some current =>
    if current.stateVersion = expectedVersion then
      let updated := run.advanced expectedVersion
      modify (·.replaceRun updated)
      modify (·.appendAtomic audit (Memory.appendProjection outbox updated))
      return updated
    else throw .conflict

def rebuildProjection (runID : String) : Operation Unit := do
  match (← get).projections.get? runID with
  | none => throw .notFound
  | some projection => modify (·.setRun runID projection)

def reserveExecution (record : ExecutionRecord) (audit : AuditEvent) (outbox : OutboxEvent) :
    Operation (ExecutionRecord × Bool) := do
  match (← get).executions.get? record.mapKey with
  | some existing => return (existing, false)
  | none =>
    let reserved := record.reserved
    modify (·.setExecution reserved)
    modify (·.appendAtomic [audit] [outbox])
    return (reserved, true)

def completeExecution (record : ExecutionRecord) (expectedVersion : ℤ) (audit : AuditEvent)
    (outbox : OutboxEvent) : Operation Unit := do
  match (← get).executions.get? record.mapKey with
  | none => throw .notFound
  | some current =>
    if current.stateVersion = expectedVersion then
      modify (·.setExecution (record.advanced expectedVersion))
      modify (·.appendAtomic [audit] [outbox])
    else throw .conflict

def getExecution (adapter idempotencyKey : String) : Operation ExecutionRecord := do
  match (← get).executions.get? (executionKey adapter idempotencyKey) with
  | some record => return record
  | none => throw .notFound

def markOutboxPublished (id : String) (publishedAt : Time) : Operation Unit := do
  match Memory.markPublished id publishedAt (← get).outbox with
  | .ok outbox => modify ({ · with outbox })
  | .error error => throw error

def getRunnerAction (tenantID runnerGroup nonce : String) : Operation RunnerActionRecord := do
  let memory ← get
  match memory.journalError with
  | some error => throw (.other error)
  | none =>
    match memory.runnerActions.get? (runnerNonceKey tenantID runnerGroup nonce) with
    | some record => return record
    | none => throw .notFound

def reserveRunnerAction (record : RunnerActionRecord) (audit : AuditEvent) :
    Operation (RunnerActionRecord × Bool) := do
  let memory ← get
  match memory.journalError with
  | some error => throw (.other error)
  | none =>
    match memory.runnerActions.get? record.nonceKey with
    | some existing => return (existing, false)
    | none =>
      match found : memory.runnerByKey.get? record.claimKey with
      | some _ => return (memory.indexedAction found, false)
      | none =>
        let reserved := record.reserved
        modify (·.insertAction reserved)
        modify (·.appendAudit audit)
        return (reserved, true)

def completeRunnerAction (record : RunnerActionRecord) (expected : ℤ) (audit : AuditEvent) :
    Operation Unit := do
  let memory ← get
  match memory.journalError with
  | some error => throw (.other error)
  | none =>
    match memory.runnerActions.get? record.nonceKey with
    | none => throw .notFound
    | some current =>
      if current.stateVersion = expected then
        modify (·.replaceAction (record.advanced expected))
        modify (·.appendAudit audit)
      else throw .conflict

end Operation

/-- The method which is called. -/
def StoreCall.execute : (call : StoreCall) → Operation call.Value
  | createRunAtomic run audits outbox => .createRunAtomic run audits outbox
  | getRun id => .getRun id
  | updateRunAtomic run expectedVersion audits outbox =>
    .updateRunAtomic run expectedVersion audits outbox
  | reserveExecution record audit outbox => .reserveExecution record audit outbox
  | completeExecution record expectedVersion audit outbox =>
    .completeExecution record expectedVersion audit outbox
  | getExecution adapter idempotencyKey => .getExecution adapter idempotencyKey
  | markOutboxPublished id publishedAt => .markOutboxPublished id publishedAt
  | reserveRunnerAction record audit => .reserveRunnerAction record audit
  | getRunnerAction tenantID runnerGroup nonce => .getRunnerAction tenantID runnerGroup nonce
  | completeRunnerAction record expected audit => .completeRunnerAction record expected audit

open Operation Memory in
/-- The statements of a method take effect as a whole, or not at all. -/
theorem StoreCall.on_execute (memory : Memory) (call : StoreCall) :
    call.execute.on memory = memory.perform call := by
  cases call with
  | createRunAtomic run audits outbox =>
    simp only [execute, Operation.createRunAtomic, on_get_bind, perform, Memory.createRunAtomic]
    by_cases absent : memory.runs.get? run.id = none
    all_goals
      simp only [absent, require, if_true, if_false]
      -- The two dependent matches may share their matcher, and then one `split` takes both.
      split
      · next found =>
        first
          | rfl
          | split
            · next again =>
              obtain rfl := Option.some.inj (found.symm.trans again)
              rfl
            · next missing => cases found.symm.trans missing
      · next missing =>
        first
          | rfl
          | split
            · next found => cases missing.symm.trans found
            · rfl
  | updateRunAtomic run expectedVersion audits outbox =>
    simp only [execute, Operation.updateRunAtomic, on_get_bind, perform, Memory.updateRunAtomic]
    cases memory.runs.get? run.id with
    | none => rfl
    | some current =>
      dsimp only [require]
      split <;> rfl
  | completeExecution record expectedVersion audit outbox =>
    simp only [execute, Operation.completeExecution, on_get_bind, perform,
      Memory.completeExecution]
    cases memory.executions.get? record.mapKey with
    | none => rfl
    | some current =>
      dsimp only [require]
      split <;> rfl
  | reserveRunnerAction record audit =>
    simp only [execute, Operation.reserveRunnerAction, on_get_bind, perform,
      Memory.reserveRunnerAction, checkJournal]
    cases memory.journalError with
    | some error => rfl
    | none =>
      simp only [bind, Except.bind]
      cases memory.runnerActions.get? record.nonceKey with
      | some existing => rfl
      | none =>
        dsimp only
        split
        · next found =>
          first
            | rfl
            | split
              · next again =>
                obtain rfl := Option.some.inj (found.symm.trans again)
                rfl
              · next missing => cases found.symm.trans missing
        · next missing =>
          first
            | rfl
            | split
              · next found => cases missing.symm.trans found
              · rfl
  | completeRunnerAction record expected audit =>
    simp only [execute, Operation.completeRunnerAction, on_get_bind, perform,
      Memory.completeRunnerAction, checkJournal]
    cases memory.journalError with
    | some error => rfl
    | none =>
      simp only [bind, Except.bind]
      cases memory.runnerActions.get? record.nonceKey with
      | none => rfl
      | some current =>
        dsimp only [require]
        split <;> rfl
  | getRunnerAction tenantID runnerGroup nonce =>
    simp only [execute, Operation.getRunnerAction, on_get_bind, perform, Memory.getRunnerAction,
      checkJournal]
    cases memory.journalError with
    | some error => rfl
    | none =>
      simp only [bind, Except.bind]
      cases memory.runnerActions.get? (runnerNonceKey tenantID runnerGroup nonce) <;> rfl
  | getRun id =>
    simp only [execute, Operation.getRun, on_get_bind, perform, Memory.getRun]
    cases memory.runs.get? id <;> rfl
  | getExecution adapter idempotencyKey =>
    simp only [execute, Operation.getExecution, on_get_bind, perform, Memory.getExecution]
    cases memory.executions.get? (executionKey adapter idempotencyKey) <;> rfl
  | reserveExecution record audit outbox =>
    simp only [execute, Operation.reserveExecution, on_get_bind, perform, Memory.reserveExecution]
    cases memory.executions.get? record.mapKey <;> rfl
  | markOutboxPublished id publishedAt =>
    simp only [execute, Operation.markOutboxPublished, on_get_bind, perform,
      Memory.markOutboxPublished]
    cases markPublished id publishedAt memory.outbox <;> rfl

end Themisy.Store
