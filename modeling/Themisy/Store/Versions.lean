import Themisy.Store.Operations

/-!
# Versions, projections and events

Calls are made to the in-memory store one after the other. Every stored run equals
its projection, and its version is the one with which it was created plus the number
of its successful updates. An update succeeds only with the version which it
replaces; it appends the given events and a projection event of the new version. A
call which fails changes nothing.
-/

namespace Themisy.Domain

theorem iterate_nextVersion {version : ℤ} (inRange : InRange version) (count : ℕ)
    (fits : InRange (version + count)) : nextVersion^[count] version = version + count := by
  induction count with
  | zero => simp
  | succ count ih =>
    have before : InRange (version + count) := by
      simp only [InRange] at *
      omega
    have next : version + count + 1 = version + (count + 1 : ℕ) := by
      push_cast
      ring
    rw [Function.iterate_succ_apply', ih before, nextVersion, next, bmod_eq_of_inRange fits]

end Themisy.Domain

namespace Themisy.Store

open Domain Interaction

/-- The calls of the in-memory store. -/
inductive MemoryCall where
  | store (call : StoreCall)
  | rebuildProjection (runID : String)
  | appendAudit (event : AuditEvent)
  | auditEvents (correlationID : String)
  | pendingOutbox (eventType : String) (limit : ℤ)

namespace MemoryCall

/-- What a call returns. -/
abbrev Value : MemoryCall → Type
  | store call => call.Value
  | rebuildProjection _ | appendAudit _ => Unit
  | auditEvents _ => List AuditEvent
  | pendingOutbox _ _ => List OutboxEvent

/-- The calls with their answers. -/
abbrev signature : Sig := ⟨MemoryCall, fun call => Except StoreError call.Value⟩

/-- The answer to a call, and the store after it. -/
def answer (memory : Memory) : (call : MemoryCall) → Except StoreError call.Value × Memory
  | store call => call.execute.on memory
  | rebuildProjection runID => (Operation.rebuildProjection runID).on memory
  | appendAudit event => (.ok (), memory.appendAudit event)
  | auditEvents correlationID => (.ok (memory.auditEvents correlationID), memory)
  | pendingOutbox eventType limit => (.ok (memory.pendingOutbox eventType limit), memory)

/-- The answered calls and the store after them. -/
def conduct (start : Memory) (calls : List MemoryCall) : List (Event signature) × Memory :=
  calls.foldl (fun before call => (before.1 ++ [⟨call, (call.answer before.2).1⟩],
    (call.answer before.2).2)) ([], start)

theorem length_conduct (start : Memory) (calls : List MemoryCall) :
    (conduct start calls).1.length = calls.length := by
  induction calls using List.reverseRecOn with
  | nil => rfl
  | append_singleton calls call ih => simpa [conduct] using ih

end MemoryCall

open MemoryCall

/-- The version of a run which an answered call has created. -/
def createdBy (id : String) : Event signature → Option ℤ
  | ⟨.store (.createRunAtomic run _ _), .ok (_, true)⟩ =>
    if run.id = id then some run.stateVersion else none
  | _ => none

/-- The call is a successful update of the run. -/
def isUpdateOf (id : String) : Event signature → Bool
  | ⟨.store (.updateRunAtomic run _ _ _), .ok _⟩ => run.id = id
  | _ => false

/-- The store has no events but those of the other one and the given ones. -/
structure Appends (memory next : Memory) (audits : List AuditEvent) (outbox : List OutboxEvent) :
    Prop where
  audits : ∀ correlationID, next.auditEvents correlationID =
    memory.auditEvents correlationID ++
      audits.filter fun audit => audit.correlationID = correlationID
  outbox : next.outbox = memory.outbox ++ outbox

/-- The run with an identifier after some calls, given the run before them. -/
structure InStep (id : String) (initial : Option ReleaseRun) (history : List (Event signature))
    (memory : Memory) : Prop where
  projected : memory.projections.get? id = memory.runs.get? id
  versions : (memory.runs.get? id).map ReleaseRun.stateVersion =
    ((initial.map ReleaseRun.stateVersion).or (history.findSome? (createdBy id))).map
      nextVersion^[history.countP (isUpdateOf id)]
  unknown : memory.runs.get? id = none → history.countP (isUpdateOf id) = 0
  kept : ∀ run ∈ initial, history.countP (isUpdateOf id) = 0 → memory.runs.get? id = some run

section Steps

variable {memory next : Memory} {history : List (Event signature)} {event : Event signature}
  {id : String} {initial : Option ReleaseRun}

variable {outbox events : List OutboxEvent} {audits : List AuditEvent} {run : ReleaseRun}

/-- The stored run is replaced by its projection, which is equal to it. -/
theorem rebuildProjection_cases (memory : Memory) (runID : String) :
    ((Operation.rebuildProjection runID).on memory).2 = memory ∨
      ∃ projection, memory.projections.get? runID = some projection ∧
        ((Operation.rebuildProjection runID).on memory).2 = memory.setRun runID projection := by
  simp only [Operation.rebuildProjection, Operation.on_get_bind]
  cases found : memory.projections.get? runID with
  | none => exact Or.inl rfl
  | some projection => exact Or.inr ⟨projection, rfl, rfl⟩

section

variable (inStep : InStep id initial history memory)

include inStep

/-- A call which neither creates nor updates the run. -/
theorem InStep.of_eq (runs : next.runs.get? id = memory.runs.get? id)
    (projections : next.projections.get? id = memory.projections.get? id)
    (creates : createdBy id event = none) (updates : isUpdateOf id event = false) :
    InStep id initial (history ++ [event]) next where
  projected := by rw [projections, runs, inStep.projected]
  versions := by
    rw [runs, inStep.versions]
    simp [List.findSome?_append, List.countP_append, creates, updates]
  unknown absent := by
    rw [runs] at absent
    simp [List.countP_append, updates, inStep.unknown absent]
  kept run started unchanged := by
    rw [runs]
    exact inStep.kept run started (by simpa [List.countP_append, updates] using unchanged)

theorem InStep.create {answered : ReleaseRun} (absent : memory.runs.get? run.id = none) :
    InStep id initial
      (history ++ [⟨.store (.createRunAtomic run audits outbox), .ok (answered, true)⟩])
      ((memory.insertRun run).appendAtomic audits events) := by
  by_cases same : run.id = id
  · subst same
    have none := inStep.versions
    rw [absent, Option.map_none, eq_comm, Option.map_eq_none_iff, Option.or_eq_none_iff,
      Option.map_eq_none_iff] at none
    obtain ⟨rfl, uncreated⟩ := none
    have stored : ((memory.insertRun run).appendAtomic audits events).runs.get? run.id =
        some run := by
      rw [Memory.runs_appendAtomic]
      exact GoMap.get?_set_self _ _ _
    refine ⟨?_, ?_, ?_, by simp⟩
    · rw [stored, Memory.projections_appendAtomic]
      exact GoMap.get?_set_self _ _ _
    · rw [stored]
      simp [List.findSome?_append, List.countP_append, uncreated, createdBy, isUpdateOf,
        inStep.unknown absent]
    · intro missing
      cases stored.symm.trans missing
  · refine inStep.of_eq ?_ ?_ (if_neg same) rfl
    · rw [Memory.runs_appendAtomic]
      exact (GoMap.get?_set _ _ _ _).trans (if_neg (Ne.symm same))
    · rw [Memory.projections_appendAtomic]
      exact (GoMap.get?_set _ _ _ _).trans (if_neg (Ne.symm same))

theorem InStep.update {current updated : ReleaseRun} {version : ℤ}
    (found : memory.runs.get? run.id = some current) (expected : current.stateVersion = version) :
    InStep id initial
      (history ++ [⟨.store (.updateRunAtomic run version audits outbox), .ok updated⟩])
      ((memory.replaceRun (run.advanced version)).appendAtomic audits
        events) := by
  by_cases same : run.id = id
  · subst same
    have before := inStep.versions
    rw [found, Option.map_some, expected, eq_comm, Option.map_eq_some_iff] at before
    obtain ⟨created, first, counted⟩ := before
    have stored : ((memory.replaceRun (run.advanced version)).appendAtomic
        audits events).runs.get? run.id =
          some (run.advanced version) := by
      rw [Memory.runs_appendAtomic]
      exact GoMap.get?_set_self _ _ _
    refine ⟨?_, ?_, ?_, by simp [List.countP_append, isUpdateOf]⟩
    · rw [stored, Memory.projections_appendAtomic]
      exact GoMap.get?_set_self _ _ _
    · rw [stored, List.findSome?_append, ← Option.or_assoc, first]
      simp only [Option.map_some, Option.some_or, List.countP_append, List.countP_singleton,
        isUpdateOf, decide_true, if_true, Function.iterate_succ_apply', counted]
    · intro missing
      cases stored.symm.trans missing
  · refine inStep.of_eq ?_ ?_ rfl (by simpa [isUpdateOf] using same)
    · rw [Memory.runs_appendAtomic]
      exact (GoMap.get?_set _ _ _ _).trans (if_neg (Ne.symm same))
    · rw [Memory.projections_appendAtomic]
      exact (GoMap.get?_set _ _ _ _).trans (if_neg (Ne.symm same))

theorem InStep.rebuildProjection (runID : String) :
    ((Operation.rebuildProjection runID).on memory).2.runs.get? id = memory.runs.get? id ∧
      ((Operation.rebuildProjection runID).on memory).2.projections.get? id =
        memory.projections.get? id := by
  rcases rebuildProjection_cases memory runID with same | ⟨projection, found, rebuilt⟩
  · rw [same]
    exact ⟨rfl, rfl⟩
  · rw [rebuilt]
    refine ⟨?_, rfl⟩
    simp only [Memory.setRun, GoMap.get?_set]
    split
    · next same => rw [← inStep.projected, same, found]
    · rfl

end

theorem appends_appendAtomic {middle : Memory} (audit : middle.audit = memory.audit)
    (same : middle.outbox = memory.outbox) :
    Appends memory (middle.appendAtomic audits outbox) audits outbox where
  audits correlationID := by
    rw [Memory.auditEvents_appendAtomic, Memory.auditEvents, Memory.auditEvents, audit]
  outbox := by
    obtain ⟨table, eq⟩ := middle.exists_appendAtomic_eq audits outbox
    rw [eq, same]

/-- The calls which store runs. -/
def StoreCall.storesRun : StoreCall → Bool
  | createRunAtomic _ _ _ | updateRunAtomic _ _ _ _ => true
  | _ => false

theorem Memory.runs_perform (memory : Memory) {call : StoreCall} (other : call.storesRun = false) :
    (memory.perform call).2.runs = memory.runs ∧
      (memory.perform call).2.projections = memory.projections := by
  cases call with
  | createRunAtomic | updateRunAtomic => cases other
  | getRun | getExecution | getRunnerAction => exact ⟨rfl, rfl⟩
  | reserveExecution record audit outbox =>
    simp only [perform, answerOf, reserveExecution]
    split <;> simp [setExecution]
  | completeExecution record version audit outbox =>
    simp only [perform, completeExecution]
    split
    · exact ⟨rfl, rfl⟩
    · rw [require]
      split
      · exact ⟨runs_appendAtomic _ _ _, projections_appendAtomic _ _ _⟩
      · exact ⟨rfl, rfl⟩
  | markOutboxPublished id publishedAt =>
    simp only [perform, markOutboxPublished]
    cases markPublished id publishedAt memory.outbox with
    | error | ok => exact ⟨rfl, rfl⟩
  | reserveRunnerAction record audit =>
    simp only [perform, reserveRunnerAction]
    cases memory.checkJournal with
    | error error => exact ⟨rfl, rfl⟩
    | ok =>
      simp only [bind, Except.bind]
      split
      · exact ⟨rfl, rfl⟩
      · split <;> exact ⟨rfl, rfl⟩
  | completeRunnerAction record expected audit =>
    simp only [perform, completeRunnerAction]
    cases memory.checkJournal with
    | error error => exact ⟨rfl, rfl⟩
    | ok =>
      simp only [bind, Except.bind]
      split
      · exact ⟨rfl, rfl⟩
      · rw [require]
        split <;> exact ⟨rfl, rfl⟩

theorem InStep.answer (inStep : InStep id initial history memory) (call : MemoryCall) :
    InStep id initial (history ++ [⟨call, (call.answer memory).1⟩]) (call.answer memory).2 := by
  cases call with
  | store call =>
    simp only [MemoryCall.answer, StoreCall.on_execute]
    cases call with
    | createRunAtomic run audits outbox =>
      simp only [Memory.perform]
      rcases result : memory.createRunAtomic run audits outbox with error | ⟨⟨answered, new⟩, next⟩
      · exact inStep.of_eq rfl rfl rfl rfl
      · rcases Memory.createRunAtomic_cases result with ⟨rfl, rfl, -⟩ | ⟨rfl, -, -, absent, rfl⟩
        · exact inStep.of_eq rfl rfl rfl rfl
        · exact inStep.create absent
    | updateRunAtomic run version audits outbox =>
      simp only [Memory.perform]
      rcases result : memory.updateRunAtomic run version audits outbox with error | ⟨updated, next⟩
      · exact inStep.of_eq rfl rfl rfl rfl
      · obtain ⟨current, found, expected⟩ := Memory.exists_of_updateRunAtomic result
        obtain ⟨rfl, rfl⟩ := Memory.eq_of_updateRunAtomic result
        exact inStep.update found expected
    | _ =>
      exact inStep.of_eq (congrArg (GoMap.get? · id) (memory.runs_perform rfl).1)
        (congrArg (GoMap.get? · id) (memory.runs_perform rfl).2) rfl rfl
  | rebuildProjection runID =>
    obtain ⟨runs, projections⟩ := inStep.rebuildProjection runID
    exact inStep.of_eq runs projections rfl rfl
  | appendAudit | auditEvents | pendingOutbox => exact inStep.of_eq rfl rfl rfl rfl

theorem inStep_conduct {start : Memory} (projected : start.projections.get? id = start.runs.get? id)
    (calls : List MemoryCall) :
    InStep id (start.runs.get? id) (conduct start calls).1 (conduct start calls).2 := by
  induction calls using List.reverseRecOn with
  | nil => exact ⟨projected, by simp [conduct], fun _ => rfl, fun _ stored _ => stored⟩
  | append_singleton calls call ih =>
    rw [conduct, List.foldl_append]
    exact ih.answer call

end Steps

/-- A call which fails leaves the store as it was. -/
theorem MemoryCall.eq_of_error {memory : Memory} {call : MemoryCall} {error : StoreError}
    (failed : (call.answer memory).1 = .error error) : (call.answer memory).2 = memory := by
  have unchanged : ∀ {Value : Type} (result : Except StoreError (Value × Memory)),
      (answerOf memory result).1 = .error error → (answerOf memory result).2 = memory := by
    rintro Value (_ | _) eq
    · rfl
    · cases eq
  cases call with
  | store call =>
    simp only [MemoryCall.answer, StoreCall.on_execute] at failed ⊢
    cases call with
    | getRun | getExecution | getRunnerAction => rfl
    | _ => exact unchanged _ failed
  | rebuildProjection runID =>
    simp only [MemoryCall.answer, Operation.rebuildProjection, Operation.on_get_bind] at failed ⊢
    split
    · rfl
    · next found =>
      rw [found] at failed
      cases failed
  | auditEvents | pendingOutbox => rfl
  | appendAudit => cases failed

/--
After any calls, runs and projections are the same, and the version of a run is the
one it was created with plus the number of its successful updates, as machine integers
are added. The next call keeps this account: to rebuild a projection changes no run, an
update needs the version which it replaces, creations and updates append their events
and one projection event, and a failing call changes nothing.
-/
theorem store_stays_in_step (calls : List MemoryCall) :
    let memory := (conduct newMemory calls).2
    (∀ id, memory.projections.get? id = memory.runs.get? id) ∧
    (∀ id, ∀ run ∈ memory.runs.get? id, ∃ version,
      (conduct newMemory calls).1.findSome? (createdBy id) = some version ∧
      run.stateVersion = nextVersion^[(conduct newMemory calls).1.countP (isUpdateOf id)] version ∧
      (InRange version → InRange (version + (conduct newMemory calls).1.countP (isUpdateOf id)) →
        run.stateVersion = version + (conduct newMemory calls).1.countP (isUpdateOf id))) ∧
    (∀ runID, ∃ runs index, ((Operation.rebuildProjection runID).on memory).2 =
        { memory with runs := runs, requestIndex := index } ∧
      ∀ id, runs.get? id = memory.runs.get? id) ∧
    (∀ run version audits outbox updated next,
      (Operation.updateRunAtomic run version audits outbox).on memory = (.ok updated, next) →
      (∃ current ∈ memory.runs.get? run.id, current.stateVersion = version) ∧
      updated = run.advanced version ∧
      next.runs.get? run.id = some updated ∧
      Appends memory next audits (Memory.appendProjection outbox updated)) ∧
    (∀ run audits outbox answered next,
      (Operation.createRunAtomic run audits outbox).on memory = (.ok (answered, true), next) →
      memory.runs.get? run.id = none ∧ next.runs.get? run.id = some run ∧
      Appends memory next audits (Memory.appendProjection outbox run)) ∧
    ∀ call error, (MemoryCall.answer memory call).1 = .error error →
      (MemoryCall.answer memory call).2 = memory := by
  intro memory
  have projected : ∀ id, newMemory.projections.get? id = newMemory.runs.get? id := fun _ => rfl
  have inStep : ∀ id, InStep id none (conduct newMemory calls).1 memory :=
    fun id => inStep_conduct (projected id) calls
  refine ⟨fun id => (inStep id).projected, ?versions, ?rebuilt, ?updated, ?created,
    fun call error => call.eq_of_error⟩
  case versions =>
    intro id run found
    have versions := (inStep id).versions
    rw [Option.mem_def.mp found, Option.map_some, Option.map_none, Option.none_or, eq_comm,
      Option.map_eq_some_iff] at versions
    obtain ⟨version, created, eq⟩ := versions
    exact ⟨version, created, eq.symm, fun inRange fits =>
      eq.symm.trans (iterate_nextVersion inRange _ fits)⟩
  case rebuilt =>
    intro runID
    have same := fun id => ((inStep id).rebuildProjection runID).1
    rcases rebuildProjection_cases memory runID with unchanged | ⟨projection, -, rebuilt⟩
    · exact ⟨memory.runs, memory.requestIndex, unchanged, fun _ => rfl⟩
    · rw [rebuilt] at same
      exact ⟨_, _, rebuilt, same⟩
  case updated =>
    intro run version audits outbox updated next stored
    have performed := StoreCall.on_execute memory (.updateRunAtomic run version audits outbox)
    have committed := eq_ok_of_answerOf (performed.symm.trans stored)
    obtain ⟨current, found, expected⟩ := Memory.exists_of_updateRunAtomic committed
    obtain ⟨rfl, rfl⟩ := Memory.eq_of_updateRunAtomic committed
    refine ⟨⟨current, found, expected⟩, rfl, ?_, appends_appendAtomic rfl rfl⟩
    rw [Memory.runs_appendAtomic]
    exact GoMap.get?_set_self _ _ _
  case created =>
    intro run audits outbox answered next stored
    have performed := StoreCall.on_execute memory (.createRunAtomic run audits outbox)
    rcases Memory.createRunAtomic_cases (eq_ok_of_answerOf (performed.symm.trans stored)) with
      ⟨⟨⟩, -⟩ | ⟨-, rfl, -, absent, rfl⟩
    refine ⟨absent, ?_, appends_appendAtomic rfl rfl⟩
    rw [Memory.runs_appendAtomic]
    exact GoMap.get?_set_self _ _ _

end Themisy.Store
