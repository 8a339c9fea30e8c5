import Themisy.Application.Outbox

/-!
# No release start is lost

Any number of calls of `start` and of `RecoverPendingWorkflows` share one store,
interleave arbitrarily, crash, and see operations fail before or after their effect.

The store has at most one run for each request identifier. Every run which was
created has a request for its workflow in the outbox, and a request is marked as
published only after the workflow of its own run was started. The latter rests on
the identifiers of the requests: the store finds a request by its identifier, so
the random identifiers which are issued must not repeat.
-/

namespace Themisy

namespace Store.Memory

open Domain

variable {memory next : Memory} {id : String} {publishedAt : Time}

@[simp]
theorem outbox_appendAtomic (audits : List AuditEvent) (outbox : List OutboxEvent) :
    (memory.appendAtomic audits outbox).outbox = memory.outbox ++ outbox := by
  rcases memory.exists_appendAtomic_eq audits outbox with ⟨table, eq⟩
  rw [eq]

@[simp]
theorem runByRequestID_appendAtomic (audits : List AuditEvent) (outbox : List OutboxEvent) :
    (memory.appendAtomic audits outbox).runByRequestID = memory.runByRequestID := by
  rcases memory.exists_appendAtomic_eq audits outbox with ⟨table, eq⟩
  rw [eq]

theorem mem_of_markPublished {events marked : List OutboxEvent}
    (published : markPublished id publishedAt events = .ok marked) :
    (∀ event ∈ marked, ∃ earlier ∈ events, event.id = earlier.id ∧
      event.aggregateID = earlier.aggregateID ∧ event.eventType = earlier.eventType) ∧
    ∀ event ∈ events, event ∈ marked ∨
      event.id = id ∧ { event with publishedAt := some publishedAt } ∈ marked := by
  induction events generalizing marked with
  | nil => cases published
  | cons first rest ih =>
    unfold markPublished at published
    split at published
    · next same =>
      cases published
      constructor
      · intro event member
        rcases List.mem_cons.mp member with rfl | later
        · exact ⟨first, List.mem_cons_self, rfl, rfl, rfl⟩
        · exact ⟨event, List.mem_cons_of_mem _ later, rfl, rfl, rfl⟩
      · intro event member
        rcases List.mem_cons.mp member with rfl | later
        · exact Or.inr ⟨same, List.mem_cons_self⟩
        · exact Or.inl (List.mem_cons_of_mem _ later)
    · cases markedRest : markPublished id publishedAt rest with
      | error error =>
        rw [markedRest] at published
        cases published
      | ok markedEvents =>
        rw [markedRest] at published
        cases published
        rcases ih markedRest with ⟨back, forth⟩
        constructor
        · intro event member
          rcases List.mem_cons.mp member with rfl | later
          · exact ⟨event, List.mem_cons_self, rfl, rfl, rfl⟩
          · rcases back event later with ⟨earlier, found, same⟩
            exact ⟨earlier, List.mem_cons_of_mem _ found, same⟩
        · intro event member
          rcases List.mem_cons.mp member with rfl | later
          · exact Or.inl List.mem_cons_self
          · rcases forth event later with kept | ⟨same, changed⟩
            · exact Or.inl (List.mem_cons_of_mem _ kept)
            · exact Or.inr ⟨same, List.mem_cons_of_mem _ changed⟩

end Store.Memory

variable {run : ReleaseRun} {id runID : String}

namespace Application

open Domain Store Interaction

def releaseStore : Machine requests where
  World := Memory
  answers := StoreEffect fun _ _ => True

section Effects

variable {memory next : Memory} {op : Op} {answer : op.Res}

section

variable (effect : StoreEffect (fun _ _ => True) memory op answer next)

include effect

/-- What an operation does to the runs and to the outbox. -/
theorem storeEffect_cases :
    (next.runs = memory.runs ∧ next.runByRequestID = memory.runByRequestID ∧
        next.outbox = memory.outbox) ∨
      (∃ run audits outbox, op = .createRunAtomic run audits outbox ∧
        memory.createRunAtomic run audits outbox = .ok ((run, true), next)) ∨
      ∃ id publishedAt outbox, op = .markOutboxPublished id publishedAt ∧
        Memory.markPublished id publishedAt memory.outbox = .ok outbox ∧
        next = { memory with outbox } := by
  cases op with
  | createRunAtomic run audits outbox =>
    rcases effect.1.eq_or with rfl | ⟨⟨found, created⟩, eq⟩
    · exact Or.inl ⟨rfl, rfl, rfl⟩
    · rcases Memory.createRunAtomic_cases eq with ⟨-, rfl, -⟩ | ⟨rfl, rfl, -⟩
      · exact Or.inl ⟨rfl, rfl, rfl⟩
      · exact Or.inr (Or.inl ⟨found, audits, outbox, rfl, eq⟩)
  | markOutboxPublished id publishedAt =>
    rcases effect.eq_or_of_write with rfl | eq
    · exact Or.inl ⟨rfl, rfl, rfl⟩
    · simp only [Memory.markOutboxPublished, bind_eq_ok] at eq
      rcases eq with ⟨outbox, published, returned⟩
      cases returned
      exact Or.inr (Or.inr ⟨id, publishedAt, outbox, rfl, published, rfl⟩)
  | savePlan | auditEvents | pendingOutboxByType =>
    rcases effect.eq_or with rfl | ⟨_, ⟨⟩⟩ <;> exact Or.inl ⟨rfl, rfl, rfl⟩
  | getPlan id | getRun id =>
    rw [effect.eq_of_read]
    exact Or.inl ⟨rfl, rfl, rfl⟩
  | listRuns =>
    obtain ⟨order, performed⟩ := effect
    rcases performed.eq_or with rfl | ⟨_, ⟨⟩⟩ <;> exact Or.inl ⟨rfl, rfl, rfl⟩
  | now | newID _ | iterationOrder | startRelease _ | signalApproval _ _ | signalControl _ _ _ =>
    cases effect
    exact Or.inl ⟨rfl, rfl, rfl⟩

theorem stored_of_shown
    (isShown : (id, run) ∈ shown ⟨op, answer⟩) : next.runs.get? id = some run := by
  cases op with
  | createRunAtomic requested audits outbox =>
    rcases answer with error | ⟨found, _ | _⟩
    · cases isShown
    · cases isShown
    · cases List.mem_singleton.mp isShown
      cases effect.1 with
      | returned eq =>
        rcases Memory.createRunAtomic_cases eq with ⟨impossible, -⟩ | ⟨-, rfl, -, -, rfl⟩
        · cases impossible
        · rw [Memory.runs_appendAtomic]
          exact GoMap.get?_set_self _ _ _
  | getRun key =>
    cases answer with
    | error error => cases isShown
    | ok found =>
      cases List.mem_singleton.mp isShown
      have read := effect.ok_of_read
      rw [effect.eq_of_read]
      unfold Memory.getRun at read
      split at read
      · next present =>
        cases read
        exact present
      · cases read
  | _ => cases isShown

theorem mem_of_listed (isListed : (id, runID) ∈ listed ⟨op, answer⟩) :
    ∃ event ∈ memory.outbox, event.eventType = workflowRequestedEvent ∧ event.id = id ∧
      event.aggregateID = runID := by
  cases op with
  | pendingOutboxByType eventType limit =>
    cases answer with
    | error error => cases isListed
    | ok events =>
      simp only [listed] at isListed
      split at isListed
      · next same =>
        subst same
        rcases List.mem_map.mp isListed with ⟨event, member, pair⟩
        cases pair
        cases effect with
        | returned eq =>
          cases eq
          have pending := List.mem_of_mem_take member
          simp only [List.mem_filter, decide_eq_true_eq] at pending
          rcases pending with ⟨present, -, untyped | sameType⟩
          · exact absurd untyped (by decide)
          · exact ⟨event, present, sameType, rfl, rfl⟩
      · cases isListed
  | _ => cases isListed

end

end Effects

section Ledger

variable {ι : Type}

/-- The identifiers which were issued for workflow requests, and to whom. -/
def issues (trace : List (ι × Event requests)) : List (ι × String) :=
  trace.flatMap fun entry => (issued entry.2).map (entry.1, ·)

/-- The issued identifiers are distinct, and new to the store. -/
def Fresh (start : Memory) (trace : List (ι × Event requests)) : Prop :=
  ((issues trace).map Prod.snd).Nodup ∧
    ∀ issue ∈ issues trace, ∀ event ∈ start.outbox, event.id ≠ issue.2

instance (start : Memory) (trace : List (ι × Event requests)) : Decidable (Fresh start trace) :=
  inferInstanceAs (Decidable (_ ∧ _))

theorem Fresh.of_append {start : Memory} {trace later : List (ι × Event requests)}
    (fresh : Fresh start (trace ++ later)) : Fresh start trace := by
  rcases fresh with ⟨distinct, unused⟩
  simp only [issues, List.flatMap_append, List.map_append] at distinct unused
  refine ⟨distinct.of_append_left, ?_⟩
  intro issue member
  exact unused issue (List.mem_append_left _ member)

variable [DecidableEq ι]

theorem mem_issues {trace : List (ι × Event requests)} {process : ι} :
    (process, id) ∈ issues trace ↔ Knows issued (Pool.localTrace trace process) id := by
  simp only [issues, Knows, List.mem_flatMap, List.mem_map, Discipline.mem_localTrace]
  constructor
  · rintro ⟨⟨other, event⟩, member, told, isIssued, pair⟩
    cases pair
    exact ⟨event, member, isIssued⟩
  · rintro ⟨event, member, isIssued⟩
    exact ⟨(process, event), member, id, isIssued, rfl⟩

/-- Every run is found by its request identifier. -/
def Indexed (memory : Memory) : Prop :=
  ∀ id run, memory.runs.get? id = some run → memory.runByRequestID.get? run.requestID = some id

/-- Where a request for the workflow of a run comes from. -/
def Origin (start : Memory) (trace : List (ι × Event requests)) (id runID : String) : Prop :=
  (∃ event ∈ start.outbox, event.id = id) ∨ ∃ process,
    Knows issued (Pool.localTrace trace process) id ∧
      Knows filed (Pool.localTrace trace process) (id, runID)

/-- The event is a request for the workflow of the run, unpublished unless it was started. -/
structure Requests (trace : List (ι × Event requests)) (id : String) (run : ReleaseRun)
    (event : OutboxEvent) : Prop where
  aggregate : event.aggregateID = id
  sameType : event.eventType = workflowRequestedEvent
  filing : ∃ process, Knows issued (Pool.localTrace trace process) event.id ∧
    Knows filed (Pool.localTrace trace process) (event.id, id)
  state : event.publishedAt = none ∨
    ∃ process, Knows started (Pool.localTrace trace process) run

/-- What holds of the store and of what the publishers have been told. -/
structure Ledger (start memory : Memory) (trace : List (ι × Event requests)) : Prop where
  indexed : Indexed memory
  single : ∀ process request other, Knows filed (Pool.localTrace trace process) request →
    Knows filed (Pool.localTrace trace process) other → request = other
  origin : ∀ event ∈ memory.outbox, event.eventType = workflowRequestedEvent →
    Origin start trace event.id event.aggregateID
  listed : ∀ process id runID, Knows listed (Pool.localTrace trace process) (id, runID) →
    Origin start trace id runID
  shown : ∀ process id run, Knows shown (Pool.localTrace trace process) (id, run) →
    memory.runs.get? id = some run
  requested : ∀ id run, memory.runs.get? id = some run → start.runs.get? id = none →
    ∃ event ∈ memory.outbox, Requests trace id run event

variable {start memory next : Memory} {trace : List (ι × Event requests)}

/-- Two requests with one identifier, one of which was filed by a publisher, are for one run. -/
theorem Ledger.eq_of_origin (ledger : Ledger start memory trace) (fresh : Fresh start trace)
    {process : ι} {other : String} (issue : Knows issued (Pool.localTrace trace process) id)
    (request : Knows filed (Pool.localTrace trace process) (id, runID))
    (origin : Origin start trace id other) : other = runID := by
  rcases origin with ⟨event, member, same⟩ | ⟨second, issueAgain, requestAgain⟩
  · exact absurd same (fresh.2 _ (mem_issues.mpr issue) event member)
  · have same : (process, id) = (second, id) :=
      List.inj_on_of_nodup_map fresh.1 (mem_issues.mpr issue) (mem_issues.mpr issueAgain) rfl
    cases same
    cases ledger.single process _ _ request requestAgain
    rfl

section Step

variable {process : ι} {op : Op} {answer : op.Res}

/-- What a process knows after a step: what it knew, and what its own answer tells. -/
theorem knows_step {Fact : Type} {read : Event requests → List Fact} {other : ι} {fact : Fact} :
    Knows read (Pool.localTrace (trace ++ [(process, ⟨op, answer⟩)]) other) fact ↔
      Knows read (Pool.localTrace trace other) fact ∨
        other = process ∧ fact ∈ read ⟨op, answer⟩ := by
  by_cases same : process = other
  · subst same
    rw [Pool.localTrace_append_self, knows_append]
    simp
  · rw [Pool.localTrace_append_of_ne _ same]
    simp [Ne.symm same]

theorem Origin.step (origin : Origin start trace id runID) :
    Origin start (trace ++ [(process, ⟨op, answer⟩)]) id runID := by
  rcases origin with old | ⟨filing, issue, request⟩
  · exact Or.inl old
  · exact Or.inr ⟨filing, knows_step.mpr (Or.inl issue), knows_step.mpr (Or.inl request)⟩

theorem Requests.step {event : OutboxEvent} (requested : Requests trace id run event) :
    Requests (trace ++ [(process, ⟨op, answer⟩)]) id run event where
  aggregate := requested.aggregate
  sameType := requested.sameType
  filing := by
    rcases requested.filing with ⟨filing, issue, request⟩
    exact ⟨filing, knows_step.mpr (Or.inl issue), knows_step.mpr (Or.inl request)⟩
  state := by
    rcases requested.state with unpublished | ⟨starting, hasStarted⟩
    · exact Or.inl unpublished
    · exact Or.inr ⟨starting, knows_step.mpr (Or.inl hasStarted)⟩

/-- At most one request was filed by each publisher. -/
theorem Ledger.single_step (ledger : Ledger start memory trace)
    (warranted : Warranted (Pool.localTrace trace process) op) (other : ι)
    (request second : String × String)
    (known : Knows filed (Pool.localTrace (trace ++ [(process, ⟨op, answer⟩)]) other) request)
    (knownAgain : Knows filed (Pool.localTrace (trace ++ [(process, ⟨op, answer⟩)]) other)
      second) : request = second := by
  rw [knows_step] at known knownAgain
  by_cases filing : filed ⟨op, answer⟩ = []
  · rw [filing] at known knownAgain
    simp only [List.not_mem_nil, and_false, or_false] at known knownAgain
    exact ledger.single other request second known knownAgain
  · cases op with
    | createRunAtomic run audits outbox =>
      rcases warranted with ⟨first, id, now, issue, rfl⟩
      simp only [filed, List.map_cons, List.map_nil, List.mem_singleton] at known knownAgain
      rcases known with earlier | ⟨rfl, rfl⟩ <;> rcases knownAgain with again | ⟨same, rfl⟩
      · exact ledger.single other request second earlier again
      · subst same
        exact absurd earlier (first request)
      · exact absurd again (first second)
      · rfl
    | _ => exact absurd rfl filing

theorem runs_of_effect (effect : StoreEffect (fun _ _ => True) memory op answer next)
    (stored : memory.runs.get? id = some run) : next.runs.get? id = some run := by
  rcases storeEffect_cases effect with ⟨same, -⟩ | ⟨created, audits, outbox, -, eq⟩ |
    ⟨_, _, _, -, -, rfl⟩
  · rw [same]
    exact stored
  · rcases Memory.createRunAtomic_cases eq with ⟨impossible, -⟩ | ⟨-, -, -, absent, rfl⟩
    · cases impossible
    · rw [Memory.runs_appendAtomic, Memory.insertRun, GoMap.get?_set]
      split
      · next same =>
        rw [same, absent] at stored
        cases stored
      · exact stored
  · exact stored

section

variable (ledger : Ledger start memory trace)

include ledger

theorem Ledger.indexed_step
    (effect : StoreEffect (fun _ _ => True) memory op answer next) : Indexed next := by
  rcases storeEffect_cases effect with ⟨runs, index, -⟩ | ⟨created, audits, outbox, -, eq⟩ |
    ⟨_, _, _, -, -, rfl⟩
  · intro id run stored
    rw [runs] at stored
    rw [index]
    exact ledger.indexed id run stored
  · rcases Memory.createRunAtomic_cases eq with ⟨impossible, -⟩ | ⟨-, -, unclaimed, -, rfl⟩
    · cases impossible
    · intro id run stored
      rw [Memory.runs_appendAtomic, Memory.insertRun, GoMap.get?_set] at stored
      rw [Memory.runByRequestID_appendAtomic, Memory.insertRun, GoMap.get?_set]
      split at stored
      · next same =>
        cases stored
        rw [if_pos rfl, same]
      · have indexed := ledger.indexed id run stored
        have different : run.requestID ≠ created.requestID := by
          intro same
          rw [same, unclaimed] at indexed
          cases indexed
        rw [if_neg different]
        exact indexed
  · exact ledger.indexed

theorem Ledger.origin_step (warranted : Warranted (Pool.localTrace trace process) op)
    (effect : StoreEffect (fun _ _ => True) memory op answer next) (event : OutboxEvent)
    (member : event ∈ next.outbox) (sameType : event.eventType = workflowRequestedEvent) :
    Origin start (trace ++ [(process, ⟨op, answer⟩)]) event.id event.aggregateID := by
  rcases storeEffect_cases effect with ⟨-, -, same⟩ | ⟨created, audits, outbox, rfl, eq⟩ |
    ⟨_, _, _, -, published, rfl⟩
  · rw [same] at member
    exact (ledger.origin event member sameType).step
  · rcases warranted with ⟨-, id, now, issue, rfl⟩
    rcases Memory.createRunAtomic_cases eq with ⟨impossible, -⟩ | ⟨-, -, -, -, rfl⟩
    · cases impossible
    · rw [Memory.outbox_appendAtomic, Memory.appendProjection] at member
      rcases List.mem_append.mp member with earlier | new
      · exact (ledger.origin event earlier sameType).step
      · simp only [List.singleton_append, List.mem_cons, List.not_mem_nil, or_false] at new
        rcases new with rfl | rfl
        · exact Or.inr ⟨process, knows_step.mpr (Or.inl issue),
            knows_step.mpr (Or.inr ⟨rfl, List.mem_singleton_self _⟩)⟩
        · have different : "release.run.project" ≠ workflowRequestedEvent := by decide
          exact absurd sameType different
  · rcases (Memory.mem_of_markPublished published).1 event member with
      ⟨earlier, present, id, aggregate, eventType⟩
    rw [id, aggregate]
    exact (ledger.origin earlier present (eventType.symm.trans sameType)).step

/-- The run of the request which a publisher marks is the one whose workflow it has started. -/
theorem Ledger.started_of_mark (fresh : Fresh start trace) {publishedAt : Time}
    (warranted : Warranted (Pool.localTrace trace process) (.markOutboxPublished id publishedAt))
    {filing : ι} (issue : Knows issued (Pool.localTrace trace filing) id)
    (request : Knows filed (Pool.localTrace trace filing) (id, runID))
    (stored : memory.runs.get? runID = some run) :
    Knows started (Pool.localTrace trace process) run := by
  rcases warranted with ⟨starting, startingID, hasStarted, isShown, cause⟩
  have origin : Origin start trace id startingID := by
    rcases cause with ⟨ownIssue, ownRequest⟩ | isListed
    · exact Or.inr ⟨process, ownIssue, ownRequest⟩
    · exact ledger.listed process id startingID isListed
  have same := ledger.eq_of_origin fresh issue request origin
  subst same
  have found := ledger.shown process startingID starting isShown
  cases found.symm.trans stored
  exact hasStarted

section

variable (fresh : Fresh start trace)
  (warranted : Warranted (Pool.localTrace trace process) op)
  (effect : StoreEffect (fun _ _ => True) memory op answer next)

include fresh warranted effect

theorem Ledger.requested_step (id : String)
    (run : ReleaseRun) (stored : next.runs.get? id = some run)
    (new : start.runs.get? id = none) :
    ∃ event ∈ next.outbox, Requests (trace ++ [(process, ⟨op, answer⟩)]) id run event := by
  rcases storeEffect_cases effect with ⟨runs, -, same⟩ | ⟨created, audits, outbox, rfl, eq⟩ |
    ⟨marked, publishedAt, outbox, rfl, published, rfl⟩
  · rw [runs] at stored
    rw [same]
    rcases ledger.requested id run stored new with ⟨event, member, requested⟩
    exact ⟨event, member, requested.step⟩
  · rcases warranted with ⟨-, outboxID, now, issue, rfl⟩
    rcases Memory.createRunAtomic_cases eq with ⟨impossible, -⟩ | ⟨-, -, -, -, rfl⟩
    · cases impossible
    · rw [Memory.runs_appendAtomic, Memory.insertRun, GoMap.get?_set] at stored
      split at stored
      · next same =>
        cases stored
        subst same
        refine ⟨startOutbox outboxID run now, ?_, rfl, rfl, ⟨process, ?_, ?_⟩, Or.inl rfl⟩
        · simp [Memory.appendProjection]
        · exact knows_step.mpr (Or.inl issue)
        · exact knows_step.mpr (Or.inr ⟨rfl, List.mem_singleton_self _⟩)
      · rcases ledger.requested id run stored new with ⟨event, member, requested⟩
        rw [Memory.outbox_appendAtomic]
        exact ⟨event, List.mem_append_left _ member, requested.step⟩
  · rcases ledger.requested id run stored new with ⟨event, member, requested⟩
    rcases (Memory.mem_of_markPublished published).2 event member with kept | ⟨sameID, changed⟩
    · exact ⟨event, kept, requested.step⟩
    · subst sameID
      rcases requested.filing with ⟨filing, issue, request⟩
      have hasStarted := ledger.started_of_mark fresh warranted issue request stored
      have later : Requests trace id run { event with publishedAt := some publishedAt } :=
        { requested with state := Or.inr ⟨process, hasStarted⟩ }
      exact ⟨_, changed, later.step⟩

theorem Ledger.step :
    Ledger start next (trace ++ [(process, ⟨op, answer⟩)]) where
  indexed := ledger.indexed_step effect
  single := ledger.single_step warranted
  origin := ledger.origin_step warranted effect
  listed := by
    intro other id runID known
    rcases knows_step.mp known with earlier | ⟨-, isListed⟩
    · exact (ledger.listed other id runID earlier).step
    · rcases mem_of_listed effect isListed with ⟨event, member, sameType, rfl, rfl⟩
      exact (ledger.origin event member sameType).step
  shown := by
    intro other id run known
    rcases knows_step.mp known with earlier | ⟨-, isShown⟩
    · exact runs_of_effect effect (ledger.shown other id run earlier)
    · exact stored_of_shown effect isShown
  requested := ledger.requested_step fresh warranted effect

end

end

end Step

/-- What holds of the starts in every reachable pool. -/
structure StartsKept (start : Memory) (publishers : ι → Publisher)
    (pool : Pool releaseStore ι (Except Failure Response ⊕ ℕ × Option ControlError)) : Prop where
  /-- There is at most one run for each request identifier. -/
  unique : ∀ id other run second, (Memory.runs pool.world).get? id = some run →
    (Memory.runs pool.world).get? other = some second → run.requestID = second.requestID →
    id = other
  /-- The request for the workflow of a created run is unpublished, or the workflow was started. -/
  requested : ∀ id run, (Memory.runs pool.world).get? id = some run →
    start.runs.get? id = none →
    (∃ event ∈ Memory.outbox pool.world, event.aggregateID = id ∧
        event.eventType = workflowRequestedEvent ∧ event.publishedAt = none) ∨
      ∃ process other, (process, ⟨Op.startRelease other, .ok ()⟩) ∈ pool.trace ∧
        other.workflowID = run.workflowID
  /-- A `start` which reports no created run has not asked for a workflow to be started. -/
  unstarted : ∀ process releases request plan outcome,
    publishers process = .start releases request plan →
    pool.returned process = some (.inl outcome) → reportsCreated outcome = false →
    ∀ run answer, (process, ⟨Op.startRelease run, answer⟩) ∉ pool.trace

variable {publishers : ι → Publisher}
  {pool : Pool releaseStore ι (Except Failure Response ⊕ ℕ × Option ControlError)}

theorem ledger_of_reachable (indexed : Indexed start)
    (reachable : Pool.Reachable (fun process => (publishers process).program) start pool) :
    Fresh start pool.trace → Ledger start pool.world pool.trace := by
  have allowed : ∀ world op answer next, releaseStore.answers world op answer next → True :=
    fun _ _ _ _ _ => trivial
  apply reachable.invariant allowed fun memory trace =>
    Fresh start trace → Ledger start memory trace
  · intro _
    have untold : ∀ {Fact : Type} {read : Event requests → List Fact} {process : ι} {fact : Fact},
        ¬Knows read (Pool.localTrace [] process) fact := by
      rintro _ _ _ _ ⟨event, member, -⟩
      cases member
    exact
      { indexed
        single := fun _ _ _ known => absurd known untold
        origin := fun event member _ => Or.inl ⟨event, member, rfl⟩
        listed := fun _ _ _ known => absurd known untold
        shown := fun _ _ _ known => absurd known untold
        requested := by
          intro id run stored new
          rw [new] at stored
          cases stored }
  · intro memory trace process program op next answer after held run requested answered fresh
    have warranted := ((publishers process).warranted.of_runs (fun _ _ _ _ _ => trivial) run).2
      op next requested
    exact (held fresh.of_append).step fresh.of_append warranted answered

theorem mem_trace_of_started {process : ι}
    (knows : Knows started (Pool.localTrace trace process) run) :
    (process, ⟨Op.startRelease run, .ok ()⟩) ∈ trace := by
  rcases knows with ⟨⟨op, answer⟩, member, told⟩
  cases op with
  | startRelease other =>
    rcases answer with message | ⟨⟩
    · cases told
    · cases List.mem_singleton.mp told
      exact Discipline.mem_localTrace.mp member
  | _ => cases told

/--
Any number of calls of `start` and `RecoverPendingWorkflows` over one store,
interleaved and crashing arbitrarily, with failing operations, neither lose nor
double a release, provided that the identifiers which are issued for workflow
requests do not repeat.
-/
theorem releaseStarts_kept (publishers : ι → Publisher) (start : Memory) (indexed : Indexed start)
    (pool : Pool releaseStore ι (Except Failure Response ⊕ ℕ × Option ControlError))
    (reachable : Pool.Reachable (fun process => (publishers process).program) start pool)
    (fresh : Fresh start pool.trace) : StartsKept start publishers pool := by
  have ledger := ledger_of_reachable indexed reachable fresh
  constructor
  case unique =>
    intro id other run second stored storedAgain same
    have first := ledger.indexed id run stored
    rw [same, ledger.indexed other second storedAgain] at first
    exact (Option.some.inj first).symm
  case requested =>
    intro id run stored new
    rcases ledger.requested id run stored new with ⟨event, member, requests⟩
    rcases requests.state with unpublished | ⟨process, knows⟩
    · exact Or.inl ⟨event, member, requests.aggregate, requests.sameType, unpublished⟩
    · exact Or.inr ⟨process, run, mem_trace_of_started knows, rfl⟩
  case unstarted =>
    intro process releases request plan outcome publisher returned unreported run answer member
    have allowed : ∀ world op answer next, releaseStore.answers world op answer next → True :=
      fun _ _ _ _ _ => trivial
    rcases reachable.localRun allowed process with ⟨rest, ran, current⟩
    rw [← current _ (Pool.processes_of_returned returned)] at ran
    have reported := ((publishers process).warranted.of_runs (fun _ _ _ _ _ => trivial) ran).1
      _ rfl unreported
    cases reported _ (Discipline.mem_localTrace.mpr member)

end Ledger

/-- A store which answers at once and numbers the identifiers which it issues. -/
def number : Strategy requests Memory
  | memory, .newID kind => (kind ++ "_" ++ toString memory.outbox.length, memory)
  | memory, op => serve (fun _ _ => True) memory op

theorem number_answers (memory : Memory) (op : Op) :
    releaseStore.answers memory op (number memory op).1 (number memory op).2 := by
  cases op with
  | newID kind => rfl
  | createRunAtomic run audits outbox =>
    simp only [number, serve, if_true]
    exact ⟨performs_answerOf _ _, fun _ _ => trivial⟩
  | getPlan id | getRun id | markOutboxPublished id publishedAt => exact performs_answerOf _ _
  | listRuns => exact ⟨.stored, .returned rfl⟩
  | savePlan | auditEvents | pendingOutboxByType => exact .returned rfl
  | now | iterationOrder | startRelease _ | signalApproval _ _ | signalControl _ _ _ => rfl

/-- A release is started twice, and the recovery runs in between. -/
def startTwice (releases : Releases) (request : ReleaseRequest) (plan : ReleasePlan) :
    Fin 3 → Publisher
  | 1 => .recover 10
  | _ => .start releases request plan

def recovered (publishers : Fin 3 → Publisher) :
    Pool releaseStore (Fin 3) (Except Failure Response ⊕ ℕ × Option ControlError) :=
  (((Pool.initial (fun process => (publishers process).program) newMemory).play
    number 6 0).play number 20 1).play number 20 2

theorem reachable_recovered (publishers : Fin 3 → Publisher) :
    Pool.Reachable (fun process => (publishers process).program) newMemory
      (recovered publishers) :=
  (((Pool.reachable_initial _ _).play number_answers 6 0).play number_answers 20 1).play
    number_answers 20 2

theorem indexed_newMemory : Indexed newMemory := by
  intro id run stored
  cases stored

/-- The recovery starts the workflow once, and the second start reports no created run. -/
theorem releaseStarts_kept_recovered :
    let intent := Planning.stagingRelease ["api"]
    ∃ (releases : Releases) (plan : ReleasePlan)
      (pool : Pool releaseStore (Fin 3) (Except Failure Response ⊕ ℕ × Option ControlError)),
      let publishers := startTwice releases (Planning.legacyRequestFromIntent intent) plan
      Planning.new default .stored Planning.catalog = .ok releases.planner ∧ Indexed newMemory ∧
      Pool.Reachable (fun process => (publishers process).program) newMemory pool ∧
      Fresh newMemory pool.trace ∧ StartsKept newMemory publishers pool ∧
      (pool.trace.filter fun entry => entry.2.1.isStart).map Prod.fst = [1] ∧
      ∃ outcome, pool.returned 2 = some (.inl outcome) ∧ reportsCreated outcome = false := by
  intro intent
  have evaluated : (do
      let planner ← Planning.new default .stored Planning.catalog
      let plan ← planner.planIntent default .stored 1 intent
      let pool := recovered
        (startTwice ⟨default, planner⟩ (Planning.legacyRequestFromIntent intent) plan)
      return (decide (Fresh newMemory pool.trace),
        (pool.trace.filter fun entry => entry.2.1.isStart).map Prod.fst,
        ((pool.returned 2).bind Sum.getLeft?).map reportsCreated)) =
          Except.ok (true, [1], some false) := by
    decide +kernel
  simp only [bind_eq_ok] at evaluated
  rcases evaluated with ⟨planner, made, plan, -, evaluated⟩
  have outcomes := Except.ok.inj evaluated
  simp only [Prod.mk.injEq, decide_eq_true_eq, Option.map_eq_some_iff, Option.bind_eq_some_iff,
    Sum.getLeft?_eq_some_iff] at outcomes
  rcases outcomes with ⟨fresh, starts, outcome, ⟨value, returned, rfl⟩, unreported⟩
  have reachable := reachable_recovered
    (startTwice ⟨default, planner⟩ (Planning.legacyRequestFromIntent intent) plan)
  exact ⟨⟨default, planner⟩, plan, _, made, indexed_newMemory, reachable, fresh,
    releaseStarts_kept _ _ indexed_newMemory _ reachable fresh, starts, outcome, returned,
    unreported⟩

end Application

end Themisy
