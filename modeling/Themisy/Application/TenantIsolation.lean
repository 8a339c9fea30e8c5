import Themisy.Application.ControlPlane
import Themisy.Workflow.Decisions

/-!
# Tenants see their own resources

Any number of callers use the control plane concurrently, each authenticated as some
tenant. Their calls of the store interleave with each other and with the activities
of running workflows, and may fail or be lost.

An operation returns what the store has told it: a run found under an identifier of
its tenant, or the run answered to a creation. The tenant of a stored run never
changes. The one answer which can cross tenants is that of a creation, since the
store finds runs by their request identifier alone.
-/

namespace Themisy.Application

open Domain Planning Store Interaction

/-- The tenant of a run; the empty tenant is the default one. -/
def runTenant (run : ReleaseRun) : String :=
  normalized run.tenantID "default"

def Summarizes (run : ReleaseRun) (summary : ApprovalSummary) : Prop :=
  summary.runID = run.id ∧ ∃ step ∈ run.steps, step.service = summary.service ∧
    step.approval = some summary.approval

/-- Where a response comes from, in terms of the answers of the store. -/
def Explained (tenant : String) : Response → History → Prop
  | .plan plan, _ => planTenant plan = tenant
  | .run run, history => ∃ id found, ⟨.getRun id, .ok found⟩ ∈ history ∧ runTenant found = tenant ∧
      ⟨.getRun id, .ok run⟩ ∈ history
  | .started run created, history => ∃ requested audits outbox, runTenant requested = tenant ∧
      ⟨.createRunAtomic requested audits outbox, .ok (run, created)⟩ ∈ history
  | .events events, history => ∃ id found, ⟨.getRun id, .ok found⟩ ∈ history ∧
      runTenant found = tenant ∧ ⟨.auditEvents id, .ok events⟩ ∈ history
  | .approvals summaries, history => ∃ runs, ⟨.listRuns, .ok runs⟩ ∈ history ∧
      ∀ summary ∈ summaries, summary.tenantID = tenant ∧
        ∃ run ∈ runs, runTenant run = tenant ∧ Summarizes run summary

/-- Responses are explained, also those which accompany an error. -/
abbrev Explains {α : Type} (tenant : String) (post : α → History → Prop)
    (history : History) (program : Call α) : Prop :=
  Settles (S := requests) (fun _ _ => True) (fun _ _ => True) (fun failure history =>
    ∀ response ∈ failure.response, Explained tenant response history) post history program

variable {authenticated runID actor id tenant : String} {intent : ReleaseIntent}
  {run found : ReleaseRun} {memory : Memory} {claimable : Memory → ReleaseRun → Prop}

section Local

variable {α β : Type} {tenant : String} {history : History}
  {post : α → History → Prop}

theorem refuse_explains {error : ControlError} : Explains tenant post history (refuse error) :=
  .throw fun _ impossible => by cases impossible

theorem returning_explains {result : Except ControlError β} {follow : β → Call α}
    (continues : ∀ value, result = .ok value → Explains tenant post history (follow value)) :
    Explains tenant post history (returning result >>= follow) := by
  cases result with
  | error error => exact refuse_explains
  | ok value => exact continues value rfl

theorem stored_explains {answer : Except StoreError β} {follow : β → Call α}
    (continues : ∀ value, answer = .ok value → Explains tenant post history (follow value)) :
    Explains tenant post history (stored answer >>= follow) :=
  returning_explains fun value eq => continues value (mapError_eq_ok.mp eq)

theorem signalled_explains {answer : Except String Unit} {follow : Unit → Call α}
    (continues : Explains tenant post history (follow ())) :
    Explains tenant post history (signalled answer >>= follow) :=
  returning_explains fun _ _ => continues

variable {follow : ReleaseRun → Call α} {plan : ReleasePlan} {approvalID : String}
  {roles : List String}

theorem getRun_explains
    (continues : ∀ run, Explains tenant post (history ++ [⟨.getRun id, .ok run⟩]) (follow run)) :
    Explains tenant post history (getRun id >>= follow) := by
  simp only [getRun, bind_assoc]
  refine .ask trivial fun answer _ => stored_explains ?_
  rintro run rfl
  exact continues run

theorem getForTenant_explains
    (continues : ∀ run, runTenant run = normalized authenticated "default" →
      Explains tenant post (history ++ [⟨.getRun id, .ok run⟩]) (follow run)) :
    Explains tenant post history (getForTenant authenticated id >>= follow) := by
  simp only [getForTenant, bind_assoc, pure_bind]
  exact getRun_explains fun run => returning_explains fun _ eq =>
    continues run (require_eq_ok.mp eq)

theorem explained_run (member : ⟨.getRun id, .ok found⟩ ∈ history)
    (same : runTenant found = tenant) :
    Explained tenant (.run run) (history ++ [⟨.getRun id, .ok run⟩]) :=
  ⟨id, found, List.mem_append_left _ member, same, by simp⟩

theorem bindTenant_eq_ok {requested bound : String}
    (eq : bindTenant authenticated requested = .ok bound) :
    bound = normalized authenticated "default" := by
  simp only [bindTenant] at eq
  split at eq
  · exact (Except.ok.inj eq).symm
  · split at eq
    · cases eq
    · next same =>
      cases eq
      exact not_not.mp same

theorem normalized_ne_empty {value : String} : normalized value "default" ≠ "" := by
  unfold normalized
  split <;> simp_all

theorem normalized_normalized (value : String) :
    normalized (normalized value "default") "default" = normalized value "default" := by
  rw [normalized, if_neg normalized_ne_empty]

theorem planTenant_of_planIntent {digest : Digest} {planner : Planner}
    {order : IterationOrder String} {now : Time}
    (planned : planner.planIntent digest order now intent = .ok plan) :
    planTenant plan = normalized intent.tenantID "default" := by
  have faithful := Planner.faithful_of_planIntent planned
  obtain ⟨changes, checked, -, -⟩ := Planner.exists_changes_of_planIntent planned
  simp only [Planner.checkIntent, bind_eq_ok, require_eq_ok, exists_const] at checked
  obtain ⟨-, -, changed, -⟩ := checked
  cases steps : plan.steps with
  | nil =>
    have none := faithful.ordered.oneStepEach.length_eq
    rw [steps] at none
    exact absurd (by simpa using none.symm) changed
  | cons step rest =>
    have tenant := faithful.tenant step (by simp [steps])
    simp only [planTenant, steps, tenant]
    exact normalized_normalized intent.tenantID

/-- A planned intent has a plan of its tenant, even when the plan could not be saved. -/
theorem planIntent_explains (releases : Releases)
    (bound : normalized intent.tenantID "default" = tenant) :
    Explains tenant (fun plan _ => planTenant plan = tenant) history
      (releases.planIntent intent) := by
  refine returning_explains fun _ _ => .ask trivial fun order _ => .ask trivial fun now _ => ?_
  refine returning_explains fun plan eq => .ask trivial fun answer _ => ?_
  have owned : planTenant plan = tenant := by
    rw [planTenant_of_planIntent (mapError_eq_ok.mp eq), bound]
  rcases answer with error | ⟨⟩
  · exact .throw fun response carried => by cases carried; exact owned
  · exact .pure owned

theorem startWorkflow_explains {outboxID : String}
    (created : ∀ later, Explained tenant (.started run true) (history ++ later)) :
    Explains tenant (Explained tenant) history
      (Releases.startWorkflow run outboxID) := by
  refine .ask trivial fun answer _ => ?_
  rcases answer with message | ⟨⟩
  · exact .throw fun response carried => by cases carried; exact created _
  · refine .ask trivial fun publishedAt _ => .ask trivial fun answer _ => ?_
    simp only [List.append_assoc]
    rcases answer with error | ⟨⟩
    · exact .throw fun response carried => by cases carried; exact created _
    · exact .pure (created _)

theorem start_explains (releases : Releases) {request : ReleaseRequest}
    (bound : normalized request.tenantID "default" = tenant) :
    Explains tenant (Explained tenant) history
      (releases.start request plan) := by
  refine .ask trivial fun validatedAt _ => returning_explains fun _ _ => ?_
  refine .ask trivial fun now _ => .ask trivial fun runID _ => ?_
  refine .ask trivial fun auditID _ => .ask trivial fun outboxID _ => ?_
  refine .ask trivial fun answer _ => stored_explains ?_
  rintro ⟨existing, created⟩ rfl
  have owned : runTenant (newRun runID now request plan) = tenant := by
    rw [runTenant, newRun, normalized_normalized, bound]
  cases created with
  | false =>
    exact .pure ⟨_, _, _, owned, List.mem_append_right _ (List.mem_singleton_self _)⟩
  | true =>
    exact startWorkflow_explains fun later => ⟨_, _, _, owned,
      List.mem_append_left _ (List.mem_append_right _ (List.mem_singleton_self _))⟩

/-- An operation which drops the response of a failure explains as much. -/
theorem withoutResponse_explains {program : Call α}
    (explains : Explains tenant post history program) :
    Explains tenant post history (withoutResponse program) := by
  refine Always.bind (Always.mono ?_ explains)
  rintro (failure | value) later result
  · exact Always.pure fun response impossible => by cases impossible
  · exact Always.pure result

theorem startIntent_explains (releases : Releases)
    (bound : normalized intent.tenantID "default" = tenant) :
    Explains tenant (Explained tenant) history
      (releases.startIntent intent) :=
  .bind (withoutResponse_explains (planIntent_explains releases bound)) fun _ _ _ =>
    start_explains releases bound

theorem decideApproval_explains {approve : Bool} (member : ⟨.getRun runID, .ok found⟩ ∈ history)
    (same : runTenant found = tenant) :
    Explains tenant (Explained tenant) history
      (decideApproval runID approvalID actor roles approve) := by
  refine returning_explains fun _ _ => getRun_explains fun run => returning_explains fun _ _ => ?_
  refine .ask trivial fun now _ => returning_explains fun _ _ => .ask trivial fun answer _ => ?_
  refine signalled_explains (getRun_explains fun last => .pure (explained_run ?_ same))
  simp [member]

theorem control_explains {action : String} (member : ⟨.getRun runID, .ok found⟩ ∈ history)
    (same : runTenant found = tenant) :
    Explains tenant (Explained tenant) history
      (control runID actor action) := by
  refine returning_explains fun _ _ => getRun_explains fun run => returning_explains fun _ _ => ?_
  refine .ask trivial fun answer _ => ?_
  refine signalled_explains (getRun_explains fun last => .pure (explained_run ?_ same))
  simp [member]

theorem revokeApprovalForTenant_explains (same : normalized authenticated "default" = tenant) :
    Explains tenant (Explained tenant) history
      (revokeApprovalForTenant authenticated runID approvalID actor roles) := by
  refine returning_explains fun _ _ => getForTenant_explains fun run owned => ?_
  refine returning_explains fun _ _ => returning_explains fun _ _ => .ask trivial fun answer _ => ?_
  refine signalled_explains (getRun_explains fun last => .pure ?_)
  exact explained_run (by simp) (owned.trans same)

theorem mem_pendingSummaries {runs : List ReleaseRun} {summary : ApprovalSummary}
    (member : summary ∈ pendingSummaries tenant runs) :
    summary.tenantID = tenant ∧ ∃ run ∈ runs, runTenant run = tenant ∧ Summarizes run summary := by
  obtain ⟨run, listed, summarized⟩ := List.mem_flatMap.mp member
  obtain ⟨runMem, owned⟩ := List.mem_filter.mp listed
  obtain ⟨step, stepMem, eq⟩ := List.mem_filterMap.mp summarized
  unfold pendingSummary at eq
  split at eq
  · next approval carried =>
    split at eq
    · cases eq
      exact ⟨rfl, run, runMem, of_decide_eq_true owned, rfl, step, stepMem, rfl, carried⟩
    · cases eq
  · cases eq

/-- Every operation of a tenant explains its responses. -/
theorem operation_explains (releases : Releases) (authenticated : String) (operation : Operation) :
    Explains (normalized authenticated "default")
      (Explained (normalized authenticated "default")) []
      (operation.program releases authenticated) := by
  have bound : ∀ {requested tenantID}, bindTenant authenticated requested = .ok tenantID →
      normalized tenantID "default" = normalized authenticated "default" := by
    intro requested tenantID eq
    rw [bindTenant_eq_ok eq, normalized_normalized]
  cases operation with
  | planIntent intent =>
    refine returning_explains fun tenantID eq => ?_
    exact .bind (planIntent_explains releases (bound eq)) fun plan _ owned => .pure owned
  | getPlan id =>
    refine .ask trivial fun answer _ => stored_explains fun plan _ => ?_
    refine returning_explains fun _ eq => .pure ?_
    have owned : planTenant plan = normalized authenticated "default" := require_eq_ok.mp eq
    exact owned
  | startIntent intent =>
    exact returning_explains fun tenantID eq => startIntent_explains releases (bound eq)
  | get runID =>
    refine getForTenant_explains fun run owned => .pure ⟨runID, run, ?_, owned, ?_⟩
    · simp
    · simp
  | events runID =>
    refine getForTenant_explains fun run owned => .ask trivial fun answer _ => ?_
    refine stored_explains ?_
    rintro events rfl
    exact .pure ⟨runID, run, by simp, owned, by simp⟩
  | control runID actor action =>
    exact getForTenant_explains fun run owned => control_explains (by simp) owned
  | listPendingApprovals =>
    refine .ask trivial fun answer _ => stored_explains ?_
    rintro runs rfl
    exact .pure ⟨runs, by simp, fun summary member => mem_pendingSummaries member⟩
  | decideApproval runID approvalID actor roles approve =>
    exact getForTenant_explains fun run owned => decideApproval_explains (by simp) owned
  | revokeApproval runID approvalID actor roles => exact revokeApprovalForTenant_explains rfl

end Local

def Owns (memory : Memory) (tenant id : String) : Prop :=
  ∃ run ∈ memory.runs.get? id, runTenant run = tenant

instance (memory : Memory) (tenant id : String) : Decidable (Owns memory tenant id) :=
  inferInstanceAs (Decidable (∃ run ∈ memory.runs.get? id, runTenant run = tenant))

/-- Runs are stored under their identifiers, and audit events under their correlations. -/
structure Consistent (memory : Memory) : Prop where
  keyed : ∀ id run, memory.runs.get? id = some run → run.id = id
  correlated : ∀ id, ∀ event ∈ memory.auditEvents id, event.correlationID = id

/-- The update of a run leaves its tenant alone. -/
def KeepsTenant (memory : Memory) : Workflow.Activities.Op → Prop
  | .updateRunAtomic run _ _ _ => ∀ current, memory.runs.get? run.id = some current →
      current.tenantID = run.tenantID
  | _ => True

/--
The updates of a workflow leave the tenant alone, since it persists only runs of
the identifier and the tenant which it has started with.
-/
theorem keepsTenant_of_workflow {machine : Machine Workflow.Release.requests}
    (allowed : ∀ world op answer next, machine.answers world op answer next →
      Workflow.Release.Legal op answer) {digest : Digest} {order : IterationOrder Scheduler.Step}
    {input : ReleaseRun} {start last : machine.World}
    {events : List (Event Workflow.Release.requests)}
    {rest : Prog Workflow.Release.requests Workflow.Release.Exit}
    (run : Runs machine start (Workflow.Release.releaseWorkflow digest order input) events last
      rest)
    {persist : Workflow.PersistInput} {next : _ → Prog Workflow.Release.requests _}
    (requested : rest.head = .request (.persistRun persist) next)
    (stored : ∀ current, memory.runs.get? input.id = some current →
      current.tenantID = input.tenantID) (version : ℤ) (audits : List AuditEvent)
    (outbox : List OutboxEvent) :
    KeepsTenant memory (.updateRunAtomic persist.run version audits outbox) := by
  obtain ⟨location, reached, shown⟩ :=
    Workflow.Release.exists_reaches_of_shows allowed run (.persists requested)
  have outline := reached.outline _ shown
  have sameID := congrArg ReleaseRun.id outline
  have sameTenant := congrArg ReleaseRun.tenantID outline
  intro current found
  change persist.run.id = input.id at sameID
  rw [sameID] at found
  exact (stored current found).trans sameTenant.symm

/-- What the activities of running workflows do to the store. -/
inductive Background (memory next : Memory) : Prop where
  | activity (op : Workflow.Activities.Op) (answer : op.Res)
      (effect : Workflow.Activities.StoreEffect memory op answer next)
      (kept : KeepsTenant memory op) : Background memory next

/-- How the store answers; a run is created only in stores where it is `claimable`. -/
def StoreEffect (claimable : Memory → ReleaseRun → Prop) (memory : Memory) :
    (op : Op) → op.Res → Memory → Prop
  | .savePlan plan, answer, next =>
    Performs memory (.ok ((), memory.savePlan plan) : Except StoreError _) answer next
  | .getPlan id, answer, next => Performs memory ((memory.getPlan id).map (·, memory)) answer next
  | .createRunAtomic run audits outbox, answer, next =>
    Performs memory (memory.createRunAtomic run audits outbox) answer next ∧
      ∀ value, answer = .ok value → claimable memory run
  | .getRun id, answer, next => Performs memory ((memory.getRun id).map (·, memory)) answer next
  | .listRuns, answer, next => ∃ order,
      Performs memory (.ok (memory.listRuns order, memory) : Except StoreError _) answer next
  | .auditEvents id, answer, next =>
    Performs memory (.ok (memory.auditEvents id, memory) : Except StoreError _) answer next
  | .pendingOutboxByType eventType limit, answer, next =>
    Performs memory (.ok (memory.pendingOutbox eventType limit, memory) : Except StoreError _)
      answer next
  | .markOutboxPublished id publishedAt, answer, next =>
    Performs memory ((memory.markOutboxPublished id publishedAt).map ((), ·)) answer next
  | _, _, next => next = memory

def controlPlane (claimable : Memory → ReleaseRun → Prop) : Machine requests where
  World := Memory
  answers memory op answer next := ∃ middle, Relation.ReflTransGen Background memory middle ∧
    StoreEffect claimable middle op answer next

/-- The request identifier does not lead to a run of another tenant. -/
def Unclaimed (memory : Memory) (run : ReleaseRun) : Prop :=
  ∀ id ∈ memory.runByRequestID.get? run.requestID, Owns memory (runTenant run) id

instance (memory : Memory) (run : ReleaseRun) : Decidable (Unclaimed memory run) :=
  inferInstanceAs (Decidable (∀ id ∈ memory.runByRequestID.get? run.requestID,
    Owns memory (runTenant run) id))

section Shared

variable {memory middle next : Memory} {tenant id : String}

/-- A change of the store after which the runs keep their tenants. -/
structure Preserves (memory next : Memory) : Prop where
  consistent : Consistent memory → Consistent next
  owns : ∀ {tenant id}, Owns memory tenant id → Owns next tenant id

theorem consistent_newMemory : Consistent newMemory where
  keyed := by
    intro id run found
    cases found
  correlated := by
    intro id event member
    cases member

theorem Preserves.refl (memory : Memory) : Preserves memory memory :=
  ⟨id, id⟩

theorem Preserves.trans (first : Preserves memory middle) (second : Preserves middle next) :
    Preserves memory next :=
  ⟨fun consistent => second.consistent (first.consistent consistent),
    fun owns => second.owns (first.owns owns)⟩

theorem Preserves.of_eq (runs : next.runs = memory.runs) (audit : next.audit = memory.audit) :
    Preserves memory next := by
  refine ⟨fun consistent => ⟨?_, ?_⟩, ?_⟩
  · rw [runs]
    exact consistent.keyed
  · intro id
    rw [Memory.auditEvents, audit]
    exact consistent.correlated id
  · intro tenant id owns
    rw [Owns, runs]
    exact owns

theorem Preserves.appendAtomic (preserves : Preserves memory middle) (audits : List AuditEvent)
    (outbox : List OutboxEvent) : Preserves memory (middle.appendAtomic audits outbox) := by
  refine preserves.trans ⟨fun consistent => ⟨?_, ?_⟩, ?_⟩
  · rw [Memory.runs_appendAtomic]
    exact consistent.keyed
  · intro id event member
    rw [Memory.auditEvents_appendAtomic] at member
    rcases List.mem_append.mp member with old | new
    · exact consistent.correlated id event old
    · exact of_decide_eq_true (List.mem_filter.mp new).2
  · intro tenant id owns
    rw [Owns, Memory.runs_appendAtomic]
    exact owns

theorem Preserves.setRun (runs : next.runs = memory.runs.set run.id run)
    (audit : next.audit = memory.audit)
    (same : ∀ current, memory.runs.get? run.id = some current → runTenant current = runTenant run) :
    Preserves memory next := by
  refine ⟨fun consistent => ⟨?_, ?_⟩, ?_⟩
  · intro id stored found
    rw [runs, GoMap.get?_set] at found
    split at found
    · next same =>
      cases found
      exact same.symm
    · exact consistent.keyed id stored found
  · intro id
    rw [Memory.auditEvents, audit]
    exact consistent.correlated id
  · rintro tenant id ⟨current, found, rfl⟩
    rw [Owns, runs, GoMap.get?_set]
    split
    · next eq =>
      subst eq
      exact ⟨run, rfl, (same current found).symm⟩
    · exact ⟨current, found, rfl⟩

/-- Nothing which an activity does to the store changes the tenant of a run. -/
theorem Background.preserves (background : Background memory next) : Preserves memory next := by
  obtain ⟨op, answer, effect, kept⟩ := background
  rcases Workflow.Activities.storeEffect_cases effect with
    rfl | ⟨run, version, audits, outbox, rfl, rfl⟩ | ⟨_, _, _, -, rfl⟩ | ⟨_, _, _, _, -, rfl⟩
  · exact .refl _
  · refine Preserves.appendAtomic ?_ _ _
    refine .setRun rfl rfl fun current found => ?_
    rw [runTenant, kept current found]
    rfl
  all_goals refine Preserves.appendAtomic ?_ _ _
  all_goals exact .of_eq rfl rfl

theorem preserves_of_background (reaches : Relation.ReflTransGen Background memory next) :
    Preserves memory next := by
  induction reaches with
  | refl => exact .refl _
  | tail _ step ih => exact ih.trans step.preserves

theorem Preserves.createRunAtomic {requested : ReleaseRun} {created : Bool}
    {audits : List AuditEvent} {outbox : List OutboxEvent}
    (eq : memory.createRunAtomic requested audits outbox = .ok ((run, created), next)) :
    Preserves memory next := by
  rcases Memory.createRunAtomic_cases eq with ⟨-, rfl, -⟩ | ⟨-, rfl, -, absent, rfl⟩
  · exact .refl _
  · refine Preserves.appendAtomic ?_ _ _
    refine .setRun rfl rfl ?_
    intro current found
    rw [absent] at found
    cases found

variable {op : Op} {answer : op.Res}

theorem StoreEffect.preserves (effect : StoreEffect claimable memory op answer next) :
    Preserves memory next := by
  cases op with
  | savePlan | auditEvents | pendingOutboxByType =>
    rcases effect.eq_or with rfl | ⟨_, ⟨⟩⟩ <;> exact .of_eq rfl rfl
  | createRunAtomic run audits outbox =>
    rcases effect.1.eq_or with rfl | ⟨_, eq⟩
    · exact .refl _
    · exact .createRunAtomic eq
  | getPlan id | getRun id =>
    rw [effect.eq_of_read]
    exact .refl _
  | listRuns =>
    obtain ⟨order, performed⟩ := effect
    rcases performed.eq_or with rfl | ⟨_, ⟨⟩⟩ <;> exact .refl _
  | markOutboxPublished id publishedAt =>
    rcases effect.eq_or_of_write with rfl | eq
    · exact .refl _
    · simp only [Memory.markOutboxPublished, bind_eq_ok] at eq
      obtain ⟨marked, -, returned⟩ := eq
      cases returned
      exact .of_eq rfl rfl
  | now | newID _ | iterationOrder | startRelease _ | signalApproval _ _ | signalControl _ _ _ =>
    cases effect
    exact .refl _

/-- What an answer says about the store, from then on. -/
def Witnessed (memory : Memory) : Event requests → Prop
  | ⟨.getRun id, .ok run⟩ => Owns memory (runTenant run) id
  | ⟨.createRunAtomic requested _ _, .ok (run, _)⟩ => runTenant run = runTenant requested
  | ⟨.listRuns, .ok runs⟩ => ∀ run ∈ runs, Owns memory (runTenant run) run.id
  | ⟨.auditEvents id, .ok events⟩ => ∀ event ∈ events, event.correlationID = id
  | _ => True

theorem Witnessed.preserved {event : Event requests} (witnessed : Witnessed memory event)
    (preserves : Preserves memory next) : Witnessed next event := by
  unfold Witnessed at witnessed ⊢
  split
  · exact preserves.owns witnessed
  · exact witnessed
  · exact fun run member => preserves.owns (witnessed run member)
  · exact witnessed
  · trivial

theorem StoreEffect.witnessed (consistent : Consistent memory)
    (effect : StoreEffect Unclaimed memory op answer next) : Witnessed next ⟨op, answer⟩ := by
  unfold Witnessed
  split
  · next id run eq =>
    cases eq
    have performed : Performs memory ((memory.getRun id).map (·, memory)) (.ok run) next := effect
    obtain rfl := performed.eq_of_read
    cases performed with
    | returned found =>
      unfold Memory.getRun at found
      split at found
      · next stored present =>
        cases found
        exact ⟨run, present, rfl⟩
      · cases found
  · next requested audits outbox run created eq =>
    cases eq
    obtain ⟨performed, claimable⟩ := effect
    have unclaimed := claimable _ rfl
    cases performed with
    | returned stored =>
      rcases Memory.createRunAtomic_cases stored with
        ⟨-, -, id, indexed, found⟩ | ⟨-, rfl, -⟩
      · obtain ⟨owned, present, same⟩ := unclaimed id indexed
        rw [Option.mem_def, found] at present
        cases present
        exact same
      · rfl
  · next runs eq =>
    cases eq
    obtain ⟨order, performed⟩ := effect
    cases performed with
    | returned listed =>
      cases listed
      intro run member
      rw [Memory.listRuns, List.mem_insertionSort, IterationOrder.mem_arrange,
        GoMap.mem_values_iff] at member
      obtain ⟨id, found⟩ := member
      rw [consistent.keyed id run found]
      exact ⟨run, found, rfl⟩
  · next id events eq =>
    cases eq
    cases effect with
    | returned found =>
      cases found
      exact consistent.correlated id
  · trivial

end Shared

/-- An operation on behalf of a tenant. -/
structure Caller where
  tenant : String
  operation : Operation

def Caller.program (releases : Releases) (caller : Caller) :
    Prog requests (Except Failure Response) :=
  (caller.operation.program releases caller.tenant).run

/-- What a caller receives, also together with an error. -/
def received : Except Failure Response → Option Response
  | .ok response => some response
  | .error failure => failure.response

/-- The response is about resources of the tenant. -/
def Belongs (memory : Memory) (tenant : String) : Response → Prop
  | .plan plan => planTenant plan = tenant
  | .run run | .started run _ => runTenant run = tenant
  | .events events => ∀ event ∈ events, Owns memory tenant event.correlationID
  | .approvals summaries => ∀ summary ∈ summaries, summary.tenantID = tenant ∧
      Owns memory tenant summary.runID

theorem Owns.unique {other : String} (owns : Owns memory tenant id) (owned : Owns memory other id) :
    tenant = other := by
  obtain ⟨run, found, rfl⟩ := owns
  obtain ⟨stored, present, rfl⟩ := owned
  rw [Option.mem_unique found present]

theorem belongs_of_explained {history : History} {response : Response}
    (explained : Explained tenant response history)
    (witnessed : ∀ event ∈ history, Witnessed memory event) : Belongs memory tenant response := by
  cases response with
  | plan plan => exact explained
  | run run =>
    obtain ⟨id, found, foundMem, owned, runMem⟩ := explained
    have first : Owns memory (runTenant found) id := witnessed _ foundMem
    have second : Owns memory (runTenant run) id := witnessed _ runMem
    exact (second.unique first).trans owned
  | started run created =>
    obtain ⟨requested, audits, outbox, owned, member⟩ := explained
    have same : runTenant run = runTenant requested := witnessed _ member
    exact same.trans owned
  | events events =>
    obtain ⟨id, found, foundMem, rfl, eventsMem⟩ := explained
    have owns : Owns memory (runTenant found) id := witnessed _ foundMem
    have correlated : ∀ event ∈ events, event.correlationID = id := witnessed _ eventsMem
    intro event member
    rw [correlated event member]
    exact owns
  | approvals summaries =>
    obtain ⟨runs, runsMem, summarized⟩ := explained
    have owns : ∀ run ∈ runs, Owns memory (runTenant run) run.id := witnessed _ runsMem
    intro summary member
    obtain ⟨tenantID, run, runMem, rfl, runID, -⟩ := summarized summary member
    rw [runID]
    exact ⟨tenantID, owns run runMem⟩

/--
Whatever the callers ask for and however their calls interleave: as long as no
run is created under a request identifier which the store has bound to another
tenant, every caller only receives resources of its own tenant.
-/
theorem response_belongs {ι : Type} [DecidableEq ι] {releases : Releases} {callers : ι → Caller}
    {start : Memory} (consistent : Consistent start)
    {pool : Pool (controlPlane Unclaimed) ι (Except Failure Response)}
    (reachable : Pool.Reachable (fun caller => (callers caller).program releases) start pool)
    {caller : ι} {outcome : Except Failure Response}
    (returned : pool.processes caller = some (.pure outcome)) :
    ∀ response ∈ received outcome,
      Belongs pool.world (normalized (callers caller).tenant "default") response := by
  have witnessed : Consistent pool.world ∧
      ∀ entry ∈ pool.trace, Witnessed pool.world entry.2 := by
    refine reachable.invariant (fun _ _ _ _ _ => trivial)
      (fun memory trace => Consistent memory ∧ ∀ entry ∈ trace, Witnessed memory entry.2)
      ⟨consistent, by simp⟩ ?_
    rintro memory trace process - op - answer after ⟨consistent, witnessed⟩ - -
      ⟨middle, background, effect⟩
    have before := preserves_of_background background
    have whole := before.trans effect.preserves
    refine ⟨whole.consistent consistent, ?_⟩
    intro entry member
    rcases List.mem_append.mp member with old | new
    · exact (witnessed entry old).preserved whole
    · rw [List.mem_singleton.mp new]
      exact effect.witnessed (before.consistent consistent)
  obtain ⟨rest, run, current⟩ := reachable.localRun (fun _ _ _ _ _ => trivial) caller
  obtain rfl := current _ returned
  have explained := ((operation_explains releases (callers caller).tenant
    (callers caller).operation).of_runs (fun _ _ _ _ _ => trivial) run).1 outcome rfl
  have seen : ∀ event ∈ Pool.localTrace pool.trace caller,
      Witnessed pool.world event := by
    intro event member
    obtain ⟨entry, entryMem, rfl⟩ := List.mem_map.mp member
    exact witnessed.2 entry (List.mem_filter.mp entryMem).1
  cases outcome with
  | ok response =>
    rintro _ ⟨⟩
    exact belongs_of_explained explained seen
  | error failure =>
    intro response responded
    exact belongs_of_explained (explained response responded) seen

section Serving

variable (claimable : Memory → ReleaseRun → Prop)
  [∀ memory run, Decidable (claimable memory run)] (releases : Releases) (callers : Bool → Caller)

/-- A store which answers at once, and fails where a run is not claimable. -/
def serve : Strategy requests Memory
  | memory, .now => (1, memory)
  | memory, .newID kind => (kind, memory)
  | memory, .iterationOrder => (.stored, memory)
  | memory, .savePlan plan => (.ok (), memory.savePlan plan)
  | memory, .getPlan id => answerOf memory ((memory.getPlan id).map (·, memory))
  | memory, .createRunAtomic run audits outbox =>
    if claimable memory run then answerOf memory (memory.createRunAtomic run audits outbox)
    else (.error .conflict, memory)
  | memory, .getRun id => answerOf memory ((memory.getRun id).map (·, memory))
  | memory, .listRuns => (.ok (memory.listRuns .stored), memory)
  | memory, .auditEvents id => (.ok (memory.auditEvents id), memory)
  | memory, .pendingOutboxByType eventType limit =>
    (.ok (memory.pendingOutbox eventType limit), memory)
  | memory, .markOutboxPublished id publishedAt =>
    answerOf memory ((memory.markOutboxPublished id publishedAt).map ((), ·))
  | memory, .startRelease _ | memory, .signalApproval _ _ | memory, .signalControl _ _ _ =>
    (.ok (), memory)

theorem serve_answers (memory : Memory) (op : Op) :
    (controlPlane claimable).answers memory op (serve claimable memory op).1
      (serve claimable memory op).2 := by
  refine ⟨memory, .refl, ?_⟩
  cases op with
  | now | newID _ | iterationOrder | startRelease _ | signalApproval _ _ | signalControl _ _ _ =>
    rfl
  | savePlan plan => exact .returned rfl
  | getPlan id => exact performs_answerOf _ _
  | createRunAtomic run audits outbox =>
    by_cases allowed : claimable memory run
    · simp only [serve, if_pos allowed]
      exact ⟨performs_answerOf _ _, fun _ _ => allowed⟩
    · simp only [serve, if_neg allowed]
      exact ⟨.failed StoreError.conflict, fun _ => nofun⟩
  | getRun id => exact performs_answerOf _ _
  | listRuns => exact ⟨.stored, .returned rfl⟩
  | auditEvents id | pendingOutboxByType eventType limit => exact .returned rfl
  | markOutboxPublished id publishedAt => exact performs_answerOf _ _

/-- Two callers, one after the other, with the store of `serve`. -/
def callTwice : Pool (controlPlane claimable) Bool (Except Failure Response) :=
  ((Pool.initial (fun caller => (callers caller).program releases) newMemory).play
    (serve claimable) 20 false).play (serve claimable) 20 true

theorem reachable_callTwice :
    Pool.Reachable (fun caller => (callers caller).program releases) newMemory
      (callTwice claimable releases callers) :=
  ((Pool.reachable_initial _ _).play (serve_answers _) 20 false).play (serve_answers _) 20 true

variable {claimable} in
def receivedTenant
    (pool : Pool (controlPlane claimable) Bool (Except Failure Response)) (caller : Bool) :
    Option String :=
  match (pool.returned caller).bind received with
  | some (.run run) | some (.started run _) => some (runTenant run)
  | _ => none

omit [∀ memory run, Decidable (claimable memory run)] in
variable {claimable} in
theorem exists_of_receivedTenant
    {pool : Pool (controlPlane claimable) Bool (Except Failure Response)} {caller : Bool}
    (eq : receivedTenant pool caller = some tenant) :
    ∃ outcome response, pool.processes caller = some (.pure outcome) ∧
      response ∈ received outcome ∧
      ∀ other, Belongs pool.world other response ↔ tenant = other := by
  have respond : ∀ {response}, (pool.returned caller).bind received = some response →
      ∃ outcome, pool.processes caller = some (.pure outcome) ∧ response ∈ received outcome := by
    intro response responded
    obtain ⟨outcome, returned, member⟩ := Option.bind_eq_some_iff.mp responded
    exact ⟨outcome, Pool.processes_of_returned returned, member⟩
  unfold receivedTenant at eq
  split at eq
  · next run responded =>
    cases eq
    obtain ⟨outcome, returned, member⟩ := respond responded
    exact ⟨outcome, _, returned, member, fun _ => Iff.rfl⟩
  · next run created responded =>
    cases eq
    obtain ⟨outcome, returned, member⟩ := respond responded
    exact ⟨outcome, _, returned, member, fun _ => Iff.rfl⟩
  · cases eq

/-- The second of two callers has received a response. -/
structure Receives (planner : Planner)
    (pool : Pool (controlPlane claimable) Bool (Except Failure Response))
    (outcome : Except Failure Response) (response : Response) : Prop where
  made : Planning.new default .stored catalog = .ok planner
  consistent : Consistent newMemory
  reachable : Pool.Reachable (fun caller => (callers caller).program ⟨default, planner⟩) newMemory
    pool
  returned : pool.processes true = some (.pure outcome)
  responded : response ∈ received outcome

theorem exists_receives (tenant : String)
    (evaluated : (do
      let planner ← Planning.new default .stored catalog
      return receivedTenant (callTwice claimable ⟨default, planner⟩ callers) true) =
        Except.ok (some tenant)) :
    ∃ planner pool outcome response, Receives claimable callers planner pool outcome response ∧
      ∀ other, Belongs pool.world other response ↔ tenant = other := by
  simp only [bind_eq_ok] at evaluated
  obtain ⟨planner, made, received⟩ := evaluated
  obtain ⟨outcome, response, returned, responded, belongs⟩ :=
    exists_of_receivedTenant (Except.ok.inj received)
  exact ⟨planner, _, outcome, response, ⟨made, consistent_newMemory, reachable_callTwice _ _ _,
    returned, responded⟩, belongs⟩

end Serving

/-- Tenant `tenant-b` receives a run of `tenant-a` when it starts a release of the same request. -/
theorem response_of_other_tenant :
    let callers (second : Bool) : Caller :=
      ⟨if second then "tenant-b" else "tenant-a", .startIntent (stagingRelease ["api"])⟩
    ∃ planner pool outcome response,
      Receives (fun _ _ => True) callers planner pool outcome response ∧
      Belongs pool.world "tenant-a" response ∧ ¬Belongs pool.world "tenant-b" response := by
  intro callers
  obtain ⟨planner, pool, outcome, response, receives, belongs⟩ :=
    exists_receives (fun _ _ => True) callers "tenant-a" (by decide +kernel)
  refine ⟨planner, pool, outcome, response, receives, (belongs _).mpr rfl, ?_⟩
  rw [belongs]
  decide

/-- Two callers of one tenant: the second reads the run which the first has started. -/
theorem response_belongs_read :
    let callers (second : Bool) : Caller :=
      ⟨"tenant-a", if second then .get "run" else .startIntent (stagingRelease ["api"])⟩
    ∃ planner pool outcome response, Receives Unclaimed callers planner pool outcome response ∧
      Belongs pool.world "tenant-a" response := by
  intro callers
  obtain ⟨planner, pool, outcome, response, receives, -⟩ :=
    exists_receives Unclaimed callers "tenant-a" (by decide +kernel)
  exact ⟨planner, pool, outcome, response, receives,
    response_belongs receives.consistent receives.reachable receives.returned response
      receives.responded⟩

end Themisy.Application
