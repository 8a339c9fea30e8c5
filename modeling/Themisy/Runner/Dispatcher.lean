import Themisy.Interaction.History
import Themisy.Runner.Finality

/-!
# Reconciliation through the adapter SDK

`SDKDispatcher` lets a runner reconcile with a `DeployAdapter`, whose answers are
arbitrary. A status is a string, and the dispatcher reads it by exclusion, so a status
which the SDK does not define counts as found.

A pass over the journal changes only pending records, each of them only after the
adapter has answered for its idempotency key.
-/

namespace Themisy.Runner

open Domain Protocol Store Interaction

structure ReconcileStatus where
  text : String
  deriving DecidableEq

namespace ReconcileStatus

def notFound : ReconcileStatus := ⟨"NOT_FOUND"⟩

def pending : ReconcileStatus := ⟨"PENDING"⟩

def succeeded : ReconcileStatus := ⟨"SUCCEEDED"⟩

def failed : ReconcileStatus := ⟨"FAILED"⟩

def defined : List ReconcileStatus :=
  [notFound, pending, succeeded, failed]

end ReconcileStatus

structure ReconcileRequest where
  idempotencyKey : String
  dispatchedAt : Time

/-- The fields of a `Deployment` which the dispatcher reads. -/
structure Deployment where
  externalExecutionID : String
  finishedAt : Time

structure ReconcileResult where
  status : ReconcileStatus
  deployment : Deployment

/-- `Reconcile` of a `DeployAdapter`, at one call. -/
abbrev DeployAdapter := ReconcileRequest → Credential → Except GoError ReconcileResult

/-- What a `DeployAdapter` may answer at its calls. -/
abbrev Behaviour := ReconcileRequest → Credential → Except GoError ReconcileResult → Prop

namespace SDKDispatcher

/-- The dispatcher as an adapter of the runner. -/
def reconciler : Adapter where
  credentialProvider := some "github-actions"

def reconcileRequest (now : Time) (request : AdapterRequest) : ReconcileRequest where
  idempotencyKey := request.idempotencyKey
  dispatchedAt :=
    if request.dispatchedAt = 0 then now - 24 * 60 * 60 * 10 ^ 9 else request.dispatchedAt

def reconcile (adapter : Option DeployAdapter) (now : Time) (request : AdapterRequest)
    (credential : Credential) : Except GoError (AdapterResult × Bool) :=
  match adapter with
  | none => .error (.plain "deploy adapter unavailable")
  | some adapter => do
      let result ← adapter (reconcileRequest now request) credential
      if result.status = .notFound ∨ result.status = .pending then
        return (⟨"", 0⟩, false)
      else if result.status = .failed then
        .error (.plain "external execution failed during reconciliation")
      else
        return (⟨result.deployment.externalExecutionID, result.deployment.finishedAt⟩, true)

/-- The dispatcher does not exclude the status. -/
def Unrejected (status : ReconcileStatus) : Prop :=
  status ∉ [ReconcileStatus.notFound, .pending, .failed]

/-- An outcome is found unless its status says otherwise. -/
theorem status_of_found {adapter : DeployAdapter} {now : Time} {request : AdapterRequest}
    {credential : Credential} {found : AdapterResult}
    (reconciled : reconcile (some adapter) now request credential = .ok (found, true)) :
    ∃ result, adapter (reconcileRequest now request) credential = .ok result ∧
      Unrejected result.status := by
  simp only [reconcile, bind_eq_ok] at reconciled
  obtain ⟨result, answered, reconciled⟩ := reconciled
  refine ⟨result, answered, ?_⟩
  split at reconciled
  · cases reconciled
  · split at reconciled
    · cases reconciled
    · simp_all [Unrejected]

end SDKDispatcher

/-- What the adapter was asked and what it has answered. -/
structure AdapterCall where
  request : ReconcileRequest
  reply : Except GoError ReconcileResult

/-- The journal and the calls of the adapter so far. -/
structure SDKWorld where
  journal : Memory
  calls : List AdapterCall := []

/-- The calls of the adapter which a request of the runner leads to. -/
def Dispatches (deployed : Option Behaviour) : (op : Op) → op.Res → List AdapterCall → Prop
  | .reconcileAdapter request credential, answer, calls =>
    ∃ (adapter : Option DeployAdapter) (now : Time),
      Option.Rel (fun adapter behaviour =>
        let asked := SDKDispatcher.reconcileRequest now request
        behaviour asked credential (adapter asked credential)) adapter deployed ∧
      answer = SDKDispatcher.reconcile adapter now request credential ∧
      calls = adapter.toList.map fun adapter =>
        let asked := SDKDispatcher.reconcileRequest now request
        ⟨asked, adapter asked credential⟩
  | _, _, calls => calls = []

/-- A runner over a journal, which reconciles through the dispatcher. -/
def throughSDK (deployed : Option Behaviour) : Machine requests where
  World := SDKWorld
  answers world op answer next :=
    JournalEffect world.journal op answer next.journal ∧
      ∃ calls, Dispatches deployed op answer calls ∧ next.calls = world.calls ++ calls

/-- The states of a journal which starts without any actions. -/
inductive JournalState : Memory → Prop
  | empty {memory : Memory} (unused : memory.runnerActions = ∅) : JournalState memory
  | effect {memory next : Memory} {op : Op} {answer : op.Res} (state : JournalState memory)
      (effect : JournalEffect memory op answer next) : JournalState next

theorem JournalState.filed {memory : Memory} (state : JournalState memory) {key : String}
    {record : RunnerActionRecord} (stored : memory.runnerActions.get? key = some record) :
    key = record.nonceKey := by
  induction state generalizing key record with
  | empty unused => simp [unused] at stored
  | effect state effect ih =>
    have set : ∀ (actions : GoMap String RunnerActionRecord) (added : RunnerActionRecord),
        (actions.set added.nonceKey added).get? key = some record →
          (actions.get? key = some record → key = record.nonceKey) → key = record.nonceKey := by
      intro actions added found earlier
      rw [GoMap.get?_set] at found
      split at found
      · next same =>
        cases found
        exact same
      · exact earlier found
    rcases journalEffect_cases effect with rfl | ⟨added, audit, found, -, reserved⟩ |
      ⟨updated, expected, audit, -, completed⟩
    · exact ih stored
    · rcases Memory.reserveRunnerAction_cases reserved with ⟨impossible, -⟩ | ⟨-, -, -, -, rfl⟩
      · cases impossible
      · exact set _ _ stored ih
    · rw [Memory.eq_of_completeRunnerAction completed] at stored
      exact set _ _ stored ih

section Pass

open SDKDispatcher (Unrejected)

variable {start : Memory} {deployed : Option Behaviour}

/-- A pending record is completed as the adapter has answered. -/
structure Completes (calls : List AdapterCall) (accepts : ReconcileStatus → Prop)
    (before after : RunnerActionRecord) : Prop where
  pending : before.status = some .reserved ∨ before.status = some .unknown
  succeeded : after.status = some .succeeded
  answered : ∃ call ∈ calls, call.request.idempotencyKey = before.idempotencyKey ∧
    ∃ result, call.reply = .ok result ∧ accepts result.status

/-- Every entry of the journal is as it was, or it has been completed. -/
def Resolved (start : Memory) (world : SDKWorld) (accepts : ReconcileStatus → Prop) : Prop :=
  ∀ key, world.journal.runnerActions.get? key = start.runnerActions.get? key ∨
    ∃ before after, start.runnerActions.get? key = some before ∧
      world.journal.runnerActions.get? key = some after ∧
      Completes world.calls accepts before after

/-- What a pass over the journal keeps. -/
structure MidPass (start : Memory) (world : SDKWorld) (history : History) : Prop where
  resolved : Resolved start world Unrejected
  listed : ∀ record, Listed history record →
    start.runnerActions.get? record.nonceKey = some record ∧
      (record.status = some .reserved ∨ record.status = some .unknown)
  found : ∀ request credential outcome,
    ⟨Op.reconcileAdapter request credential, .ok (outcome, true)⟩ ∈ history →
      ∃ call ∈ world.calls, call.request.idempotencyKey = request.idempotencyKey ∧
        ∃ result, call.reply = .ok result ∧ Unrejected result.status

theorem Completes.mono {calls later : List AdapterCall} {accepts weaker : ReconcileStatus → Prop}
    {before after : RunnerActionRecord} (completes : Completes calls accepts before after)
    (grows : calls ⊆ later)
    (implies : ∀ call ∈ later, ∀ result, call.reply = .ok result → accepts result.status →
      weaker result.status) : Completes later weaker before after := by
  obtain ⟨call, member, key, result, replied, accepted⟩ := completes.answered
  exact ⟨completes.pending, completes.succeeded, call, grows member, key, result, replied,
    implies call (grows member) result replied accepted⟩

variable {history : History} {world : SDKWorld}

/-- A listed record was pending when the pass began. -/
theorem MidPass.start_of_stored (passing : MidPass start world history)
    (state : JournalState start) {key : String} {record : RunnerActionRecord}
    (stored : world.journal.runnerActions.get? key = some record)
    (pending : record.status = some .reserved ∨ record.status = some .unknown) :
    start.runnerActions.get? record.nonceKey = some record := by
  rcases passing.resolved key with same | ⟨before, after, -, found, completes⟩
  · rw [stored] at same
    rw [← state.filed same.symm, ← same]
  · rw [stored] at found
    cases found
    rw [completes.succeeded] at pending
    simp at pending

theorem MidPass.step {next : SDKWorld} {op : Op} {answer : op.Res} (state : JournalState start)
    (passing : MidPass start world history) (resolves : Resolves history op)
    (answered : (throughSDK deployed).answers world op answer next) :
    MidPass start next (history ++ [⟨op, answer⟩]) := by
  obtain ⟨effect, calls, dispatches, grown⟩ := answered
  have grows : world.calls ⊆ next.calls := grown ▸ List.subset_append_left _ _
  constructor
  case resolved =>
    have unchanged : ∀ key, next.journal.runnerActions.get? key =
        world.journal.runnerActions.get? key →
        next.journal.runnerActions.get? key = start.runnerActions.get? key ∨
          ∃ before after, start.runnerActions.get? key = some before ∧
            next.journal.runnerActions.get? key = some after ∧
            Completes next.calls Unrejected before after := by
      intro key same
      rw [same]
      refine (passing.resolved key).imp_right ?_
      rintro ⟨before, after, first, found, completes⟩
      exact ⟨before, after, first, found, completes.mono grows fun _ _ _ _ accepted => accepted⟩
    intro key
    rcases journalEffect_cases effect with same | ⟨added, audit, found, rfl, -⟩ |
      ⟨updated, expected, audit, rfl, completed⟩
    · exact unchanged key (by rw [same])
    · cases resolves
    · obtain ⟨current, credential, outcome, listed, found, rfl, result, updatedAt, rfl⟩ := resolves
      obtain ⟨after, succeeded, written⟩ : ∃ after : RunnerActionRecord,
          after.status = some .succeeded ∧ next.journal.runnerActions =
            world.journal.runnerActions.set current.nonceKey after :=
        ⟨{ current with
            status := some .succeeded, result, updatedAt
            stateVersion := nextVersion current.stateVersion },
          rfl, by rw [Memory.eq_of_completeRunnerAction completed]; rfl⟩
      by_cases here : key = current.nonceKey
      · subst here
        obtain ⟨stored, pending⟩ := passing.listed current listed
        obtain ⟨call, member, answered⟩ := passing.found _ _ _ found
        exact Or.inr ⟨current, after, stored, by rw [written, GoMap.get?_set_self], pending,
          succeeded, call, grows member, answered⟩
      · exact unchanged key (by rw [written, GoMap.get?_set, if_neg here])
  case listed =>
    rintro record ⟨tenantID, runnerGroup, limit, records, member, isListed⟩
    rcases List.mem_append.mp member with earlier | last
    · exact passing.listed record ⟨tenantID, runnerGroup, limit, records, earlier, isListed⟩
    · cases List.mem_singleton.mp last
      obtain ⟨order, performed⟩ := effect
      obtain ⟨⟨key, stored⟩, pending⟩ :=
        Memory.stored_of_pendingRunnerActions performed.ok_of_read isListed
      exact ⟨passing.start_of_stored state stored pending, pending⟩
  case found =>
    intro request credential outcome member
    rcases List.mem_append.mp member with earlier | last
    · obtain ⟨call, known, answered⟩ := passing.found request credential outcome earlier
      exact ⟨call, grows known, answered⟩
    · cases List.mem_singleton.mp last
      obtain ⟨_ | adapter, now, -, reconciled, rfl⟩ := dispatches
      · cases reconciled
      · obtain ⟨result, replied, unrejected⟩ := SDKDispatcher.status_of_found reconciled.symm
        exact ⟨_, grown ▸ List.mem_concat_self, rfl, result, replied, unrejected⟩

end Pass

/-- What a pass over a journal has done, whatever the adapter answers. -/
theorem passed_of_runs {deployed : Option Behaviour} {runner : Runner} {limit : ℤ} {start : Memory}
    (state : JournalState start) {events : History} {last : SDKWorld}
    {rest : Prog requests (Option GoError)}
    (run : Runs (throughSDK deployed) ⟨start, []⟩
      (runner.reconcile (some SDKDispatcher.reconciler) limit) events last rest) :
    Resolved start last SDKDispatcher.Unrejected ∧ ∀ outcome, rest = .pure outcome →
      Reconciled runner SDKDispatcher.reconciler limit [] outcome events := by
  have always : Always (fun _ _ => True) Resolves
      (fun outcome later => ∀ present, some SDKDispatcher.reconciler = some present →
        Reconciled runner present limit [] outcome later) []
      (runner.reconcile (some SDKDispatcher.reconciler) limit) := reconcile_resolves
  have passed : MidPass start last ([] ++ events) :=
    always.invariant (MidPass start) (fun _ _ _ _ _ => trivial)
      (fun _ _ _ _ _ passing resolves answered => passing.step state resolves answered) run
      ⟨fun _ => Or.inl rfl, fun _ listed => by simp [Listed] at listed, by simp⟩
  refine ⟨passed.resolved, ?_⟩
  rintro outcome rfl
  exact (always.of_runs (fun _ _ _ _ _ => trivial) run).1 outcome rfl _ rfl

/-- The replies which a run has seen are those which the adapter may give. -/
theorem replies_of_runs {deployed : Option Behaviour} {world last : (throughSDK deployed).World}
    {events : History} {Value : Type} {program rest : Prog requests Value}
    (run : Runs (throughSDK deployed) world program events last rest)
    {accepts : ReconcileStatus → Prop}
    (may : ∀ behaviour ∈ deployed, ∀ request credential result,
      behaviour request credential (.ok result) → accepts result.status)
    (before : ∀ call ∈ world.calls, ∀ result, call.reply = .ok result → accepts result.status) :
    ∀ call ∈ last.calls, ∀ result, call.reply = .ok result → accepts result.status := by
  induction run with
  | refl => exact before
  | @step _ _ _ _ _ op _ _ _ _ answered _ ih =>
    obtain ⟨-, calls, dispatches, grown⟩ := answered
    refine ih fun call member result replied => ?_
    rw [grown] at member
    rcases List.mem_append.mp member with earlier | asked
    · exact before call earlier result replied
    · cases op with
      | reconcileAdapter request credential =>
        obtain ⟨adapter, now, allowed, -, rfl⟩ := dispatches
        cases allowed with
        | none => cases asked
        | @some adapter behaviour allowed =>
          cases List.mem_singleton.mp asked
          exact may behaviour rfl _ _ result (by rw [← replied]; exact allowed)
      | _ =>
        cases dispatches
        cases asked

section Undefined

variable (request : ReconcileRequest)

/-- A record which was reserved with the key of a request. -/
def reservedRecord : RunnerActionRecord :=
  let grant := { protocolFixture with idempotencyKey := request.idempotencyKey }
  { newRecord grant "request-hash" 0 with
    status := some .reserved
    stateVersion := 1 }

def reservedJournal : Memory :=
  (newMemory.insertAction (reservedRecord request)).appendAudit
    (reserveAudit protocolFixture "request-hash" 0)

theorem journalState_reservedJournal : JournalState (reservedJournal request) := by
  have effect : JournalEffect newMemory (.reserveRunnerAction
      (newRecord { protocolFixture with idempotencyKey := request.idempotencyKey } "request-hash" 0)
      (reserveAudit protocolFixture "request-hash" 0)) (.ok (reservedRecord request, true))
      (reservedJournal request) := .returned rfl
  exact .effect (.empty rfl) effect

/-- A reply which the dispatcher does not exclude completes a record with its key. -/
theorem completes_of_unrejected {deployed : Option Behaviour} {behaviour : Behaviour}
    (configured : deployed = some behaviour) {request : ReconcileRequest} {credential : Credential}
    {result : ReconcileResult} (replies : behaviour request credential (.ok result))
    (unrejected : SDKDispatcher.Unrejected result.status) :
    ∃ events last, Runs (throughSDK deployed) ⟨reservedJournal request, []⟩
        ((runnerFor protocolFixture).reconcile (some SDKDispatcher.reconciler) 10) events last
        (.pure none) ∧
      last.calls = [⟨request, .ok result⟩] ∧
      (last.journal.runnerActions.get? (reservedRecord request).nonceKey).map
        RunnerActionRecord.status = some (some .succeeded) := by
  let record := reservedRecord request
  let now := request.dispatchedAt + 24 * 60 * 60 * 10 ^ 9
  let found : AdapterResult :=
    ⟨result.deployment.externalExecutionID, result.deployment.finishedAt⟩
  have asked : SDKDispatcher.reconcileRequest now (recordRequest record) = request := by
    simp [SDKDispatcher.reconcileRequest, recordRequest, record, reservedRecord, newRecord, now]
  have excluded : ¬(result.status = .notFound ∨ result.status = .pending) ∧
      result.status ≠ .failed := by
    simpa [SDKDispatcher.Unrejected, not_or, and_assoc] using unrejected
  have reconciled : .ok (found, true) =
      SDKDispatcher.reconcile (some fun _ _ => .ok result) now (recordRequest record)
        credential := by
    simp only [SDKDispatcher.reconcile, bind, Except.bind, if_neg excluded.1, if_neg excluded.2]
    rfl
  have listed : (throughSDK deployed).answers ⟨reservedJournal request, []⟩
      (.pendingRunnerActions "tenant-1" "prod-jp" 10) (.ok [record])
      ⟨reservedJournal request, []⟩ := ⟨⟨.stored, .returned rfl⟩, [], rfl, rfl⟩
  have acquired : (throughSDK deployed).answers ⟨reservedJournal request, []⟩
      (.acquireCredential (recordCredential SDKDispatcher.reconciler record)) (.ok credential)
      ⟨reservedJournal request, []⟩ := ⟨rfl, [], rfl, rfl⟩
  have dispatched : (throughSDK deployed).answers ⟨reservedJournal request, []⟩
      (.reconcileAdapter (recordRequest record) credential) (.ok (found, true))
      ⟨reservedJournal request, [⟨request, .ok result⟩]⟩ := by
    refine ⟨rfl, _, ⟨some fun _ _ => .ok result, now, ?_, reconciled, rfl⟩, ?_⟩
    · rw [configured, asked]
      exact .some replies
    · rw [← asked]
      rfl
  have read : (throughSDK deployed).answers ⟨reservedJournal request, [⟨request, .ok result⟩]⟩ .now
      (0 : Time) ⟨reservedJournal request, [⟨request, .ok result⟩]⟩ := ⟨rfl, [], rfl, rfl⟩
  let updated : RunnerActionRecord :=
    { record with
      status := some .succeeded
      result := {
        protocolVersion := versionV1Alpha1, grantID := record.grantID, runID := record.runID
        stepID := record.stepID, status := some .succeeded
        externalExecutionID := found.externalExecutionID, completedAt := found.completedAt }
      updatedAt := 0 }
  let audit := journalAudit (auditID record.grantID "reconcile" (nextVersion 1)) record.grantID
    "runner.action.reconcile" "SUCCEEDED" 0 .null
  have completed : (throughSDK deployed).answers
      ⟨reservedJournal request, [⟨request, .ok result⟩]⟩ (.completeRunnerAction updated 1 audit)
      (.ok ()) ⟨((reservedJournal request).replaceAction
        { updated with stateVersion := nextVersion 1 }).appendAudit audit,
        [⟨request, .ok result⟩]⟩ := ⟨.returned rfl, [], rfl, rfl⟩
  exact ⟨_, _, .step rfl listed (.step rfl acquired (.step rfl dispatched (.step rfl read
    (.step rfl completed (.refl _ _))))), rfl, rfl⟩

end Undefined

/--
The pass is safe for every runner, every journal and every run exactly when the adapter
answers with the statuses of the SDK only: then it completes a pending record only if
the adapter reports a success for its idempotency key, and leaves all other records as
they are. In any case it handles every listed record unless a component is missing or
the journal fails.
-/
theorem reconcile_fails_closed_iff (deployed : Option Behaviour) :
    ((∀ (runner : Runner) (limit : ℤ) (start : Memory) (events : History) (last : SDKWorld)
        (rest : Prog requests (Option GoError)), JournalState start →
        Runs (throughSDK deployed) ⟨start, []⟩
          (runner.reconcile (some SDKDispatcher.reconciler) limit) events last rest →
        Resolved start last (· = .succeeded)) ↔
      ∀ behaviour ∈ deployed, ∀ request credential result,
        behaviour request credential (.ok result) → result.status ∈ ReconcileStatus.defined) ∧
    ∀ (runner : Runner) (limit : ℤ) (start : Memory) (events : History) (last : SDKWorld)
      (outcome : Option GoError), JournalState start →
      Runs (throughSDK deployed) ⟨start, []⟩
        (runner.reconcile (some SDKDispatcher.reconciler) limit) events last (.pure outcome) →
      Reconciled runner SDKDispatcher.reconciler limit [] outcome events := by
  refine ⟨⟨?defined, ?closed⟩, fun _ _ _ _ _ outcome state run =>
    (passed_of_runs state run).2 outcome rfl⟩
  case defined =>
    intro closed behaviour configured request credential result replies
    by_contra undefined
    have unrejected : SDKDispatcher.Unrejected result.status ∧ result.status ≠ .succeeded := by
      simp only [ReconcileStatus.defined, SDKDispatcher.Unrejected, List.mem_cons, not_or] at *
      tauto
    obtain ⟨events, last, run, calls, completed⟩ :=
      completes_of_unrejected configured replies unrejected.1
    rcases closed _ _ _ _ _ _ (journalState_reservedJournal request) run
      (reservedRecord request).nonceKey with same | ⟨before, after, -, -, completes⟩
    · rw [same] at completed
      cases completed
    · obtain ⟨call, member, -, reported, replied, succeeded⟩ := completes.answered
      rw [calls] at member
      cases List.mem_singleton.mp member
      cases replied
      exact unrejected.2 succeeded
  case closed =>
    intro may runner limit start events last rest state run key
    refine ((passed_of_runs state run).1 key).imp_right ?_
    rintro ⟨before, after, first, found, completes⟩
    refine ⟨before, after, first, found, completes.mono (fun _ member => member) ?_⟩
    intro call member result replied unrejected
    have known := replies_of_runs run may nofun call member result replied
    simp only [ReconcileStatus.defined, SDKDispatcher.Unrejected, List.mem_cons, not_or] at *
    tauto

/-- A status which the SDK does not define completes a reserved record. -/
theorem undefined_status_completes :
    let request : ReconcileRequest := ⟨"key-1", 1⟩
    let reply : ReconcileResult := ⟨⟨"CANCELLED"⟩, ⟨"execution-1", 1⟩⟩
    let key := runnerNonceKey "tenant-1" "prod-jp" "nonce-1"
    ∃ (events : History) (last : SDKWorld), JournalState (reservedJournal request) ∧
      Runs (throughSDK (some fun _ _ answer => answer = .ok reply)) ⟨reservedJournal request, []⟩
        ((runnerFor protocolFixture).reconcile (some SDKDispatcher.reconciler) 10) events last
        (.pure none) ∧
      ((reservedJournal request).runnerActions.get? key).map (·.status) = some (some .reserved) ∧
      (last.journal.runnerActions.get? key).map (·.status) = some (some .succeeded) ∧
      last.calls = [⟨request, .ok reply⟩] := by
  intro request reply key
  let behaviour : Behaviour := fun _ _ answer => answer = .ok reply
  have replies : behaviour request ⟨∅, 0⟩ (.ok reply) := rfl
  have unrejected : SDKDispatcher.Unrejected reply.status := by
    simp [SDKDispatcher.Unrejected, reply, ReconcileStatus.notFound, ReconcileStatus.pending,
      ReconcileStatus.failed]
  obtain ⟨events, last, run, calls, completed⟩ := completes_of_unrejected rfl replies unrejected
  exact ⟨events, last, journalState_reservedJournal request, run, rfl, completed, calls⟩

end Themisy.Runner
