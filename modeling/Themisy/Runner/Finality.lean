import Themisy.Grant.Binding
import Themisy.Runner.AtMostOnce

/-!
# Recorded results are final

Any number of calls of `Execute` and `Reconcile` share one journal. Every record is
that of an executed grant, and changes only by moves: whoever completes a record has
been shown it in the version which is stored.

A succeeded record cannot move. It therefore answers every later call with the same
grant, and a call which returns a succeeded result has seen such a record.
-/

namespace Themisy

variable {runnerGroup tenantID : String} {record : RunnerActionRecord} {runner : Runner}

namespace Store.Memory

open Domain

variable {memory next : Memory} {record found : RunnerActionRecord} {audit : AuditEvent}

theorem stored_of_getRunnerAction {nonce : String}
    (read : memory.getRunnerAction tenantID runnerGroup nonce = .ok found) :
    memory.runnerActions.get? (runnerNonceKey tenantID runnerGroup nonce) = some found := by
  simp only [getRunnerAction, bind_eq_ok] at read
  rcases read with ⟨_, -, read⟩
  split at read
  · next stored =>
    cases read
    exact stored
  · cases read

theorem stored_of_reserveRunnerAction {created : Bool}
    (reserved : memory.reserveRunnerAction record audit = .ok ((found, created), next)) :
    ∃ key, next.runnerActions.get? key = some found := by
  simp only [reserveRunnerAction, bind_eq_ok] at reserved
  rcases reserved with ⟨_, -, reserved⟩
  split at reserved
  · next stored =>
    cases reserved
    exact ⟨_, stored⟩
  · split at reserved
    · cases reserved
      exact ⟨_, (Option.some_get _).symm⟩
    · cases reserved
      exact ⟨_, GoMap.get?_set_self _ _ _⟩

theorem current_of_completeRunnerAction {expected : ℤ}
    (completed : memory.completeRunnerAction record expected audit = .ok next) :
    ∃ current, memory.runnerActions.get? record.nonceKey = some current ∧
      current.stateVersion = expected := by
  simp only [completeRunnerAction, bind_eq_ok] at completed
  rcases completed with ⟨_, -, completed⟩
  split at completed
  · cases completed
  · next current stored =>
    simp only [bind_eq_ok, require_eq_ok, exists_const] at completed
    exact ⟨current, stored, completed.1⟩

theorem stored_of_pendingRunnerActions {order : IterationOrder RunnerActionRecord} {limit : ℤ}
    {records : List RunnerActionRecord}
    (listed : memory.pendingRunnerActions order tenantID runnerGroup limit = .ok records)
    (member : record ∈ records) :
    (∃ key, memory.runnerActions.get? key = some record) ∧
      (record.status = some .reserved ∨ record.status = some .unknown) := by
  simp only [pendingRunnerActions, bind_eq_ok] at listed
  rcases listed with ⟨_, -, listed⟩
  cases listed
  have pending : record ∈ (order.arrange 0 memory.runnerActions.values).filter fun record =>
      record.tenantID = tenantID ∧ record.runnerGroup = runnerGroup ∧
        (record.status = some .reserved ∨ record.status = some .unknown) := by
    split at member
    · exact List.mem_of_mem_take member
    · exact member
  simp only [List.mem_filter, IterationOrder.mem_arrange, GoMap.mem_values_iff,
    decide_eq_true_eq] at pending
  exact ⟨pending.1, pending.2.2.2⟩

end Store.Memory

namespace Runner

open Domain Protocol Store Interaction

section Effects

variable {memory next : Memory} {op : Op} {answer : op.Res}

theorem honest_of_effect (effect : JournalEffect memory op answer next) : Honest op answer := by
  cases op with
  | reserveRunnerAction record audit =>
    rcases answer with error | ⟨found, _ | _⟩
    · trivial
    · trivial
    · rcases Memory.reserveRunnerAction_cases (reserve_of_created effect) with
        ⟨impossible, -⟩ | ⟨-, -, -, created, -⟩
      · cases impossible
      · exact created
  | pendingRunnerActions tenantID runnerGroup limit =>
    rcases effect with ⟨order, performed⟩
    cases answer with
    | error error => trivial
    | ok records =>
      intro record member
      exact (Memory.stored_of_pendingRunnerActions performed.ok_of_read member).2
  | _ => trivial

theorem stored_of_shown (effect : JournalEffect memory op answer next)
    (isShown : record ∈ shown ⟨op, answer⟩) : ∃ key, next.runnerActions.get? key = some record := by
  cases op with
  | getRunnerAction tenantID runnerGroup nonce =>
    cases answer with
    | error error => cases isShown
    | ok found =>
      cases List.mem_singleton.mp isShown
      rw [effect.eq_of_read]
      exact ⟨_, Memory.stored_of_getRunnerAction effect.ok_of_read⟩
  | reserveRunnerAction reserving audit =>
    cases answer with
    | error error => cases isShown
    | ok outcome =>
      cases List.mem_singleton.mp isShown
      cases effect with
      | returned eq => exact Memory.stored_of_reserveRunnerAction eq
  | completeRunnerAction completing expected audit =>
    cases answer with
    | error error => cases isShown
    | ok =>
      cases List.mem_singleton.mp isShown
      cases effect with
      | returned eq =>
        cases completed : memory.completeRunnerAction completing expected audit with
        | error error =>
          rw [completed] at eq
          cases eq
        | ok after =>
          rw [completed] at eq
          cases eq
          rw [Memory.eq_of_completeRunnerAction completed]
          exact ⟨_, GoMap.get?_set_self _ _ _⟩
  | pendingRunnerActions tenantID runnerGroup limit =>
    rcases effect with ⟨order, performed⟩
    cases answer with
    | error error => cases isShown
    | ok records =>
      rw [performed.eq_of_read]
      exact (Memory.stored_of_pendingRunnerActions performed.ok_of_read isShown).1
  | _ => cases isShown

end Effects

variable {before after : RunnerActionRecord} {key : String}
  {rest : Prog requests (Exit ⊕ Option GoError)} {events : History}

section Keeping

variable {ι : Type} (digest : Digest) (invocations : ι → Invocation)

/-- The record was made for an invocation, under its own key. -/
structure Entry (key : String) (record : RunnerActionRecord) : Prop where
  key : key = record.nonceKey
  executed : ∃ process runner order grant, invocations process = .execute runner order grant ∧
    grantHash digest order grant = .ok record.requestHash ∧
    Index.nonce.ofRecord record = Index.nonce.ofGrant grant

/-- Every record is an entry, and what was shown has at most moved since. -/
structure Kept (memory : Memory) (trace : List (ι × Event requests)) : Prop where
  entries : ∀ key record, memory.runnerActions.get? key = some record →
    Entry digest invocations key record
  shown : ∀ entry ∈ trace, ∀ record ∈ shown entry.2, ∃ stored,
    memory.runnerActions.get? record.nonceKey = some stored ∧
      Relation.ReflTransGen Moves record stored

/-- Every record stays as it is, or moves. -/
def Advances (memory next : Memory) : Prop :=
  ∀ key before, memory.runnerActions.get? key = some before →
    ∃ after, next.runnerActions.get? key = some after ∧ (after = before ∨ Moves before after)

variable {digest invocations} {memory next : Memory} {trace : List (ι × Event requests)}
  {process : ι} {op : Op} {answer : op.Res}

theorem Moves.ofRecord_eq (moves : Moves before after) (index : Index) :
    index.ofRecord after = index.ofRecord before := by
  rw [moves.rest]
  cases index <;> rfl

theorem Entry.of_moves (entry : Entry digest invocations key before) (moves : Moves before after) :
    Entry digest invocations key after where
  key := by rw [moves.nonceKey_eq, entry.key]
  executed := by
    rw [moves.requestHash_eq, moves.ofRecord_eq]
    exact entry.executed

variable [DecidableEq ι]

/-- A call changes the journal only by justified requests. -/
def Invocation.Justifies (digest : Digest) (history : History) (invocation : Invocation)
    (op : Op) : Prop :=
  Justified (fun record => ∃ runner order grant, invocation = .execute runner order grant ∧
    Reserves digest order grant record) history op

section

variable (kept : Kept digest invocations memory trace)
  (justified : (invocations process).Justifies digest (Pool.localTrace trace process) op)
  (effect : JournalEffect memory op answer next)

include kept justified effect

/-- What a justified request may do to the journal: nothing, a new entry, or a move. -/
theorem Kept.change :
    next.runnerActions = memory.runnerActions ∨ ∃ record,
      next.runnerActions = memory.runnerActions.set record.nonceKey record ∧
        (memory.runnerActions.get? record.nonceKey = none ∧
            Entry digest invocations record.nonceKey record ∨
          ∃ current, memory.runnerActions.get? record.nonceKey = some current ∧
            Moves current record) := by
  rcases journalEffect_cases effect with rfl | ⟨record, audit, found, rfl, reserved⟩ |
    ⟨record, expected, audit, rfl, completed⟩
  · exact Or.inl rfl
  · rcases Memory.reserveRunnerAction_cases reserved with ⟨impossible, -⟩ |
      ⟨-, unused, -, rfl, rfl⟩
    · cases impossible
    · rcases justified with ⟨runner, order, grant, invocation, requestHash, now, hashed, rfl⟩
      exact Or.inr ⟨_, rfl, Or.inl ⟨unused,
        ⟨rfl, process, runner, order, grant, invocation, hashed, rfl⟩⟩⟩
  · rcases justified with ⟨known, ⟨event, member, isShown⟩, version, moves⟩
    rcases Memory.current_of_completeRunnerAction completed with ⟨current, stored, current_version⟩
    rcases kept.shown (process, event) (Discipline.mem_localTrace.mp member) known isShown with
      ⟨latest, found, moved⟩
    have sameKey : known.nonceKey = (record.advanced expected).nonceKey :=
      moves.nonceKey_eq.symm
    have same : latest = current := by
      rw [sameKey] at found
      exact Option.some.inj (found.symm.trans stored)
    have unmoved : latest = known := by
      apply Moves.eq_of_version moved
      rw [same, current_version, version]
    rw [Memory.eq_of_completeRunnerAction completed]
    refine Or.inr ⟨_, rfl, Or.inr ⟨current, stored, ?_⟩⟩
    rw [← same, unmoved]
    exact moves

theorem Kept.advances : Advances memory next := by
  intro key before stored
  rcases kept.change justified effect with same | ⟨record, changed, cause⟩
  · exact ⟨before, by rw [same, stored], Or.inl rfl⟩
  · rw [changed, GoMap.get?_set]
    split
    · next atKey =>
      subst atKey
      rcases cause with ⟨missing, -⟩ | ⟨current, found, moves⟩
      · rw [missing] at stored
        cases stored
      · cases found.symm.trans stored
        exact ⟨record, rfl, Or.inr moves⟩
    · exact ⟨before, stored, Or.inl rfl⟩

theorem Kept.step :
    Kept digest invocations next (trace ++ [(process, ⟨op, answer⟩)]) := by
  have entries : ∀ key record, next.runnerActions.get? key = some record →
      Entry digest invocations key record := by
    intro key record stored
    rcases kept.change justified effect with same | ⟨changing, changed, cause⟩
    · rw [same] at stored
      exact kept.entries key record stored
    · rw [changed, GoMap.get?_set] at stored
      split at stored
      · next atKey =>
        subst atKey
        cases stored
        rcases cause with ⟨-, entry⟩ | ⟨current, found, moves⟩
        · exact entry
        · exact (kept.entries _ current found).of_moves moves
      · exact kept.entries key record stored
  refine ⟨entries, ?_⟩
  intro entry member record isShown
  rcases List.mem_append.mp member with earlier | last
  · rcases kept.shown entry earlier record isShown with ⟨stored, found, moved⟩
    rcases kept.advances justified effect _ stored found with ⟨after, foundAfter, rfl | moves⟩
    · exact ⟨after, foundAfter, moved⟩
    · exact ⟨after, foundAfter, moved.tail moves⟩
  · cases List.mem_singleton.mp last
    rcases stored_of_shown effect isShown with ⟨key, stored⟩
    rw [(entries key record stored).key] at stored
    exact ⟨record, stored, .refl⟩

end

end Keeping

section Pools

variable {ι : Type} [DecidableEq ι] {digest : Digest} {legal : (op : Op) → op.Res → Prop}
  {invocations : ι → Invocation} {start : Memory}

def recordAt (pool : Pool (sharedJournal legal) ι (Exit ⊕ Option GoError)) (key : String) :
    Option RunnerActionRecord :=
  (Memory.runnerActions pool.world).get? key

variable {pool later : Pool (sharedJournal legal) ι (Exit ⊕ Option GoError)}

theorem honest_of_answers (memory : Memory) (op : Op) (answer : op.Res) (next : Memory)
    (answered : (sharedJournal legal).answers memory op answer next) : Honest op answer :=
  honest_of_effect answered.2

omit [DecidableEq ι] in
theorem justified_of_run {process : ι}
    (run : Runs (Machine.free (S := requests) Honest) () (code digest invocations process) events
      () rest) {op : Op} {next : op.Res → Prog requests (Exit ⊕ Option GoError)}
    (requested : rest.head = .request op next) :
    (invocations process).Justifies digest events op := by
  have safe := (Invocation.of_run run).2 op next requested
  generalize invocations process = invocation at safe ⊢
  cases invocation with
  | execute runner order grant =>
    have justified := safe.2 run.legal
    cases op with
    | reserveRunnerAction record audit => exact ⟨runner, order, grant, rfl, justified⟩
    | _ => exact justified
  | reconcile runner reconciler limit => exact Resolves.justified safe run.legal

section

variable (reachable : Pool.Reachable (code digest invocations) start pool)
  (empty : start.runnerActions = ∅)

include reachable empty

theorem kept_of_reachable : Kept digest invocations pool.world pool.trace := by
  apply reachable.invariant honest_of_answers (Kept digest invocations)
  · constructor
    · intro key record stored
      rw [empty] at stored
      cases stored
    · intro entry member
      cases member
  · intro memory trace process program op next answer after kept run requested answered
    exact kept.step (justified_of_run run requested) answered.2

theorem advances_of_step (step : Pool.Step pool later) :
    Advances pool.world later.world := by
  cases step with
  | @act process program op next answer after running requested answered =>
    rcases reachable.localRun honest_of_answers process with ⟨rest, run, current⟩
    rw [← current program running] at run
    exact (kept_of_reachable reachable empty).advances (justified_of_run run requested) answered.2
  | crash => exact fun key before stored => ⟨before, stored, Or.inl rfl⟩

theorem recordAt_of_succeeded (steps : Relation.ReflTransGen Pool.Step pool later)
    (stored : recordAt pool key = some record) (succeeded : record.status = some .succeeded) :
    recordAt later key = some record := by
  induction steps with
  | refl => exact stored
  | @tail middle last reached step ih =>
    have reachedHere : Pool.Reachable (code digest invocations) start middle :=
      reachable.trans reached
    rcases advances_of_step reachedHere empty step key record ih with ⟨after, found, rfl | moves⟩
    · exact found
    · exact absurd succeeded moves.not_succeeded

theorem recordAt_of_known {process : ι} (known : Known (Pool.localTrace pool.trace process) record)
    (succeeded : record.status = some .succeeded) :
    recordAt pool record.nonceKey = some record := by
  rcases known with ⟨event, member, isShown⟩
  rcases (kept_of_reachable reachable empty).shown _ (Discipline.mem_localTrace.mp member)
    record isShown with ⟨stored, found, moved⟩
  rw [Moves.eq_of_succeeded moved succeeded] at found
  exact found

/-- The record of the result which a call of `Execute` has returned. -/
theorem record_of_returned {process : ι} {order : IterationOrder (String × String)}
    {grant : ActionGrant} {exit : Exit}
    (invocation : invocations process = .execute runner order grant)
    (returned : pool.returned process = some (.inl exit))
    (succeeded : exit.1.status = some .succeeded) :
    ∃ record, recordAt pool record.nonceKey = some record ∧
      record.status = some .succeeded ∧ record.result = exit.1 ∧
      grantHash digest order grant = .ok record.requestHash := by
  rcases reachable.localRun honest_of_answers process with ⟨rest, run, current⟩
  rw [← current _ (Pool.processes_of_returned returned)] at run
  have returns := (Invocation.of_run run).1 _ rfl
  rw [invocation] at returns
  rcases returns run.legal succeeded with ⟨record, known, status, result, hash⟩
  exact ⟨record, recordAt_of_known reachable empty known status, status, result, hash⟩

theorem eq_of_lookup (steps : Relation.ReflTransGen Pool.Step pool later)
    {nonce : String} {found : RunnerActionRecord}
    (stored : recordAt pool (runnerNonceKey tenantID runnerGroup nonce) = some record)
    (succeeded : record.status = some .succeeded) {process : ι}
    (member : (process, ⟨Op.getRunnerAction tenantID runnerGroup nonce, .ok found⟩) ∈ later.trace) :
    (process, ⟨Op.getRunnerAction tenantID runnerGroup nonce, .ok found⟩) ∈ pool.trace ∨
      found = record := by
  induction steps with
  | refl => exact Or.inl member
  | @tail middle last reached step ih =>
    cases step with
    | crash => exact ih member
    | @act acting program op next answer after running requested answered =>
      rcases List.mem_append.mp member with earlier | now
      · exact ih earlier
      · cases List.mem_singleton.mp now
        have read := Memory.stored_of_getRunnerAction answered.2.ok_of_read
        have kept := recordAt_of_succeeded reachable empty reached stored succeeded
        exact Or.inr (Option.some.inj (read.symm.trans kept))

end

end Pools

/-- The runner verifies grants and has a journal, and the grant is meant for it. -/
structure Serves (runner : Runner) (grant : ActionGrant) : Prop where
  grants : runner.grants = true
  tenant : runner.tenantID ≠ "" ∧ grant.tenantID = runner.tenantID
  group : runner.runnerGroup ≠ "" ∧ grant.runnerGroup = runner.runnerGroup
  journal : runner.journal = true

/-- Answers with which grants pass their verification and lookups do not fail. -/
def Passing : (op : Op) → op.Res → Prop
  | .verifyGrant _, answer => answer = .ok ()
  | .getRunnerAction _ _ _, answer => ∃ found, answer = .ok found
  | _, _ => True

/-- The two requests of a call with a replayed grant. -/
def Looks (grant : ActionGrant) (history : History) (op : Op) : Prop :=
  history.length = 0 ∧ op = .verifyGrant grant ∨
    history.length = 1 ∧ op = .getRunnerAction grant.tenantID grant.runnerGroup grant.nonce

section Replays

variable {digest : Digest} {order : IterationOrder (String × String)} {grant : ActionGrant}
  {requestHash : String}

/-- A call whose lookup finds a record leaves with the answer for that record. -/
theorem Serves.execute (serves : runner.Serves grant)
    (hashed : grantHash digest order grant = .ok requestHash) :
    Ensures (Machine.free (S := requests) Passing).traced (fun world op => Looks grant world.2 op)
      (fun value world => ∃ found, value = .inl (replayResult grant found requestHash) ∧
        ⟨Op.getRunnerAction grant.tenantID grant.runnerGroup grant.nonce, .ok found⟩ ∈ world.2)
      ((), []) ((Invocation.execute runner order grant).program digest) := by
  simp only [Invocation.program, Runner.execute, Runner.perform, Runner.authorize,
    Runner.verifyGrant, Runner.checkReplay, check, if_pos serves.grants, if_pos serves.tenant,
    if_pos serves.group, if_pos serves.journal, hashed, accept, bind_assoc, pure_bind]
  apply Ensures.requestTraced (Or.inl ⟨rfl, rfl⟩)
  intro answer _ passing
  cases passing
  apply Ensures.requestTraced (Or.inr ⟨rfl, rfl⟩)
  rintro answer _ ⟨found, rfl⟩
  exact Ensures.pure ⟨found, rfl, by simp⟩

/-- How far a call with a replayed grant has come. -/
theorem Serves.replays (serves : runner.Serves grant)
    (hashed : grantHash digest order grant = .ok requestHash)
    (run : Runs (Machine.free (S := requests) Passing) ()
      ((Invocation.execute runner order grant).program digest) events () rest) :
    (∀ event ∈ events, event.1.isWrite = false) ∧
      ((∃ found, rest = .pure (.inl (replayResult grant found requestHash)) ∧
        ⟨Op.getRunnerAction grant.tenantID grant.runnerGroup grant.nonce, .ok found⟩ ∈ events) ∨
      ∃ op next, rest.head = .request op next ∧ Looks grant events op) := by
  constructor
  · intro event member
    rcases List.append_of_mem member with ⟨before, after, rfl⟩
    rcases run.split with ⟨⟨⟩, stopped, next, earlier, requested⟩
    rcases ((serves.execute hashed).of_traced earlier).2 _ next requested with
      ⟨-, eq⟩ | ⟨-, eq⟩
    · rw [eq]
      rfl
    · rw [eq]
      rfl
  · rcases (serves.execute hashed).of_traced run with ⟨returned, requested⟩
    cases head : rest.head with
    | done value =>
      rw [Prog.head_eq_done] at head
      subst head
      rcases returned value rfl with ⟨found, rfl, member⟩
      exact Or.inl ⟨found, rfl, member⟩
    | request op next => exact Or.inr ⟨op, next, rfl, requested op next head⟩

/-- The hash of a grant does not depend on the order in which its fields are checked. -/
theorem grantHash_order (hashed : grantHash digest order grant = .ok requestHash)
    (other : IterationOrder (String × String)) :
    grantHash digest other grant = .ok requestHash := by
  simp only [grantHash, bind_eq_ok] at hashed ⊢
  rcases hashed with ⟨payload, canonical, hashed⟩
  rcases exists_payload_iff.mpr (exists_payload_iff.mp ⟨payload, canonical⟩) with
    ⟨content, again⟩
  refine ⟨content, again, ?_⟩
  rw [← (payload_eq_iff canonical again).mpr ⟨rfl, .refl _⟩]
  exact hashed

variable {ι : Type}

def payloads (invocations : ι → Invocation) : Set Json :=
  {payload | ∃ process runner order grant, invocations process = .execute runner order grant ∧
    canonicalGrantPayload order grant = .ok payload}

variable {invocations : ι → Invocation}

/-- Where the digest has no collision, executed grants with one hash have one nonce. -/
theorem ofGrant_eq_of_hash (collisionFree : Set.InjOn digest.hex (payloads invocations))
    {first second : ι} {otherRunner : Runner} {other : IterationOrder (String × String)}
    {otherGrant : ActionGrant} (executed : invocations first = .execute runner order grant)
    (otherExecuted : invocations second = .execute otherRunner other otherGrant)
    (hashed : grantHash digest order grant = .ok requestHash)
    (otherHashed : grantHash digest other otherGrant = .ok requestHash) (index : Index) :
    index.ofGrant grant = index.ofGrant otherGrant := by
  simp only [grantHash, bind_eq_ok] at hashed otherHashed
  rcases hashed with ⟨payload, canonical, hashed⟩
  rcases otherHashed with ⟨content, again, otherHashed⟩
  have same : payload = content := by
    apply (Digest.hashValue_eq_iff collisionFree ⟨first, runner, order, grant, executed, canonical⟩
      ⟨second, otherRunner, other, otherGrant, otherExecuted, again⟩).mp
    exact Except.ok.inj (hashed.trans otherHashed.symm)
  have agrees := ((payload_eq_iff canonical again).mp same).1
  rw [← agrees]
  cases index <;> rfl

end Replays

section Final

variable {ι : Type} [DecidableEq ι] {legal : (op : Op) → op.Res → Prop}

/-- A call for the grant which has not looked for a replay yet. -/
structure Pending (invocations : ι → Invocation)
    (pool : Pool (sharedJournal legal) ι (Exit ⊕ Option GoError)) (process : ι)
    (grant : ActionGrant) : Prop where
  executes : ∃ runner order, invocations process = .execute runner order grant ∧
    runner.Serves grant
  unseen : ∀ tenantID runnerGroup nonce answer,
    ⟨Op.getRunnerAction tenantID runnerGroup nonce, answer⟩ ∉
      Pool.localTrace pool.trace process

/-- What holds of the records in every reachable pool. -/
structure RecordsFinal (digest : Digest) (invocations : ι → Invocation)
    (pool : Pool (sharedJournal legal) ι (Exit ⊕ Option GoError)) : Prop where
  /-- A record changes only by a move. -/
  moves : ∀ next key before, Pool.Step pool next → recordAt pool key = some before →
    ∃ after, recordAt next key = some after ∧ (after = before ∨ Moves before after)
  /-- A succeeded record does not change. -/
  final : ∀ later key record, Relation.ReflTransGen Pool.Step pool later →
    recordAt pool key = some record → record.status = some .succeeded →
    recordAt later key = some record
  faithful : ∀ process runner order grant exit,
    invocations process = .execute runner order grant →
    pool.returned process = some (.inl exit) → exit.1.status = some .succeeded →
    ∃ key record, recordAt pool key = some record ∧ record.status = some .succeeded ∧
      record.result = exit.1 ∧ grantHash digest order grant = .ok record.requestHash
  /-- A later call with the grant verifies it, looks its nonce up and returns the result. -/
  replayed : Set.InjOn digest.hex (payloads invocations) →
    ∀ key record order grant, recordAt pool key = some record →
    record.status = some .succeeded → grantHash digest order grant = .ok record.requestHash →
    ∀ process, Pending invocations pool process grant →
    ∀ later, Relation.ReflTransGen Pool.Step pool later →
    (∀ event ∈ Pool.localTrace later.trace process, Passing event.1 event.2) →
    (∀ event ∈ Pool.localTrace later.trace process, event.1.isWrite = false) ∧
      ∀ program, later.processes process = some program →
        program = .pure (.inl (record.result, none)) ∨ ∃ op next,
          program.head = .request op next ∧
            Looks grant (Pool.localTrace later.trace process) op

/--
Any number of calls of `Execute` and `Reconcile` over one journal, interleaved
and crashing arbitrarily, with failing operations and arbitrary answers of their
other components, keep the records of the journal final and faithful. Replays
need a digest without collisions among the executed grants.
-/
theorem runnerActions_final (digest : Digest) (legal : (op : Op) → op.Res → Prop)
    (invocations : ι → Invocation) (start : Memory) (empty : start.runnerActions = ∅)
    (pool : Pool (sharedJournal legal) ι (Exit ⊕ Option GoError))
    (reachable : Pool.Reachable (code digest invocations) start pool) :
    RecordsFinal digest invocations pool := by
  constructor
  case moves =>
    intro next key before step stored
    exact advances_of_step reachable empty step key before stored
  case final =>
    intro later key record steps stored succeeded
    exact recordAt_of_succeeded reachable empty steps stored succeeded
  case faithful =>
    intro process runner order grant exit invocation returned succeeded
    rcases record_of_returned reachable empty invocation returned succeeded with
      ⟨record, stored, recorded⟩
    exact ⟨_, record, stored, recorded⟩
  case replayed =>
    rintro collisionFree key record order grant stored status hashed process
      ⟨⟨runner, other, invocation, serves⟩, unseen⟩ later steps passing
    rcases (kept_of_reachable reachable empty).entries key record stored with
      ⟨filed, first, firstRunner, firstOrder, firstGrant, executed, firstHashed, named⟩
    -- the record is that of the grant itself, so the lookup of its nonce finds it
    have sameNonce := ofGrant_eq_of_hash collisionFree executed invocation firstHashed
      (grantHash_order hashed other) .nonce
    have fields := named.trans sameNonce
    simp only [Index.ofRecord, Index.ofGrant, Prod.mk.injEq] at fields
    rw [filed, RunnerActionRecord.nonceKey, fields.1, fields.2.1, fields.2.2] at stored
    have reachedLater : Pool.Reachable (code digest invocations) start later :=
      reachable.trans steps
    rcases reachedLater.localRun honest_of_answers process with ⟨rest, run, current⟩
    have replay := run.of_legal passing
    unfold code at replay
    rw [invocation] at replay
    rcases serves.replays (grantHash_order hashed other) replay with ⟨harmless, progress⟩
    refine ⟨harmless, ?_⟩
    intro program running
    rw [current program running]
    rcases progress with ⟨found, rfl, member⟩ | requested
    · left
      rcases eq_of_lookup reachable empty steps stored status
        (Discipline.mem_localTrace.mp member) with earlier | rfl
      · exact absurd (Discipline.mem_localTrace.mpr earlier) (unseen _ _ _ _)
      · simp [replayResult, status]
    · exact Or.inr requested

/-- Two calls with one grant, one after the other, return one result. -/
theorem runnerActions_final_repeated :
    let invocations : Bool → Invocation :=
      fun _ => .execute (runnerFor protocolFixture) .stored protocolFixture
    ∃ pool : Pool (sharedJournal fun _ _ => True) Bool (Exit ⊕ Option GoError),
      newMemory.runnerActions = ∅ ∧ Pool.Reachable (code default invocations) newMemory pool ∧
      RecordsFinal default invocations pool ∧
      ∃ exit, exit.1.status = some .succeeded ∧ pool.returned true = some (.inl exit) ∧
        pool.returned false = some (.inl exit) := by
  intro invocations
  have reachable := reachable_playTwice invocations
  refine ⟨_, rfl, reachable, runnerActions_final _ _ _ _ rfl _ reachable,
    ({ protocolVersion := versionV1Alpha1
       grantID := "grant-1"
       runID := "run-1"
       stepID := "step-1"
       status := some .succeeded
       externalExecutionID := "execution-1"
       completedAt := 1 }, none), rfl, ?_, ?_⟩
  · decide +kernel
  · decide +kernel

end Final

end Runner

end Themisy
