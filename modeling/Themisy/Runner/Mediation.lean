import Themisy.Runner.AtMostOnce

/-!
# Complete mediation of writes

The grants of a runner are verified by `Verifier` and its delegations by
`DelegationVerifier`, at the time which the clock shows at the request; its other
components may answer anything. Whenever
`Execute` acquires a credential or calls the adapter, every check has passed in
this call: those of the two verifiers, and those which `Execute` makes itself.
-/

namespace Themisy.Runner

open Domain Protocol Grant Identity Store Interaction

/-- The configured verifiers of a runner. -/
structure Components where
  scheme : SignatureScheme
  verifier : Verifier scheme
  delegations : DelegationVerifier

/-- The answers which are given at a time; those of other components are not restricted. -/
def Components.Legal (components : Components) (now : Time) : (op : Op) → op.Res → Prop
  | .verifyGrant grant, answer => ∃ order, answer = components.verifier.verify order now grant
  | .verifyDelegation request, answer => answer = components.delegations.verify now request
  | .now, answer => answer = now
  | _, _ => True

/-- Runners which share a journal and a clock; the clock is read at each of their requests. -/
def clockedJournal (components : Components) (clock : ℕ → Time) : Machine requests where
  World := Memory × ℕ
  answers world op answer next := components.Legal (clock world.2) op answer ∧
    JournalEffect world.1 op answer next.1 ∧ next.2 = world.2 + 1

section Clock

variable {ι : Type} [DecidableEq ι] {components : Components} {clock : ℕ → Time}
  {pool : Pool (clockedJournal components clock) ι (Exit ⊕ Option GoError)}

/-- Every recorded request was answered at its own time. -/
theorem legal_of_reachable {code : ι → Prog requests (Exit ⊕ Option GoError)} {start : Memory}
    (reachable : Pool.Reachable code (start, 0) pool) {place : ℕ} {entry : ι × Event requests}
    (recorded : pool.trace[place]? = some entry) :
    components.Legal (clock place) entry.2.1 entry.2.2 := by
  have timed := reachable.invariant (fun _ _ _ _ _ => trivial)
    (fun world past => world.2 = past.length ∧ ∀ place entry, past[place]? = some entry →
      components.Legal (clock place) entry.2.1 entry.2.2)
    ⟨rfl, fun _ _ recorded => by cases recorded⟩ ?_
  · exact timed.2 place entry recorded
  · rintro world past process program op next answer after ⟨counted, legal⟩ - - ⟨here, -, ticked⟩
    refine ⟨by rw [ticked, counted, List.length_append, List.length_singleton], ?_⟩
    intro place entry recorded
    rcases lt_or_ge place past.length with earlier | latest
    · rw [List.getElem?_append_left earlier] at recorded
      exact legal place entry recorded
    · rw [List.getElem?_append_right latest, List.getElem?_singleton] at recorded
      obtain ⟨last, eq⟩ := Option.ite_none_right_eq_some.mp recorded
      obtain rfl := Option.some.inj eq
      have now : place = world.2 := by omega
      rw [now]
      exact here

end Clock

/-- A write of `Execute` for which everything was verified in the same call, at its times. -/
structure Lawful {ι : Type} [DecidableEq ι] (components : Components) (clock : ℕ → Time)
    (runner : Runner) (grant : ActionGrant) (findings : Findings)
    (before : List (ι × Event requests)) (process : ι) (op : Op) : Prop where
  ready : Ready runner grant findings (Pool.localTrace before process)
  accepted : ∃ place order, before[place]? = some (process, ⟨.verifyGrant grant, .ok ()⟩) ∧
    components.verifier.Accepts order (clock place) grant
  covered : ∃ place,
    before[place]? = some (process, ⟨.verifyDelegation (delegationRequest grant findings.subject),
      .ok findings.delegation⟩) ∧
    components.delegations.Covers (clock place) (delegationRequest grant findings.subject)
      findings.delegation
  pinned : ∀ request credential, op = .executeAdapter request credential →
    request.target = findings.pinned.target ∧ request.action = findings.pinned.action

theorem Mediated.lawful {ι : Type} [DecidableEq ι] {components : Components} {clock : ℕ → Time}
    {runner : Runner} {grant : ActionGrant} {before : List (ι × Event requests)} {process : ι}
    {op : Op} (mediated : Mediated runner grant (Pool.localTrace before process) op)
    (legal : ∀ place entry, before[place]? = some entry →
      components.Legal (clock place) entry.2.1 entry.2.2) :
    ∃ findings, Lawful components clock runner grant findings before process op := by
  obtain ⟨findings, ready, pinned⟩ := mediated
  obtain ⟨place, granting⟩ := Pool.exists_of_mem_localTrace ready.authorized.granted
  obtain ⟨order, granted⟩ := legal place _ granting
  obtain ⟨later, delegating⟩ := Pool.exists_of_mem_localTrace ready.authorized.delegation
  have delegated : .ok findings.delegation = components.delegations.verify (clock later) _ :=
    legal later _ delegating
  exact ⟨findings, ready, ⟨place, order, granting, Verifier.accepts_of_verify granted.symm⟩,
    ⟨later, delegating, DelegationVerifier.covers_of_verify delegated.symm⟩, pinned⟩

/--
Every credential which a call of `Execute` acquires and every call it makes of
the adapter is lawful, whatever other calls share its journal: the grant and the
delegation were valid when the clock was read to verify them. A call whose
reservations were all refused, or which has not reserved anything, leaves the
journal as it was, has acquired no credential and has not called the adapter.
-/
theorem execute_mediated (components : Components) (clock : ℕ → Time) (digest : Digest)
    (runner : Runner) (order : IterationOrder (String × String)) (grant : ActionGrant) :
    (∀ {ι : Type} [DecidableEq ι] (invocations : ι → Invocation) (start : Memory)
        (pool : Pool (clockedJournal components clock) ι (Exit ⊕ Option GoError)),
      Pool.Reachable (code digest invocations) (start, 0) pool →
      ∀ process, invocations process = .execute runner order grant →
      ∀ before op answer after, pool.trace = before ++ (process, ⟨op, answer⟩) :: after →
      op.isWrite = true →
      ∃ findings, Lawful components clock runner grant findings before process op) ∧
    ∀ (legal : (op : Op) → op.Res → Prop) (start last : Memory) (events : History)
      (rest : Prog requests Exit),
      Runs (sharedJournal legal) start (runner.execute digest order grant) events last rest →
      Unreserved events → last = start ∧ ∀ event ∈ events, event.1.isWrite = false := by
  constructor
  · intro ι _ invocations start pool reachable process invocation before op answer after split
      isWrite
    obtain ⟨rest, next, run, requested⟩ :=
      reachable.requested (fun _ _ _ _ _ => trivial) split
    rw [code, invocation] at run
    have safe := (Invocation.of_run run).2 op next requested
    refine (safe.1 isWrite).lawful fun place entry recorded => legal_of_reachable reachable ?_
    rw [split, List.getElem?_append_left (List.getElem?_eq_some_iff.mp recorded).1, recorded]
  · intro legal start last events rest run
    have ensured := @execute_ensures (sharedJournal legal) digest runner order grant
      (sharedJournal_quiet legal) start
    exact ensured.reached (Clean start) (fun _ _ safe => safe.clean)
      (fun _ _ leaves => leaves.clean) (run.traced [])

/-- The environment in which the verifiers read the clock. -/
def Components.cooperate (components : Components) (clock : ℕ → Time) (findings : Findings) :
    Strategy requests (Memory × ℕ)
  | (memory, tick), .verifyGrant grant =>
    (components.verifier.verify .stored (clock tick) grant, memory, tick + 1)
  | (memory, tick), .verifyDelegation request =>
    (components.delegations.verify (clock tick) request, memory, tick + 1)
  | (memory, tick), .now => (clock tick, memory, tick + 1)
  | (memory, tick), op =>
    ((Runner.cooperate findings memory op).1, (Runner.cooperate findings memory op).2, tick + 1)

theorem Components.answers_cooperate (components : Components) (clock : ℕ → Time)
    (findings : Findings) (world : Memory × ℕ) (op : Op) :
    (clockedJournal components clock).answers world op
      (components.cooperate clock findings world op).1
      (components.cooperate clock findings world op).2 := by
  cases op with
  | verifyGrant grant => exact ⟨⟨.stored, rfl⟩, rfl, rfl⟩
  | verifyDelegation | now => exact ⟨rfl, rfl, rfl⟩
  | _ => exact ⟨trivial, journalEffect_cooperate findings world.1 _, rfl⟩

/-- Verifiers which accept the grants of one issuer, whatever their signatures are. -/
def componentsFor (grant : ActionGrant) : Components where
  scheme := ⟨Unit, fun _ => some [], fun _ _ _ => true⟩
  verifier := ⟨grant.issuer, grant.runnerGroup, grant.tenantID, some fun _ _ => .ok (), 0⟩
  delegations := ⟨some fun _ => .ok (findingsFor grant).delegation,
    fun selector service => some (selector = service)⟩

/-- A signed grant of the fixture reaches the adapter, lawfully. -/
theorem execute_mediated_fixture :
    let grant : ActionGrant :=
      { protocolFixture with signature := ⟨algorithmEd25519, "key-1", "signature"⟩ }
    let clock : ℕ → Time := fun tick => grant.issuedAt.instant + tick
    ∃ findings before op, op.isExecute = true ∧
      Lawful (componentsFor grant) clock (runnerFor grant) grant findings before () op := by
  intro grant clock
  let invocations : Unit → Invocation := fun _ => .execute (runnerFor grant) .stored grant
  let start : Pool (clockedJournal (componentsFor grant) clock) Unit (Exit ⊕ Option GoError) :=
    Pool.initial (code default invocations) (newMemory, 0)
  let strategy := (componentsFor grant).cooperate clock (findingsFor grant)
  have initial : Pool.Reachable (code default invocations) (newMemory, 0) start :=
    Pool.reachable_initial _ _
  have reachable : Pool.Reachable (code default invocations) (newMemory, 0)
      (start.play strategy 20 ()) :=
    initial.play ((componentsFor grant).answers_cooperate _ _) 20 ()
  have written :
      (start.play strategy 20 ()).trace.any (fun entry => entry.2.1.isExecute) = true := by
    decide +kernel
  obtain ⟨⟨⟨⟩, op, answer⟩, member, isExecute⟩ := List.any_eq_true.mp written
  obtain ⟨before, after, split⟩ := List.append_of_mem member
  obtain ⟨findings, lawful⟩ := (execute_mediated (componentsFor grant) clock default
    (runnerFor grant) .stored grant).1 invocations newMemory _ reachable () rfl before op answer
      after split (Op.isWrite_of_isExecute isExecute)
  exact ⟨findings, before, op, isExecute, lawful⟩

end Themisy.Runner
