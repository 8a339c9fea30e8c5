import Themisy.Runner.Authorization

/-!
# The journal of a runner

The runners of a group share one journal. Its operations are atomic; each of
them may also fail, before or after its effect. The answers of all other
components are only restricted by a given relation.

Nonces and idempotency keys which are taken stay taken, a reservation is created
only when both are free, and the audit event of a reservation is recorded with it.
-/

namespace Themisy

namespace Store.Memory

open Domain

variable {memory next : Memory} {record : RunnerActionRecord} {audit : AuditEvent}

theorem reserveRunnerAction_cases {found : RunnerActionRecord} {created : Bool}
    (reserved : memory.reserveRunnerAction record audit = .ok ((found, created), next)) :
    created = false ∧ next = memory ∨
      created = true ∧
        memory.runnerActions.get? record.nonceKey = none ∧
        memory.runnerByKey.get? record.claimKey = none ∧
        found = record.reserved ∧
        next = (memory.insertAction found).appendAudit audit := by
  simp only [reserveRunnerAction, bind_eq_ok] at reserved
  obtain ⟨_, -, reserved⟩ := reserved
  split at reserved
  · cases reserved
    exact Or.inl ⟨rfl, rfl⟩
  · next unused =>
    split at reserved
    · cases reserved
      exact Or.inl ⟨rfl, rfl⟩
    · next free =>
      cases reserved
      exact Or.inr ⟨rfl, unused, free, rfl, rfl⟩

theorem eq_of_completeRunnerAction {expected : ℤ}
    (completed : memory.completeRunnerAction record expected audit = .ok next) :
    next = (memory.replaceAction (record.advanced expected)).appendAudit
      audit := by
  simp only [completeRunnerAction, bind_eq_ok] at completed
  obtain ⟨_, -, completed⟩ := completed
  split at completed
  · cases completed
  · simp only [bind_eq_ok, require_eq_ok, exists_const] at completed
    obtain ⟨-, returned⟩ := completed
    cases returned
    rfl

end Store.Memory

namespace Runner

open Domain Protocol Store Interaction

/-- The answers which the journal may give to a request. -/
def JournalEffect (memory : Memory) : (op : Op) → op.Res → Memory → Prop
  | .getRunnerAction tenantID runnerGroup nonce, answer, next =>
    Performs memory ((memory.getRunnerAction tenantID runnerGroup nonce).map (·, memory))
      answer next
  | .reserveRunnerAction record audit, answer, next =>
    Performs memory (memory.reserveRunnerAction record audit) answer next
  | .completeRunnerAction record expected audit, answer, next =>
    Performs memory ((memory.completeRunnerAction record expected audit).map ((), ·))
      answer next
  | .pendingRunnerActions tenantID runnerGroup limit, answer, next =>
    ∃ order, Performs memory
      ((memory.pendingRunnerActions order tenantID runnerGroup limit).map (·, memory)) answer next
  | _, _, next => next = memory

/-- Runners over one journal, whose components give legal answers. -/
def sharedJournal (legal : (op : Op) → op.Res → Prop) : Machine requests where
  World := Memory
  answers memory op answer next := legal op answer ∧ JournalEffect memory op answer next

variable {op : Op} {answer : op.Res}

section Effects

variable {memory next : Memory}

theorem eq_of_isCheck (isCheck : op.isCheck = true) (effect : JournalEffect memory op answer next) :
    next = memory := by
  cases op with
  | getRunnerAction => exact effect.eq_of_read
  | pendingRunnerActions =>
    obtain ⟨order, performed⟩ := effect
    exact performed.eq_of_read
  | reserveRunnerAction | completeRunnerAction => cases isCheck
  | _ => exact effect

/-- The only operations which change the journal: a new reservation or a completed action. -/
theorem journalEffect_cases (effect : JournalEffect memory op answer next) :
    next = memory ∨
      (∃ record audit found, op = .reserveRunnerAction record audit ∧
        memory.reserveRunnerAction record audit = .ok ((found, true), next)) ∨
      ∃ record expected audit, op = .completeRunnerAction record expected audit ∧
        memory.completeRunnerAction record expected audit = .ok next := by
  cases op with
  | getRunnerAction => exact Or.inl effect.eq_of_read
  | pendingRunnerActions =>
    obtain ⟨order, performed⟩ := effect
    exact Or.inl performed.eq_of_read
  | reserveRunnerAction record audit =>
    rcases effect.eq_or with same | ⟨⟨found, created⟩, eq⟩
    · exact Or.inl same
    · rcases Memory.reserveRunnerAction_cases eq with ⟨-, same⟩ | ⟨rfl, -⟩
      · exact Or.inl same
      · exact Or.inr (Or.inl ⟨record, audit, found, rfl, eq⟩)
  | completeRunnerAction record expected audit =>
    rcases effect.eq_or_of_write with same | eq
    · exact Or.inl same
    · exact Or.inr (Or.inr ⟨record, expected, audit, rfl, eq⟩)
  | _ => exact Or.inl effect

theorem auditEvents_of_effect (effect : JournalEffect memory op answer next) {event : AuditEvent}
    {correlationID : String} (member : event ∈ memory.auditEvents correlationID) :
    event ∈ next.auditEvents correlationID := by
  have appended : ∀ {changed : Memory} {audit : AuditEvent}, changed.audit = memory.audit →
      event ∈ (changed.appendAudit audit).auditEvents correlationID := by
    intro changed audit same
    have kept : event ∈ changed.auditEvents correlationID := by
      rw [Memory.auditEvents, same]
      exact member
    rw [Memory.auditEvents_appendAudit]
    split
    · exact List.mem_append_left _ kept
    · exact kept
  rcases journalEffect_cases effect with rfl | ⟨record, audit, found, -, eq⟩ |
    ⟨record, expected, audit, -, eq⟩
  · exact member
  · rcases Memory.reserveRunnerAction_cases eq with ⟨impossible, -⟩ | ⟨-, -, -, -, rfl⟩
    · cases impossible
    · exact appended rfl
  · rw [Memory.eq_of_completeRunnerAction eq]
    exact appended rfl

theorem reserve_of_created {record found : RunnerActionRecord} {audit : AuditEvent}
    (effect : JournalEffect memory (.reserveRunnerAction record audit) (.ok (found, true)) next) :
    memory.reserveRunnerAction record audit = .ok ((found, true), next) := by
  cases effect with
  | returned eq => exact eq

end Effects

theorem sharedJournal_quiet (legal : (op : Op) → op.Res → Prop) : Quiet (sharedJournal legal) where
  check isCheck answered := eq_of_isCheck isCheck answered.2
  refused := by
    rintro memory record audit found next ⟨-, effect⟩
    cases effect with
    | returned eq =>
      rcases Memory.reserveRunnerAction_cases eq with ⟨-, same⟩ | ⟨impossible, -⟩
      · exact same
      · cases impossible

end Runner

end Themisy
