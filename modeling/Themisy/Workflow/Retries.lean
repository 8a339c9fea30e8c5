import Themisy.Store.Versions
import Themisy.Workflow.Activities

/-!
# Retries of `PersistRun`

Temporal executes an activity again when its result is lost. `PersistRun` takes a version
conflict for a success when the store returns the run which its own update would have
stored. The store never shares a run with its callers: what it keeps and what it returns
are copies, written as JSON and read back. So the comparison is one between a run and the
copy of a copy of it. The audit and outbox events are drawn anew by every execution, and
are therefore arguments of each execution.
-/

namespace Themisy.Store

open Domain
open Workflow.Activities (persisted storeRun)

/-- How runs are copied. -/
structure Copying where
  /-- The run which is read from the JSON encoding; without an encoding `cloneRun` panics. -/
  cloneRun : ReleaseRun → Option ReleaseRun
  /-- Integers are read back exactly. -/
  stateVersion_copy : ∀ {run copy}, cloneRun run = some copy →
    copy.stateVersion = run.stateVersion
  /-- What was read from an encoding is read back exactly, with any version. -/
  cloneRun_copy : ∀ {run copy}, cloneRun run = some copy → ∀ version,
    cloneRun { copy with stateVersion := version } = some { copy with stateVersion := version }

/-- Runs which are their own copies. -/
def Copying.exact : Copying where
  cloneRun := some
  stateVersion_copy := by
    rintro run copy ⟨⟩
    rfl
  cloneRun_copy _ _ := rfl

/-- A run which is not changed by encoding and decoding it. -/
def Copying.Normal (copying : Copying) (run : ReleaseRun) : Prop :=
  copying.cloneRun run = some run

namespace Operation

section

variable {Value Other : Type} (operation : Operation Value) (memory : Memory)

theorem on_bind (follow : Value → Operation Other) :
    (operation >>= follow).on memory = match operation.on memory with
      | (.ok value, next) => (follow value).on next
      | (.error error, next) => (.error error, next) := by
  change (ExceptT.bindCont follow (operation.on memory).1).run (operation.on memory).2 = _
  rcases operation.on memory with ⟨_ | _, next⟩
  · rfl
  · rfl

end

/-- The error of a method which panics. -/
def panicked : StoreError :=
  .other (.plain "panic")

/-- Call a method and look at the error it returns; a panic goes on to the caller. -/
def observe {Value : Type} (operation : Operation Value) : Operation (Except StoreError Value) :=
  fun memory =>
    match operation.on memory with
    | (.ok value, next) => (.ok (.ok value), next)
    | (.error error, next) => (if error = panicked then .error error else .ok (.error error), next)

theorem on_observe {Value : Type} (operation : Operation Value) (memory : Memory) :
    (observe operation).on memory = match operation.on memory with
      | (.ok value, next) => (.ok (.ok value), next)
      | (.error error, next) =>
        (if error = panicked then .error error else .ok (.error error), next) :=
  rfl

variable (copying : Copying)

def cloneRun (run : ReleaseRun) : Operation ReleaseRun :=
  match copying.cloneRun run with
  | some copy => pure copy
  | none => throw panicked

/-- `UpdateRunAtomic` with its copies; the result is what the caller's run has become. -/
def updateCopy (run : ReleaseRun) (expectedVersion : ℤ) (audit : List AuditEvent)
    (outbox : List OutboxEvent) : Operation ReleaseRun := do
  match (← get).runs.get? run.id with
  | none => throw .notFound
  | some current =>
    if current.stateVersion = expectedVersion then
      let copy ← cloneRun copying run
      let updated := { copy with stateVersion := nextVersion expectedVersion }
      modify (·.setRun run.id updated)
      let projection ← cloneRun copying updated
      modify fun memory =>
        { memory with projections := memory.projections.set run.id projection }
      modify (·.appendAtomic audit (Memory.appendProjection outbox updated))
      return { run with stateVersion := updated.stateVersion }
    else throw .conflict

def getCopy (id : String) : Operation ReleaseRun := do
  let run ← getRun id
  cloneRun copying run

/-- `PersistRun`, with the events which this execution has built. -/
def persistRun (input : ReleaseRun) (audits : List AuditEvent) (events : List OutboxEvent) :
    Operation ReleaseRun :=
  storeRun input (observe (updateCopy copying input input.stateVersion audits events))
    (observe (getCopy copying input.id)) throw

/-- Executions one after the other, with their results. -/
def persistRuns (input : ReleaseRun) (attempts : List (List AuditEvent × List OutboxEvent)) :
    Operation (List ReleaseRun) :=
  attempts.mapM fun attempt => persistRun copying input attempt.1 attempt.2

section

variable {copying} {memory next : Memory} {input current committed : ReleaseRun}
  {audits : List AuditEvent} {events : List OutboxEvent}

theorem updateCopy_conflict {version : ℤ} (found : memory.runs.get? input.id = some current)
    (moved : current.stateVersion ≠ version) :
    (updateCopy copying input version audits events).on memory = (.error .conflict, memory) := by
  simp only [updateCopy, on_get_bind, found, if_neg moved, on_throw]

theorem getCopy_of_found (found : memory.runs.get? input.id = some current) :
    (getCopy copying input.id).on memory = (cloneRun copying current).on memory := by
  have read : (getRun input.id).on memory = (.ok current, memory) := by
    simp only [getRun, on_get_bind, found, on_pure]
  simp only [getCopy, on_bind, read]

/-- What an update of a run in normal form has stored. -/
theorem stored_of_updateCopy {version : ℤ} (normal : copying.Normal input)
    (commits : (updateCopy copying input version audits events).on memory =
      (.ok committed, next)) :
    committed = { input with stateVersion := nextVersion version } ∧
      next.runs.get? input.id = some committed ∧
      next.projections.get? input.id = some committed := by
  have again : copying.cloneRun { input with stateVersion := nextVersion version } = _ :=
    copying.cloneRun_copy normal _
  rw [Copying.Normal] at normal
  simp only [updateCopy, on_get_bind] at commits
  split at commits
  · cases commits
  · split at commits
    · simp only [cloneRun, normal, again, pure_bind, on_modify_bind, on_pure] at commits
      cases commits
      rw [Memory.runs_appendAtomic, Memory.projections_appendAtomic]
      exact ⟨rfl, GoMap.get?_set_self _ _ _, GoMap.get?_set_self _ _ _⟩
    · cases commits

/-- After a conflict the activity succeeds with the run which it would have stored. -/
theorem persistRun_of_conflict (found : memory.runs.get? input.id = some current)
    (moved : current.stateVersion ≠ input.stateVersion) :
    (persistRun copying input audits events).on memory =
      match copying.cloneRun current with
      | none => (.error panicked, memory)
      | some copy =>
        if copy = persisted input then
          (.ok copy, memory)
        else (.error .conflict, memory) := by
  have conflict : (observe (updateCopy copying input input.stateVersion audits events)).on memory =
      (.ok (.error .conflict), memory) := by
    simp only [on_observe, updateCopy_conflict found moved]
    rfl
  simp only [persistRun, storeRun, on_bind, conflict, on_observe, getCopy_of_found found, cloneRun]
  cases copying.cloneRun current with
  | none => rfl
  | some copy =>
    simp only [on_pure]
    split
    · rfl
    · rfl

section

variable (found : memory.runs.get? input.id =
  some (persisted input))

include found

theorem persistRun_of_stored (normal : copying.Normal input) :
    (persistRun copying input audits events).on memory =
      (.ok (persisted input), memory) := by
  have copied : copying.cloneRun (persisted input) = some (persisted input) :=
    copying.cloneRun_copy normal _
  rw [persistRun_of_conflict found (nextVersion_ne _), copied]
  exact if_pos rfl

theorem persistRuns_of_stored (normal : copying.Normal input)
    (attempts : List (List AuditEvent × List OutboxEvent)) :
    (persistRuns copying input attempts).on memory = (.ok (List.replicate attempts.length
      (persisted input)), memory) := by
  induction attempts with
  | nil => rfl
  | cons attempt rest ih =>
    rw [persistRuns] at ih ⊢
    rw [List.mapM_cons, on_bind, persistRun_of_stored found normal]
    dsimp only
    rw [on_bind, ih]
    rfl

end

end

end Operation

variable {copying : Copying} {memory next : Memory} {input committed : ReleaseRun}
  {audits : List AuditEvent} {events : List OutboxEvent}

open Operation MemoryCall

/-- The versions of a run differ as long as it is not updated too often. -/
theorem iterate_nextVersion_ne {count : ℕ} (positive : 0 < count) (bounded : count < 2 ^ 64 - 1)
    (version : ℤ) : nextVersion^[count] (nextVersion version) ≠ version ∧
      nextVersion^[count] (nextVersion version) ≠ nextVersion version := by
  have sum : ∀ count : ℕ, nextVersion^[count] (nextVersion version) =
      Int.bmod (version + 1 + count) (2 ^ 64) := by
    intro count
    induction count with
    | zero => simp [nextVersion]
    | succ count ih =>
      rw [Function.iterate_succ_apply', ih, nextVersion, Int.bmod_add_bmod, Nat.cast_succ]
      ring_nf
  rw [sum, nextVersion]
  simp only [Int.bmod_def]
  omega

/--
Executing `PersistRun` again after it has committed returns the committed run and changes
nothing, as long as nobody else has changed the run. Afterwards it fails and changes
nothing; the calls in between must not be so many that the version comes round.
-/
theorem persistRun_idempotent (normal : copying.Normal input)
    (commits : (updateCopy copying input input.stateVersion audits events).on memory =
      (.ok committed, next)) :
    (persistRun copying input audits events).on memory = (.ok committed, next) ∧
      committed = persisted input ∧
      (∀ attempts, (persistRuns copying input attempts).on next =
        (.ok (List.replicate attempts.length committed), next)) ∧
      ∀ calls, calls.length < 2 ^ 64 - 1 →
        (conduct next calls).2.runs.get? input.id ≠ next.runs.get? input.id →
        ∀ audits events, ∃ error,
          (persistRun copying input audits events).on (conduct next calls).2 =
            (.error error, (conduct next calls).2) := by
  obtain ⟨rfl, stored, projected⟩ := stored_of_updateCopy normal commits
  refine ⟨?_, rfl, persistRuns_of_stored stored normal, ?_⟩
  · simp only [persistRun, storeRun, on_bind, on_observe, commits, on_pure]
  · intro calls bounded different audits events
    have inStep := inStep_conduct (projected.trans stored.symm) calls
    rw [stored] at inStep different
    have updates : 0 < (conduct next calls).1.countP (isUpdateOf input.id) := by
      by_contra none
      exact different (inStep.kept _ rfl (by omega))
    have atMost : (conduct next calls).1.countP (isUpdateOf input.id) < 2 ^ 64 - 1 :=
      (List.countP_le_length.trans_eq (length_conduct next calls)).trans_lt bounded
    obtain ⟨current, found, version⟩ := Option.map_eq_some_iff.mp inStep.versions
    obtain ⟨behind, beyond⟩ := iterate_nextVersion_ne updates atMost input.stateVersion
    rw [persistRun_of_conflict found (by rw [version]; exact behind)]
    cases copied : copying.cloneRun current with
    | none => exact ⟨_, rfl⟩
    | some copy =>
      refine ⟨_, if_neg ?_⟩
      rintro rfl
      exact beyond (version.symm.trans (copying.stateVersion_copy copied).symm)

theorem persistRun_idempotent_pilot :
    ∃ next, (persistRun .exact pilotRun [] []).on (newMemory.insertRun pilotRun) =
        (.ok { pilotRun with stateVersion := 2 }, next) ∧
      (persistRuns .exact pilotRun [([], []), ([], [])]).on next =
        (.ok [{ pilotRun with stateVersion := 2 }, { pilotRun with stateVersion := 2 }],
          next) := by
  have normal : Copying.exact.Normal pilotRun := rfl
  have commits : (updateCopy .exact pilotRun 1 [] []).on (newMemory.insertRun pilotRun) =
      (.ok { pilotRun with stateVersion := 2 }, _) := rfl
  obtain ⟨persisted, -, again, -⟩ := persistRun_idempotent normal commits
  exact ⟨_, persisted, again _⟩

end Themisy.Store
