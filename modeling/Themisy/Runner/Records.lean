import Themisy.Interaction.Ensures
import Themisy.Runner.Runner

/-!
# What the calls of a runner know of the journal

The answers of the journal show records to a call. A record changes by moves, and
a justified request changes the journal only by a reservation or by a move of a
record which the call was shown, in the version which it was shown.

The journal answers honestly: a created reservation is reserved in its first
version, and pending records are reserved or unknown.
-/

namespace Themisy.Runner

open Domain Protocol Store Interaction

abbrev History := List (Event requests)

/-- The transitions of a record, in its status and its version. -/
structure Moves (before after : RunnerActionRecord) : Prop where
  status : before.status = some .reserved ∧ after.status = some .succeeded ∨
    before.status = some .reserved ∧ after.status = some .unknown ∨
    before.status = some .unknown ∧ after.status = some .succeeded
  version : after.stateVersion = nextVersion before.stateVersion
  rest : after = { before with
    status := after.status, result := after.result, stateVersion := after.stateVersion,
    updatedAt := after.updatedAt }

namespace Moves

variable {before after : RunnerActionRecord}

theorem nonceKey_eq (moves : Moves before after) : after.nonceKey = before.nonceKey := by
  rw [moves.rest]

theorem requestHash_eq (moves : Moves before after) :
    after.requestHash = before.requestHash := by
  rw [moves.rest]

theorem not_succeeded (moves : Moves before after) : before.status ≠ some .succeeded := by
  rcases moves.status with ⟨status, -⟩ | ⟨status, -⟩ | ⟨status, -⟩ <;> simp [status]

section

variable (moved : Relation.ReflTransGen Moves before after)

include moved

theorem eq_of_succeeded (succeeded : before.status = some .succeeded) : after = before := by
  rcases moved.cases_head with same | ⟨middle, moves, -⟩
  · exact same.symm
  · exact absurd succeeded moves.not_succeeded

end

theorem succeeded_of_moves {middle : RunnerActionRecord} (first : Moves before middle)
    (second : Moves middle after) : after.status = some .succeeded := by
  have unfinished := second.not_succeeded
  rcases first.status with ⟨-, status⟩ | ⟨-, status⟩ | ⟨-, status⟩
  · exact absurd status unfinished
  · rcases second.status with ⟨-, succeeded⟩ | ⟨reserved, -⟩ | ⟨-, succeeded⟩
    · exact succeeded
    · cases status.symm.trans reserved
    · exact succeeded
  · exact absurd status unfinished

/-- A record moves at most twice, so its version does not come back. -/
theorem eq_of_version (moved : Relation.ReflTransGen Moves before after)
    (version : after.stateVersion = before.stateVersion) : after = before := by
  rcases moved.cases_head with same | ⟨middle, first, rest⟩
  · exact same.symm
  · rcases rest.cases_head with rfl | ⟨last, second, rest⟩
    · rw [first.version] at version
      exact absurd version (nextVersion_ne _)
    · have same := eq_of_succeeded rest (succeeded_of_moves first second)
      rw [same, second.version, first.version] at version
      exact absurd version (nextVersion_nextVersion_ne _)

end Moves

/-- The records which an answered request shows to be in the journal. -/
def shown : Event requests → List RunnerActionRecord
  | ⟨.getRunnerAction _ _ _, .ok found⟩ => [found]
  | ⟨.reserveRunnerAction _ _, .ok (found, _)⟩ => [found]
  | ⟨.completeRunnerAction record expected _, .ok ()⟩ =>
    [record.advanced expected]
  | ⟨.pendingRunnerActions _ _ _, .ok records⟩ => records
  | _ => []

/-- The journal has shown the record. -/
def Known (history : History) (record : RunnerActionRecord) : Prop :=
  ∃ event ∈ history, record ∈ shown event

variable {record : RunnerActionRecord} {history later : History}

theorem Known.mono (known : Known history record) (grows : history ⊆ later) :
    Known later record := by
  rcases known with ⟨event, member, isShown⟩
  exact ⟨event, grows member, isShown⟩

theorem Known.last {event : Event requests} (isShown : record ∈ shown event) :
    Known (history ++ [event]) record :=
  ⟨event, by simp, isShown⟩

/-- What every answer of the journal satisfies. -/
def Honest : (op : Op) → op.Res → Prop
  | .reserveRunnerAction record _, .ok (found, true) =>
    found = record.reserved
  | .pendingRunnerActions _ _ _, .ok records =>
    ∀ record ∈ records, record.status = some .reserved ∨ record.status = some .unknown
  | _, _ => True

def Honestly (history : History) : Prop :=
  ∀ event ∈ history, Honest event.1 event.2

theorem Honestly.of_append (honest : Honestly (history ++ later)) : Honestly history :=
  fun event member => honest event (List.mem_append_left _ member)

/-- Requests which change the journal only by certain reservations or by a move. -/
def Justified (reserves : RunnerActionRecord → Prop) (history : History) : Op → Prop
  | .reserveRunnerAction record _ => reserves record
  | .completeRunnerAction record expected _ => ∃ current, Known history current ∧
      expected = current.stateVersion ∧ Moves current (record.advanced expected)
  | _ => True

/-- A result is a success only if a record says so. -/
def Recorded (digest : Digest) (order : IterationOrder (String × String)) (grant : ActionGrant)
    (history : History) (result : Result) : Prop :=
  result.status = some .succeeded → ∃ record, Known history record ∧
    record.status = some .succeeded ∧ record.result = result ∧
    grantHash digest order grant = .ok record.requestHash

section Recorded

variable {digest : Digest} {order : IterationOrder (String × String)} {grant : ActionGrant}
  {history : History}

theorem recorded_of_rejected {result : Result} (status : result.status ≠ some .succeeded) :
    Recorded digest order grant history result :=
  fun succeeded => absurd succeeded status

/-- The answer to a replayed grant is that of the record which was shown. -/
theorem recorded_replayResult {requestHash : String} {record : RunnerActionRecord}
    (hashed : grantHash digest order grant = .ok requestHash) (known : Known history record) :
    Recorded digest order grant history (replayResult grant record requestHash).1 := by
  unfold replayResult
  split
  · exact recorded_of_rejected (by simp)
  · next sameHash =>
    split
    · next succeeded =>
      intro _
      refine ⟨record, known, succeeded, rfl, ?_⟩
      rw [hashed, not_not.mp sameHash]
    · exact recorded_of_rejected (by simp)

end Recorded

end Themisy.Runner
