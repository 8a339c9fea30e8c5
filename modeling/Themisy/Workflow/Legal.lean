import Themisy.Workflow.Executions
import Themisy.Workflow.Release

/-!
# The answers to the workflow

What is known about the answers of the activities, and the run which was persisted
last according to the history of the answered requests.
-/

namespace Themisy.Workflow.Release

open Domain Interaction

def persistedRun : Event requests → Option ReleaseRun
  | ⟨.persistRun _, .ok run⟩ => some run
  | _ => none

def lastPersisted (history : History) : Option ReleaseRun :=
  history.reverse.findSome? persistedRun

section Histories

variable {history : History}

theorem lastPersisted_append (input : PersistInput) (run : ReleaseRun) :
    lastPersisted (history ++ [⟨.persistRun input, .ok run⟩]) = some run := by
  rw [lastPersisted, List.reverse_append]
  rfl

theorem lastPersisted_append_none {event : Event requests} (other : persistedRun event = none) :
    lastPersisted (history ++ [event]) = lastPersisted history := by
  simp [lastPersisted, other]

end Histories

/-- The answers which the activities can give: a persisted run is stored with the next version. -/
def Legal : (op : Op) → op.Res → Prop
  | .persistRun input, .ok run => run = Activities.persisted input.run
  | _, _ => True

/-- Activities which answer as they can, and any signals. -/
abbrev environment : Machine requests :=
  Machine.free (S := requests) Legal

theorem legal_of_runs {input : PersistInput} {run : ReleaseRun} {memory last : Store.Memory}
    {events : List (Event Activities.requests)}
    (ran : Runs Activities.sharedStore memory (Activities.persistRun input) events last
      (.pure (.ok run))) : Legal (.persistRun input) (.ok run) :=
  Activities.persisted_of_runs ran

end Themisy.Workflow.Release
