import Themisy.Interaction.Ensures
import Mathlib.Logic.Relation

/-!
# Concurrent programs over one machine

A pool is a family of programs which share the world of a machine. One step of a
pool answers the next request of one of them, atomically, or crashes one of them.

Seen from inside, an execution of a pool is an execution of each single program in
which the environment may answer anything (`Pool.Reachable.localRun`). A property of
the whole pool is an invariant of world and trace (`Pool.Reachable.invariant`).
-/

namespace Themisy.Interaction

variable {S : Sig} {α ι : Type} [DecidableEq ι]

/-- Processes in one world, with all that was answered. -/
structure Pool (machine : Machine S) (ι α : Type) where
  world : machine.World
  processes : ι → Option (Prog S α)
  trace : List (ι × Event S) := []

namespace Pool

variable {machine : Machine S}

def localTrace (trace : List (ι × Event S)) (process : ι) : List (Event S) :=
  (trace.filter fun entry => entry.1 = process).map Prod.snd

@[simp]
theorem localTrace_append_self (trace : List (ι × Event S)) (process : ι) (event : Event S) :
    localTrace (trace ++ [(process, event)]) process = localTrace trace process ++ [event] := by
  simp [localTrace]

variable {process : ι}

theorem localTrace_append_of_ne (trace : List (ι × Event S)) {other : ι}
    (different : other ≠ process) (event : Event S) :
    localTrace (trace ++ [(other, event)]) process = localTrace trace process := by
  simp [localTrace, different]

theorem exists_of_mem_localTrace {past : List (ι × Event S)} {event : Event S}
    (member : event ∈ localTrace past process) :
    ∃ place : ℕ, past[place]? = some (process, event) := by
  obtain ⟨⟨acting, same⟩, kept, rfl⟩ := List.mem_map.mp member
  obtain ⟨present, eq⟩ := List.mem_filter.mp kept
  obtain rfl := of_decide_eq_true eq
  exact List.mem_iff_getElem?.mp present

inductive Step : Pool machine ι α → Pool machine ι α → Prop where
  | act {pool : Pool machine ι α} {process : ι} {program : Prog S α} {op : S.Op}
      {next : S.Res op → Prog S α} {answer : S.Res op} {world : machine.World}
      (running : pool.processes process = some program)
      (requested : program.head = .request op next)
      (answered : machine.answers pool.world op answer world) :
      Step pool ⟨world, Function.update pool.processes process (some (next answer)),
        pool.trace ++ [(process, ⟨op, answer⟩)]⟩
  | crash (pool : Pool machine ι α) (process : ι) :
      Step pool { pool with processes := Function.update pool.processes process none }

/-- The pools which can be reached when every process starts with its own code. -/
def Reachable (code : ι → Prog S α) (world : machine.World) (pool : Pool machine ι α) : Prop :=
  Relation.ReflTransGen Step ⟨world, fun process => some (code process), []⟩ pool

/-- The machine which may answer anything. -/
abbrev anything : Machine S :=
  Machine.free fun _ _ => True

theorem steps_of_runs {pool : Pool machine ι α} {program rest : Prog S α}
    {events : List (Event S)} {last : machine.World}
    (running : pool.processes process = some program)
    (run : Runs machine pool.world program events last rest) :
    Relation.ReflTransGen Step pool ⟨last, Function.update pool.processes process (some rest),
      pool.trace ++ events.map (process, ·)⟩ := by
  generalize start : pool.world = first at run
  induction run generalizing pool with
  | refl =>
    subst start
    rw [← running, Function.update_eq_self, List.map_nil, List.append_nil]
  | @step _ middle _ _ _ op next answer events requested answered _ ih =>
    subst start
    have later := @ih ⟨middle, Function.update pool.processes process (some (next answer)),
      pool.trace ++ [(process, ⟨op, answer⟩)]⟩ (Function.update_self ..) rfl
    have stepped := Relation.ReflTransGen.head (Step.act running requested answered) later
    simpa using stepped

namespace Reachable

variable {code : ι → Prog S α} {world : machine.World} {pool : Pool machine ι α}
  {legal : (op : S.Op) → S.Res op → Prop} (reachable : Reachable code world pool)
  (allowed : ∀ world op answer next, machine.answers world op answer next → legal op answer)

include reachable allowed

theorem localRun (process : ι) :
    ∃ rest, Runs (Machine.free legal) () (code process) (localTrace pool.trace process) () rest ∧
      ∀ program, pool.processes process = some program → program = rest := by
  induction reachable with
  | refl => exact ⟨code process, Runs.refl _ _, fun _ eq => (Option.some.inj eq).symm⟩
  | tail _ step ih =>
    obtain ⟨rest, run, current⟩ := ih
    cases step with
    | @act acting program op next answer middle running requested answered =>
      by_cases same : acting = process
      · subst same
        have eq := current program running
        subst eq
        refine ⟨next answer, ?_, ?_⟩
        · rw [localTrace_append_self]
          exact run.trans (.step requested (allowed _ _ _ _ answered) (Runs.refl _ _))
        · intro other eq
          simpa using eq.symm
      · refine ⟨rest, ?_, ?_⟩
        · rw [localTrace_append_of_ne _ same]
          exact run
        · intro other eq
          simp only [Function.update_of_ne (Ne.symm same)] at eq
          exact current other eq
    | crash crashed =>
      refine ⟨rest, run, ?_⟩
      intro other eq
      by_cases same : process = crashed
      · simp [same] at eq
      · simp only [Function.update_of_ne same] at eq
        exact current other eq

/-- Every recorded request was the next one of its process, after what it had done before. -/
theorem requested {before after : List (ι × Event S)} {op : S.Op} {answer : S.Res op}
    (split : pool.trace = before ++ (process, ⟨op, answer⟩) :: after) :
    ∃ rest next, Runs (Machine.free legal) () (code process) (localTrace before process) () rest ∧
      rest.head = .request op next := by
  obtain ⟨rest, run, -⟩ := reachable.localRun allowed process
  have localSplit : localTrace pool.trace process =
      localTrace before process ++ ⟨op, answer⟩ :: localTrace after process := by
    simp [split, localTrace]
  rw [localSplit] at run
  obtain ⟨⟨⟩, stopped, next, prefixRun, requested⟩ := run.split
  exact ⟨stopped, next, prefixRun, requested⟩

theorem invariant (holds : machine.World → List (ι × Event S) → Prop) (start : holds world [])
    (kept : ∀ (world : machine.World) (trace : List (ι × Event S)) (process : ι)
      (program : Prog S α) (op : S.Op) (next : S.Res op → Prog S α) (answer : S.Res op)
      (after : machine.World), holds world trace →
      Runs (Machine.free legal) () (code process) (localTrace trace process) () program →
      program.head = .request op next → machine.answers world op answer after →
      holds after (trace ++ [(process, ⟨op, answer⟩)])) :
    holds pool.world pool.trace := by
  induction reachable with
  | refl => exact start
  | @tail middle last reached step ih =>
    cases step with
    | @act process program op next answer after running requested answered =>
      have reachedHere : Reachable code world middle := reached
      obtain ⟨rest, run, current⟩ := reachedHere.localRun allowed process
      have eq := current program running
      subst eq
      exact kept _ _ _ _ _ _ _ _ ih run requested answered
    | crash => exact ih

end Reachable

end Pool

end Themisy.Interaction
