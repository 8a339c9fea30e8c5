import Themisy.Interaction.Pool

/-!
# Acting at most once by reserving first

A pool follows a reservation discipline when its machine grants a reservation only of
a key which is not present, present keys stay present, and every process acts on a
key at most once and only after its own reservation of that key.

Then every key is acted on at most once in the whole pool, and a key whose reserving
process has stopped is never acted on again.
-/

namespace Themisy.Interaction

variable {S : Sig} {α ι Key : Type} [DecidableEq ι] [DecidableEq Key] {machine : Machine S}

/-- Processes act on a key only when they have reserved it. -/
structure Discipline (machine : Machine S) (code : ι → Prog S α) (Key : Type) where
  present : machine.World → Key → Prop
  /-- The key which an answered request has newly reserved. -/
  reserves : Event S → Option Key
  /-- The key which a request of a process acts on. -/
  acts : ι → S.Op → Option Key
  kept : ∀ {world op answer next key}, machine.answers world op answer next →
    present world key → present next key
  fresh : ∀ {world op answer next key}, machine.answers world op answer next →
    reserves ⟨op, answer⟩ = some key → ¬present world key ∧ present next key
  guarded : ∀ {process events rest op next key},
    Runs Pool.anything () (code process) events () rest → rest.head = .request op next →
    acts process op = some key →
      (∃ event ∈ events, reserves event = some key) ∧ ∀ event ∈ events, acts process event.1 = none

namespace Discipline

variable {code : ι → Prog S α} (discipline : Discipline machine code Key)

def reservations (trace : List (ι × Event S)) (key : Key) : List (ι × Event S) :=
  trace.filter fun entry => discipline.reserves entry.2 = some key

def actions (trace : List (ι × Event S)) (key : Key) : List (ι × Event S) :=
  trace.filter fun entry => discipline.acts entry.1 entry.2.1 = some key

variable {discipline}

variable {trace : List (ι × Event S)} {key : Key} {process : ι} {event : Event S} {op : S.Op}
  {pool : Pool machine ι α}

omit [DecidableEq ι] in
theorem mem_reservations {entry : ι × Event S} :
    entry ∈ discipline.reservations trace key ↔
      entry ∈ trace ∧ discipline.reserves entry.2 = some key := by
  simp [reservations]

theorem mem_localTrace : event ∈ Pool.localTrace trace process ↔ (process, event) ∈ trace := by
  simp [Pool.localTrace]

section Reachable

variable {world : machine.World} {pool : Pool machine ι α}

section

variable (reachable : Pool.Reachable code world pool)

include reachable

/-- A key is reserved at most once, and is present from then on. -/
theorem reservations_le_one (key : Key) :
    (discipline.reservations pool.trace key).length ≤ 1 ∧
      (discipline.reservations pool.trace key ≠ [] → discipline.present pool.world key) := by
  have anyAnswer : ∀ world op answer next, machine.answers world op answer next → True :=
    fun _ _ _ _ _ => trivial
  refine reachable.invariant anyAnswer (fun world trace =>
    (discipline.reservations trace key).length ≤ 1 ∧
      (discipline.reservations trace key ≠ [] → discipline.present world key)) (by
        simp [reservations]) ?_
  rintro world trace process program op next answer after ⟨bound, held⟩ - - answered
  have appended : discipline.reservations (trace ++ [(process, ⟨op, answer⟩)]) key =
      discipline.reservations trace key ++
        discipline.reservations [(process, ⟨op, answer⟩)] key := List.filter_append ..
  rw [appended]
  by_cases granted : discipline.reserves ⟨op, answer⟩ = some key
  · obtain ⟨absent, now⟩ := discipline.fresh answered granted
    have none : discipline.reservations trace key = [] := by
      by_contra some
      exact absent (held some)
    refine ⟨?_, fun _ => now⟩
    rw [none, List.nil_append]
    exact List.length_filter_le _ _
  · have unchanged : discipline.reservations [(process, (⟨op, answer⟩ : Event S))] key = [] := by
      simp [reservations, granted]
    rw [unchanged, List.append_nil]
    exact ⟨bound, fun some => discipline.kept answered (held some)⟩

theorem reserver_unique {first second : ι}
    {other : Event S} (firstMem : (first, event) ∈ pool.trace)
    (firstReserved : discipline.reserves event = some key)
    (secondMem : (second, other) ∈ pool.trace)
    (secondReserved : discipline.reserves other = some key) : first = second := by
  have bound := (discipline.reservations_le_one reachable key).1
  have firstIn := mem_reservations.mpr ⟨firstMem, firstReserved⟩
  have secondIn := mem_reservations.mpr ⟨secondMem, secondReserved⟩
  obtain ⟨only, eq⟩ : ∃ only, discipline.reservations pool.trace key = [only] := by
    have positive := List.length_pos_of_mem firstIn
    exact List.length_eq_one_iff.mp (Nat.le_antisymm bound positive)
  rw [eq, List.mem_singleton] at firstIn secondIn
  exact congrArg Prod.fst (firstIn.trans secondIn.symm)

omit [DecidableEq Key] in
/-- Every action is preceded by a reservation of its own process, which has not acted before. -/
theorem action_reserved {before after : List (ι × Event S)} {answer : S.Res op}
    (split : pool.trace = before ++ (process, ⟨op, answer⟩) :: after)
    (acted : discipline.acts process op = some key) :
    (∃ event, (process, event) ∈ before ∧ discipline.reserves event = some key) ∧
      ∀ event, (process, event) ∈ before → discipline.acts process event.1 = none := by
  obtain ⟨rest, next, run, requested⟩ := reachable.requested (fun _ _ _ _ _ => trivial) split
  obtain ⟨⟨event, eventMem, reserved⟩, unacted⟩ := discipline.guarded run requested acted
  exact ⟨⟨event, mem_localTrace.mp eventMem, reserved⟩,
    fun event member => unacted event (mem_localTrace.mpr member)⟩

/-- Every key is acted on at most once. -/
theorem actions_le_one (key : Key) :
    (discipline.actions pool.trace key).length ≤ 1 := by
  by_contra many
  obtain ⟨first, second, rest, eq⟩ : ∃ first second rest,
      discipline.actions pool.trace key = first :: second :: rest := by
    match eq : discipline.actions pool.trace key with
    | [] | [_] => simp [eq] at many
    | first :: second :: rest => exact ⟨first, second, rest, rfl⟩
  obtain ⟨before, tail, split, -, firstActed, later⟩ := List.filter_eq_cons_iff.mp eq
  obtain ⟨between, after, tailSplit, -, secondActed, -⟩ := List.filter_eq_cons_iff.mp later
  simp only [decide_eq_true_eq] at firstActed secondActed
  have secondSplit : pool.trace = (before ++ first :: between) ++ second :: after := by
    simp [split, tailSplit]
  obtain ⟨⟨event, eventMem, reserved⟩, -⟩ := action_reserved reachable split firstActed
  obtain ⟨⟨other, otherMem, otherReserved⟩, unacted⟩ :=
    action_reserved reachable secondSplit secondActed
  -- one process has made both reservations, and acts only once
  have same : first.1 = second.1 := reserver_unique reachable
    (by rw [split]; exact List.mem_append_left _ eventMem) reserved
    (by rw [secondSplit]; exact List.mem_append_left _ otherMem) otherReserved
  have earlier := unacted first.2 (by rw [← same]; simp)
  rw [← same, firstActed] at earlier
  cases earlier

end

end Reachable

/-- A process which has crashed or returned. -/
def Stopped (pool : Pool machine ι α) (process : ι) : Prop :=
  pool.processes process = none ∨ ∃ value, pool.processes process = some (.pure value)

omit [DecidableEq ι] in
theorem Stopped.not_requesting (stopped : Stopped pool process) {program : Prog S α}
    {next : S.Res op → Prog S α} (running : pool.processes process = some program)
    (requested : program.head = .request op next) : False := by
  rcases stopped with crashed | ⟨value, returned⟩
  · rw [crashed] at running
    cases running
  · rw [returned] at running
    cases running
    cases requested

theorem Stopped.step {after : Pool machine ι α} (stopped : Stopped pool process)
    (step : Pool.Step pool after) : Stopped after process := by
  cases step with
  | @act acting program op next answer world running requested answered =>
    have different : process ≠ acting := by
      rintro rfl
      exact stopped.not_requesting running requested
    simpa only [Stopped, Function.update_of_ne different] using stopped
  | crash crashed =>
    by_cases same : process = crashed
    · subst same
      exact Or.inl (Function.update_self ..)
    · simpa only [Stopped, Function.update_of_ne same] using stopped

/-- A present key whose reserving processes have stopped is not acted on any more. -/
theorem actions_eq_of_stopped {world : machine.World} {later : Pool machine ι α}
    (reachable : Pool.Reachable code world pool)
    (steps : Relation.ReflTransGen Pool.Step pool later)
    (present : discipline.present pool.world key)
    (stopped : ∀ entry ∈ discipline.reservations pool.trace key, Stopped pool entry.1) :
    discipline.actions later.trace key = discipline.actions pool.trace key := by
  suffices kept : discipline.present later.world key ∧
      discipline.reservations later.trace key = discipline.reservations pool.trace key ∧
      (∀ entry ∈ discipline.reservations pool.trace key, Stopped later entry.1) ∧
      discipline.actions later.trace key = discipline.actions pool.trace key from kept.2.2.2
  induction steps with
  | refl => exact ⟨present, rfl, stopped, rfl⟩
  | @tail middle last reached step ih =>
    obtain ⟨held, reserved, ended, acted⟩ := ih
    have endedLast := fun entry member => (ended entry member).step step
    cases step with
    | @act process program op next answer after running requested answered =>
      refine ⟨discipline.kept answered held, ?_, endedLast, ?_⟩
      · have refused : discipline.reserves ⟨op, answer⟩ ≠ some key :=
          fun granted => (discipline.fresh answered granted).1 held
        rw [← reserved]
        simp [reservations, refused]
      · have idle : discipline.acts process op ≠ some key := by
          intro acts
          have middleReachable : Pool.Reachable code world middle := reachable.trans reached
          obtain ⟨rest, run, current⟩ :=
            middleReachable.localRun (fun _ _ _ _ _ => trivial) process
          rw [← current program running] at run
          obtain ⟨⟨event, eventMem, granted⟩, -⟩ := discipline.guarded run requested acts
          have reserver := mem_reservations.mpr ⟨mem_localTrace.mp eventMem, granted⟩
          rw [reserved] at reserver
          exact (ended _ reserver).not_requesting running requested
        rw [← acted]
        simp [actions, idle]
    | crash => exact ⟨held, reserved, endedLast, acted⟩

end Discipline

end Themisy.Interaction
