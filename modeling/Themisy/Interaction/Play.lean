import Themisy.Interaction.Pool

/-!
# Playing a program against a strategy

A strategy answers every request of a program in a determined way. Playing a
program against it is a computation, and yields a run of every machine which
allows the strategy's answers.
-/

namespace Themisy.Interaction

universe u

variable {S : Sig} {World : Type u} {α : Type}

/-- How an environment answers requests. -/
abbrev Strategy (S : Sig) (World : Type u) := World → (op : S.Op) → S.Res op × World

def play (strategy : Strategy S World) :
    ℕ → World → Prog S α → List (Event S) × World × Prog S α
  | 0, world, program => ([], world, program)
  | fuel + 1, world, program =>
    match program.head with
    | .done _ => ([], world, program)
    | .request op next =>
      let answer := strategy world op
      let later := play strategy fuel answer.2 (next answer.1)
      (⟨op, answer.1⟩ :: later.1, later.2)

/-- Whether the requests of a play are made in worlds which accept them. -/
def accepted (accepts : World → S.Op → Bool) (strategy : Strategy S World) :
    ℕ → World → Prog S α → Bool
  | 0, _, _ => true
  | fuel + 1, world, program =>
    match program.head with
    | .done _ => true
    | .request op next =>
      let answer := strategy world op
      accepts world op && accepted accepts strategy fuel answer.2 (next answer.1)

variable {machine : Machine S} {program : Prog S α} {strategy : Strategy S machine.World}

/-- The strategy needs to be allowed only where it is asked. -/
theorem runs_play_of_accepted {accepts : machine.World → S.Op → Bool}
    (allowed : ∀ world op, accepts world op = true →
      machine.answers world op (strategy world op).1 (strategy world op).2) {fuel : ℕ}
    {world : machine.World} (asked : accepted accepts strategy fuel world program = true) :
    Runs machine world program (play strategy fuel world program).1
      (play strategy fuel world program).2.1 (play strategy fuel world program).2.2 := by
  induction fuel generalizing world program with
  | zero => exact Runs.refl _ _
  | succ fuel ih =>
    unfold play
    unfold accepted at asked
    split at asked
    · exact Runs.refl _ _
    · next op next requested =>
      obtain ⟨accepting, later⟩ := Bool.and_eq_true_iff.mp asked
      exact Runs.step requested (allowed world op accepting) (ih later)

theorem accepted_always (strategy : Strategy S World) (fuel : ℕ) (world : World)
    (program : Prog S α) : accepted (fun _ _ => true) strategy fuel world program = true := by
  induction fuel generalizing world program with
  | zero => rfl
  | succ fuel ih =>
    unfold accepted
    split
    · rfl
    · exact ih _ _

theorem runs_play
    (allowed : ∀ world op, machine.answers world op (strategy world op).1 (strategy world op).2)
    (fuel : ℕ) (world : machine.World) (program : Prog S α) :
    Runs machine world program (play strategy fuel world program).1
      (play strategy fuel world program).2.1 (play strategy fuel world program).2.2 :=
  runs_play_of_accepted (fun world op _ => allowed world op)
    (accepted_always strategy fuel world program)

section May

variable {β ε : Type} {legal : (op : S.Op) → S.Res op → Prop} {goal : Prog S α → Prop}

/-- Some execution with legal answers comes to a program of the given kind. -/
def May (legal : (op : S.Op) → S.Res op → Prop) (goal : Prog S α → Prop) (program : Prog S α) :
    Prop :=
  ∃ events rest, Runs (Machine.free legal) () program events () rest ∧ goal rest

/-- Some execution with legal answers returns the value. -/
abbrev Returns (legal : (op : S.Op) → S.Res op → Prop) (program : ExceptT ε (Prog S) α)
    (value : α) : Prop :=
  May legal (· = Prog.pure (.ok value)) program

namespace May

theorem here (holds : goal program) : May legal goal program :=
  ⟨[], program, Runs.refl _ _, holds⟩

theorem bind {start : Prog S β} {first : Prog S β → Prop} {follow : β → Prog S α}
    (comes : May legal first start)
    (continues : ∀ rest, first rest → May legal goal (rest.bind follow)) :
    May legal goal (start.bind follow) := by
  obtain ⟨before, middle, run, holds⟩ := comes
  obtain ⟨after, rest, later, reached⟩ := continues middle holds
  exact ⟨before ++ after, rest, (run.bind follow).trans later, reached⟩

theorem andThen {goal : Prog S (Except ε α) → Prop} {start : ExceptT ε (Prog S) β} {value : β}
    {follow : β → ExceptT ε (Prog S) α} (returns : Returns legal start value)
    (later : May legal goal (follow value)) :
    May legal goal (start >>= follow : ExceptT ε (Prog S) α) :=
  returns.bind fun rest same => by
    subst same
    exact later

theorem ask {goal : Prog S (Except ε α) → Prop} {op : S.Op}
    {follow : S.Res op → ExceptT ε (Prog S) α} (answer : S.Res op) (allowed : legal op answer)
    (later : May legal goal (follow answer)) :
    May legal goal (ExceptT.lift (Prog.perform op) >>= follow : ExceptT ε (Prog S) α) := by
  obtain ⟨events, rest, run, reached⟩ := later
  exact ⟨⟨op, answer⟩ :: events, rest, .step rfl allowed run, reached⟩

end May

end May

/-- The value which a program has returned. -/
def Prog.returned : Prog S α → Option α
  | pure value => some value
  | _ => none

theorem Prog.eq_of_returned {value : α} (returned : program.returned = some value) :
    program = .pure value := by
  cases program with
  | pure => rw [Option.some.inj returned]
  | request | loop => cases returned

/-- The answer of an operation which does not fail. -/
def answerOf {Error Value : Type} (world : World) :
    Except Error (Value × World) → Except Error Value × World
  | .ok (value, next) => (.ok value, next)
  | .error error => (.error error, world)

theorem eq_ok_of_answerOf {Error Value : Type} {world next : World} {value : Value}
    {result : Except Error (Value × World)} (eq : answerOf world result = (.ok value, next)) :
    result = .ok (value, next) := by
  rcases result with error | ⟨value, next⟩
  · cases eq
  · cases eq
    rfl

theorem performs_answerOf {Error Value : Type} (world : World)
    (result : Except Error (Value × World)) :
    Performs world result (answerOf world result).1 (answerOf world result).2 := by
  rcases result with error | ⟨value, next⟩
  · exact .failed error
  · exact .returned rfl

namespace Pool

variable {ι : Type} [DecidableEq ι] {machine : Machine S}

/-- The pool in which every process is about to start. -/
def initial (code : ι → Prog S α) (world : machine.World) : Pool machine ι α :=
  ⟨world, fun process => some (code process), []⟩

def returned (pool : Pool machine ι α) (process : ι) : Option α :=
  match pool.processes process with
  | some (.pure value) => some value
  | _ => none

variable {pool : Pool machine ι α} {strategy : Strategy S machine.World}

omit [DecidableEq ι] in
theorem processes_of_returned {process : ι} {value : α}
    (returned : pool.returned process = some value) :
    pool.processes process = some (.pure value) := by
  unfold Pool.returned at returned
  split at returned
  · next running =>
    cases returned
    exact running
  · cases returned

def play (strategy : Strategy S machine.World) (fuel : ℕ) (process : ι) (pool : Pool machine ι α) :
    Pool machine ι α :=
  match pool.processes process with
  | none => pool
  | some program =>
    let played := Interaction.play strategy fuel pool.world program
    ⟨played.2.1, Function.update pool.processes process (some played.2.2),
      pool.trace ++ played.1.map (process, ·)⟩

theorem reachable_initial (code : ι → Prog S α) (world : machine.World) :
    Reachable code world (initial code world) :=
  .refl

theorem steps_play
    (allowed : ∀ world op, machine.answers world op (strategy world op).1 (strategy world op).2)
    (fuel : ℕ) (process : ι) (pool : Pool machine ι α) :
    Relation.ReflTransGen Step pool (pool.play strategy fuel process) := by
  unfold Pool.play
  split
  · exact .refl
  · next program running => exact steps_of_runs running (runs_play allowed fuel _ program)

theorem Reachable.play {code : ι → Prog S α} {world : machine.World}
    (reachable : Reachable code world pool)
    (allowed : ∀ world op, machine.answers world op (strategy world op).1 (strategy world op).2)
    (fuel : ℕ) (process : ι) : Reachable code world (pool.play strategy fuel process) :=
  reachable.trans (steps_play allowed fuel process pool)

end Pool

end Themisy.Interaction
