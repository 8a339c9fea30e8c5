import Mathlib.Data.List.Induction
import Themisy.Interaction.Ensures

/-!
# Requests which are tried repeatedly

An environment may try a request several times before it tells the program an
answer. `Prog.retried` is the program whose requests are answered with such attempts;
it repeats a request until it is told an answer. What it is told is a run of the
program itself (`Runs.of_retried`).
-/

namespace Themisy.Interaction

variable {S : Sig} {α β : Type}

/-- What an attempt has done, if it was made, and what the program is told, if anything. -/
structure Attempt (α : Type) where
  ran : Option α
  told : Option α

/-- The same requests, answered with attempts. -/
abbrev Sig.attempts (S : Sig) : Sig := ⟨S.Op, fun op => Attempt (S.Res op)⟩

/-- Repeat every request until its answer is told. -/
def Prog.retried {α : Type} : Prog S α → Prog S.attempts α
  | pure value => pure value
  | request op next =>
    loop (fun _ : Unit => op) (fun _ attempt =>
      match attempt.told with
      | none => pure (.inl ())
      | some answer => pure (.inr answer)) () fun answer => retried (next answer)
  | loop op body state next =>
    loop op (fun state attempt =>
      match attempt.told with
      | none => pure (.inl state)
      | some answer => retried (body state answer)) state fun value => retried (next value)

/-- What the program was told. -/
def told (events : List (Event S.attempts)) : List (Event S) :=
  events.filterMap fun event => event.2.told.map fun answer => ⟨event.1, answer⟩

variable {op : S.Op} {attempt : Attempt (S.Res op)}

@[simp]
theorem told_append_none (events : List (Event S.attempts)) (untold : attempt.told = none) :
    told (events ++ [⟨op, attempt⟩]) = told events := by
  simp [told, untold]

@[simp]
theorem told_append_some (events : List (Event S.attempts)) {answer : S.Res op}
    (answered : attempt.told = some answer) :
    told (events ++ [⟨op, attempt⟩]) = told events ++ [⟨op, answer⟩] := by
  simp [told, answered]

namespace Prog

theorem retried_bind (program : Prog S α) (follow : α → Prog S β) :
    retried (bind program follow) = bind (retried program) fun value => retried (follow value) := by
  induction program with
  | pure value => rfl
  | request op next ih | loop op body state next _ ih => simp only [bind, retried, ih]

variable {program : Prog S α}

theorem head_retried_done {value : α} (done : program.head = .done value) :
    program.retried.head = .done value := by
  rw [head_eq_done] at done
  subst done
  rfl

theorem head_retried_request {op : S.Op} {next : S.Res op → Prog S α}
    (requested : program.head = .request op next) :
    program.retried.head = .request op fun attempt =>
      match attempt.told with
      | none => program.retried
      | some answer => (next answer).retried := by
  cases program with
  | pure value => cases requested
  | request op next =>
    cases requested
    simp only [retried, head]
    congr 1
    funext attempt
    cases attempt.told <;> rfl
  | loop op body state next =>
    cases requested
    simp only [retried, head]
    congr 1
    funext attempt
    cases attempt.told with
    | none => rfl
    | some answer =>
      simp only [retried_bind]
      congr 1
      funext outcome
      cases outcome with
      | inl again => simp only [Sum.elim_inl, retried]
      | inr value => rfl

end Prog

theorem Runs.of_retried {legal : (op : S.Op) → S.Res op → Prop}
    {legalAttempt : (op : S.Op) → Attempt (S.Res op) → Prop}
    (allowed : ∀ op attempt, legalAttempt op attempt → ∀ answer ∈ attempt.told, legal op answer)
    {program : Prog S α} {rest : Prog S.attempts α} {events : List (Event S.attempts)}
    (run : Runs (Machine.free (S := S.attempts) legalAttempt) () program.retried events () rest) :
    ∃ stopped, rest = stopped.retried ∧
      Runs (Machine.free legal) () program (told events) () stopped := by
  induction events using List.reverseRecOn generalizing rest with
  | nil =>
    exact ⟨program, run.eq_of_nil, Runs.refl _ _⟩
  | append_singleton before event ih =>
    obtain ⟨op, attempt⟩ := event
    obtain ⟨⟨⟩, _, next, first, requested, answered, rfl⟩ := run.last
    obtain ⟨stopped, rfl, runTold⟩ := ih first
    cases stoppedHead : stopped.head with
    | done value =>
      rw [Prog.head_retried_done stoppedHead] at requested
      cases requested
    | request stoppedOp stoppedNext =>
      rw [Prog.head_retried_request stoppedHead] at requested
      cases requested
      cases outcome : attempt.told with
      | none =>
        refine ⟨stopped, by simp only [outcome], ?_⟩
        rw [told_append_none _ outcome]
        exact runTold
      | some answer =>
        refine ⟨stoppedNext answer, by simp only [outcome], ?_⟩
        rw [told_append_some _ outcome]
        have legalAnswer := allowed op attempt answered answer outcome
        exact runTold.trans (.step stoppedHead legalAnswer (Runs.refl _ _))

end Themisy.Interaction
