import Mathlib.Tactic.Common

/-!
# Interactive programs

A program is a tree of requests to its environment. Loops which wait for the
environment may run forever, so they are a constructor of their own; every iteration
begins with a request, and unfolding a loop once shows it (`Prog.head`).

An early return is the exception of `ExceptT` over programs.
-/

namespace Themisy.Interaction

/-- The requests of a kind of program and their answers. -/
structure Sig where
  Op : Type
  Res : Op → Type

/-- A request with its answer. -/
abbrev Event (S : Sig) := (op : S.Op) × S.Res op

/-- A program which makes requests. -/
inductive Prog (S : Sig) : Type → Type 1 where
  | pure {α : Type} (value : α) : Prog S α
  | request {α : Type} (op : S.Op) (next : S.Res op → Prog S α) : Prog S α
  /-- Repeat a request and a body until the body leaves the loop with a value. -/
  | loop {σ β α : Type} (op : σ → S.Op) (body : (state : σ) → S.Res (op state) → Prog S (σ ⊕ β))
      (state : σ) (next : β → Prog S α) : Prog S α

/-- What a program does next. -/
inductive Head (S : Sig) (α : Type) : Type 1 where
  | done (value : α)
  | request (op : S.Op) (next : S.Res op → Prog S α)

namespace Prog

variable {S : Sig} {α β γ σ : Type}

def bind {α β : Type} : Prog S α → (α → Prog S β) → Prog S β
  | pure value, follow => follow value
  | request op next, follow => request op fun answer => bind (next answer) follow
  | loop op body state next, follow => loop op body state fun value => bind (next value) follow

instance : Monad (Prog S) where
  pure := Prog.pure
  bind := Prog.bind

/-- A single request, returning its answer. -/
def perform (op : S.Op) : Prog S (S.Res op) :=
  request op pure

/-- A loop whose body may also leave the surrounding function. -/
def repeatUntil {ε σ β : Type} (op : σ → S.Op)
    (body : (state : σ) → S.Res (op state) → ExceptT ε (Prog S) (σ ⊕ β)) (state : σ) :
    ExceptT ε (Prog S) β :=
  loop op (fun state answer => bind (body state answer) fun outcome =>
    match outcome with
    | .ok (.inl again) => pure (.inl again)
    | .ok (.inr value) => pure (.inr (.ok value))
    | .error early => pure (.inr (.error early))) state pure

/-- Unfold a program up to its next request. -/
def head : Prog S α → Head S α
  | pure value => .done value
  | request op next => .request op next
  | loop op body state next =>
    .request (op state) fun answer =>
      bind (body state answer) (Sum.elim (fun again => loop op body again next) next)

theorem bind_assoc (program : Prog S α) (first : α → Prog S β) (second : β → Prog S γ) :
    bind (bind program first) second = bind program fun value => bind (first value) second := by
  induction program with
  | pure value => rfl
  | request op next ih | loop op body state next _ ih => simp only [bind, ih]

@[simp]
theorem pure_eq (value : α) : (Pure.pure value : Prog S α) = pure value := rfl

@[simp]
theorem bind_eq (program : Prog S α) (follow : α → Prog S β) :
    program >>= follow = bind program follow := rfl

instance : LawfulMonad (Prog S) := LawfulMonad.mk' (Prog S)
  (fun program => by
    change bind program (fun value => pure value) = program
    induction program with
    | pure value => rfl
    | request op next ih => simp only [bind, ih]
    | loop op body state next _ ih => simp only [bind, ih])
  (fun _ _ => rfl) bind_assoc

variable {program : Prog S α}

theorem head_eq_done {value : α} : program.head = .done value ↔ program = pure value := by
  cases program <;> simp [head]

theorem head_bind_of_request {op : S.Op} {next : S.Res op → Prog S α}
    (first : program.head = .request op next) (follow : α → Prog S β) :
    (bind program follow).head = .request op fun answer => bind (next answer) follow := by
  cases program with
  | pure value => cases first
  | request op next =>
    cases first
    rfl
  | loop op body state next =>
    cases first
    simp only [bind, head, bind_assoc]
    congr 1
    funext answer
    congr 1
    funext value
    cases value <;> rfl

end Prog

end Themisy.Interaction
