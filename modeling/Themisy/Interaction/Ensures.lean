import Themisy.Interaction.Prog

/-!
# Runs of interactive programs and rules about them

A machine answers the requests of a program and moves between worlds; it may be
nondeterministic. `Runs` are the finite executions of a program, complete or not.

`Ensures safe post` says that in every run every request is made in a world in which
it is safe, and that a returned value satisfies the postcondition. A loop needs an
invariant which holds whenever its request is made. A property of the history is a
property of the world of `Machine.traced`.
-/

namespace Themisy.Interaction

universe u

/-- An environment: a state, and the answers it may give. -/
structure Machine (S : Sig) where
  World : Type u
  answers : World → (op : S.Op) → S.Res op → World → Prop

variable {S : Sig} {α β σ : Type}

/-- The same machine, recording what it has answered. -/
def Machine.traced (machine : Machine S) : Machine S where
  World := machine.World × List (Event S)
  answers world op answer next :=
    machine.answers world.1 op answer next.1 ∧ next.2 = world.2 ++ [⟨op, answer⟩]

/-- The machine which may answer anything that the given condition allows. -/
def Machine.free (legal : (op : S.Op) → S.Res op → Prop) : Machine S where
  World := Unit
  answers _ op answer _ := legal op answer

/-- The outcomes of an atomic operation which may fail before or after its effect. -/
inductive Performs {World : Type u} {Error Value : Type} (world : World)
    (result : Except Error (Value × World)) : Except Error Value → World → Prop where
  | returned {value : Value} {next : World} (eq : result = .ok (value, next)) :
      Performs world result (.ok value) next
  | failed (error : Error) : Performs world result (.error error) world
  | lost {value : Value} {next : World} (eq : result = .ok (value, next)) (error : Error) :
      Performs world result (.error error) next

namespace Performs

variable {World : Type u} {Error Value : Type} {world next : World}

variable {answer result : Except Error Value}

theorem eq_or {result : Except Error (Value × World)}
    (performed : Performs world result answer next) :
    next = world ∨ ∃ value, result = .ok (value, next) := by
  cases performed with
  | returned eq | lost eq => exact Or.inr ⟨_, eq⟩
  | failed => exact Or.inl rfl

theorem eq_of_read (performed : Performs world (result.map (·, world)) answer next) :
    next = world := by
  rcases performed.eq_or with same | ⟨value, eq⟩
  · exact same
  · cases result with
    | error error => cases eq
    | ok found =>
      cases eq
      rfl

/-- The value which a reading operation has returned. -/
theorem ok_of_read {value : Value}
    (performed : Performs world (result.map (·, world)) (.ok value) next) : result = .ok value := by
  cases performed with
  | returned eq =>
    cases result with
    | error error => cases eq
    | ok found =>
      cases eq
      rfl

theorem eq_or_of_write {result : Except Error World} {answer : Except Error Unit}
    (performed : Performs world (result.map ((), ·)) answer next) :
    next = world ∨ result = .ok next := by
  refine performed.eq_or.imp_right ?_
  rintro ⟨value, eq⟩
  cases result with
  | error error => cases eq
  | ok after =>
    cases eq
    rfl

end Performs

/-- Finite executions, with the requests answered so far. -/
inductive Runs (machine : Machine S) :
    machine.World → Prog S α → List (Event S) → machine.World → Prog S α → Prop where
  | refl (world : machine.World) (program : Prog S α) : Runs machine world program [] world program
  | step {world middle last : machine.World} {program rest : Prog S α} {op : S.Op}
      {next : S.Res op → Prog S α} {answer : S.Res op} {events : List (Event S)}
      (requested : program.head = .request op next)
      (answered : machine.answers world op answer middle)
      (run : Runs machine middle (next answer) events last rest) :
      Runs machine world program (⟨op, answer⟩ :: events) last rest

variable {machine : Machine S}

namespace Runs

variable {world ended : machine.World} {program rest : Prog S α}
  {events before after : List (Event S)}

theorem trans {middle : machine.World} {final : Prog S α}
    (first : Runs machine world program before middle rest)
    (second : Runs machine middle rest after ended final) :
    Runs machine world program (before ++ after) ended final := by
  induction first with
  | refl => exact second
  | step requested answered _ ih => exact .step requested answered (ih second)

theorem traced (run : Runs machine world program events ended rest) (history : List (Event S)) :
    Runs machine.traced (world, history) program events (ended, history ++ events) rest := by
  induction run generalizing history with
  | refl => simpa using Runs.refl _ _
  | @step world middle last program rest op next answer events requested answered _ ih =>
    have later := ih (history ++ [⟨op, answer⟩])
    rw [List.append_assoc] at later
    have recorded : machine.traced.answers (world, history) op answer
        (middle, history ++ [⟨op, answer⟩]) := ⟨answered, rfl⟩
    exact Runs.step requested recorded later

theorem history {world ended : machine.traced.World}
    (run : Runs machine.traced world program events ended rest) :
    ended.2 = world.2 ++ events := by
  induction run with
  | refl => simp
  | step _ answered _ ih => rw [ih, answered.2, List.append_assoc, List.singleton_append]

theorem toFree {legal : (op : S.Op) → S.Res op → Prop}
    (allowed : ∀ world op answer next, machine.answers world op answer next → legal op answer)
    (run : Runs machine world program events ended rest) :
    Runs (Machine.free legal) () program events () rest := by
  induction run with
  | refl => exact Runs.refl _ _
  | step requested answered _ ih => exact Runs.step requested (allowed _ _ _ _ answered) ih

theorem legal {legal : (op : S.Op) → S.Res op → Prop} {world ended : (Machine.free legal).World}
    (run : Runs (Machine.free legal) world program events ended rest) :
    ∀ event ∈ events, legal event.1 event.2 := by
  induction run with
  | refl => simp
  | step requested answered _ ih =>
    intro event member
    rcases List.mem_cons.mp member with rfl | later
    · exact answered
    · exact ih event later

theorem of_legal {legal other : (op : S.Op) → S.Res op → Prop}
    {world ended : (Machine.free legal).World}
    (run : Runs (Machine.free legal) world program events ended rest)
    (allowed : ∀ event ∈ events, other event.1 event.2) :
    Runs (Machine.free other) () program events () rest := by
  induction run with
  | refl => exact Runs.refl _ _
  | step requested _ _ ih =>
    apply Runs.step requested (allowed _ List.mem_cons_self)
    apply ih
    intro event member
    exact allowed event (List.mem_cons_of_mem _ member)

theorem of_bind {follow : α → Prog S β} {rest : Prog S β}
    (run : Runs machine world (program.bind follow) events ended rest) :
    (∃ middle, Runs machine world program events ended middle ∧ rest = middle.bind follow) ∨
      ∃ first second between value, events = first ++ second ∧
        Runs machine world program first between (.pure value) ∧
        Runs machine between (follow value) second ended rest := by
  generalize sequence : program.bind follow = whole at run
  induction run generalizing program with
  | refl => exact Or.inl ⟨program, Runs.refl _ _, sequence.symm⟩
  | @step world middle last whole rest op next answer events requested answered run ih =>
    subst sequence
    cases first : program.head with
    | done value =>
      rw [Prog.head_eq_done] at first
      subst first
      exact Or.inr ⟨[], _, world, value, rfl, Runs.refl _ _, .step requested answered run⟩
    | request firstOp firstNext =>
      rw [Prog.head_bind_of_request first] at requested
      cases requested
      rcases ih rfl with ⟨stopped, firstRun, eq⟩ |
        ⟨firstEvents, secondEvents, between, value, eq, firstRun, secondRun⟩
      · exact Or.inl ⟨stopped, .step first answered firstRun, eq⟩
      · refine Or.inr ⟨⟨_, answer⟩ :: firstEvents, secondEvents, between, value, ?_,
          .step first answered firstRun, secondRun⟩
        rw [eq, List.cons_append]

theorem bind (run : Runs machine world program events ended rest) (follow : α → Prog S β) :
    Runs machine world (program.bind follow) events ended (rest.bind follow) := by
  induction run with
  | refl => exact Runs.refl _ _
  | step requested answered _ ih =>
    exact .step (Prog.head_bind_of_request requested follow) answered ih

/-- A run can be cut between any two answered requests. -/
theorem cut (run : Runs machine world program (before ++ after) ended rest) :
    ∃ middle stopped, Runs machine world program before middle stopped ∧
      Runs machine middle stopped after ended rest := by
  induction before generalizing world program with
  | nil => exact ⟨world, program, Runs.refl _ _, run⟩
  | cons event before ih =>
    cases run with
    | step requested answered later =>
      obtain ⟨middle, stopped, first, second⟩ := ih later
      exact ⟨middle, stopped, .step requested answered first, second⟩

variable {op : S.Op} {answer : S.Res op}

/-- Every answered request of a run was the next request at that moment. -/
theorem split (run : Runs machine world program (before ++ ⟨op, answer⟩ :: after) ended rest) :
    ∃ middle stopped next, Runs machine world program before middle stopped ∧
      stopped.head = .request op next := by
  obtain ⟨middle, stopped, first, second⟩ := run.cut
  cases second with
  | step requested _ _ => exact ⟨middle, stopped, _, first, requested⟩

theorem eq_of_nil (run : Runs machine world program [] ended rest) : rest = program := by
  cases run with
  | refl => rfl

theorem last (run : Runs machine world program (before ++ [⟨op, answer⟩]) ended rest) :
    ∃ middle stopped next, Runs machine world program before middle stopped ∧
      stopped.head = .request op next ∧ machine.answers middle op answer ended ∧
      rest = next answer := by
  obtain ⟨middle, stopped, first, second⟩ := run.cut
  cases second with
  | step requested answered finished =>
    cases finished with
    | refl => exact ⟨middle, stopped, _, first, requested, answered, rfl⟩

theorem invariant (holds : machine.World → List (Event S) → Prop)
    (step : ∀ world history op answer next, holds world history →
      machine.answers world op answer next → holds next (history ++ [⟨op, answer⟩]))
    (run : Runs machine world program events ended rest) {history : List (Event S)}
    (start : holds world history) : holds ended (history ++ events) := by
  induction run generalizing history with
  | refl =>
    rw [List.append_nil]
    exact start
  | step _ answered _ ih =>
    have later := ih (step _ _ _ _ _ start answered)
    rw [List.append_assoc] at later
    exact later

end Runs

/-- In every run, requests are safe when they are made and results satisfy the postcondition. -/
def Ensures (machine : Machine S) (safe : machine.World → S.Op → Prop)
    (post : α → machine.World → Prop) (world : machine.World) (program : Prog S α) : Prop :=
  ∀ events last rest, Runs machine world program events last rest →
    (∀ value, rest = .pure value → post value last) ∧
      ∀ op next, rest.head = .request op next → safe last op

namespace Ensures

variable {safe : machine.World → S.Op → Prop} {post : α → machine.World → Prop}
  {world : machine.World}

theorem pure {value : α} (holds : post value world) :
    Ensures machine safe post world (.pure value) := by
  intro events last rest run
  cases run with
  | refl =>
    refine ⟨?_, ?_⟩
    · intro other eq
      cases eq
      exact holds
    · intro op next impossible
      cases impossible
  | step requested => cases requested

variable {program rest : Prog S α} {op : S.Op} {next : S.Res op → Prog S α} {follow : β → Prog S α}
  {events : List (Event S)}

/-- Unfolding a program up to its next request. -/
theorem of_head (requested : program.head = .request op next) (allowed : safe world op)
    (continues : ∀ answer middle, machine.answers world op answer middle →
      Ensures machine safe post middle (next answer)) :
    Ensures machine safe post world program := by
  intro events last rest run
  cases run with
  | refl =>
    refine ⟨?_, ?_⟩
    · intro value eq
      rw [eq] at requested
      cases requested
    · intro other otherNext again
      rw [requested] at again
      cases again
      exact allowed
  | step again answered run =>
    rw [requested] at again
    cases again
    exact continues _ _ answered _ _ _ run

theorem request (allowed : safe world op)
    (continues : ∀ answer middle, machine.answers world op answer middle →
      Ensures machine safe post middle (next answer)) :
    Ensures machine safe post world (.request op next) :=
  of_head rfl allowed continues

/-- Stopping inside the first part of a sequence, or exactly at its end. -/
theorem of_stopped {stopped : Prog S β}
    (requests : ∀ op next, stopped.head = .request op next → safe world op)
    (returned : ∀ result, stopped = .pure result →
      (∀ value, follow result = .pure value → post value world) ∧
        ∀ op next, (follow result).head = .request op next → safe world op) :
    (∀ value, stopped.bind follow = .pure value → post value world) ∧
      ∀ op next, (stopped.bind follow).head = .request op next → safe world op := by
  cases stoppedHead : stopped.head with
  | done value =>
    rw [Prog.head_eq_done] at stoppedHead
    subst stoppedHead
    exact returned value rfl
  | request op next =>
    have sequence := Prog.head_bind_of_request stoppedHead follow
    refine ⟨?_, ?_⟩
    · intro value eq
      rw [eq] at sequence
      cases sequence
    · intro other otherNext again
      rw [sequence] at again
      cases again
      exact requests op next stoppedHead

theorem bind {program : Prog S β} (first : Ensures machine safe
      (fun value middle => Ensures machine safe post middle (follow value)) world program) :
    Ensures machine safe post world (program.bind follow) := by
  intro events last rest run
  rcases run.of_bind with ⟨stopped, firstRun, rfl⟩ |
    ⟨firstEvents, secondEvents, between, value, rfl, firstRun, secondRun⟩
  · obtain ⟨returned, requests⟩ := first _ _ _ firstRun
    exact of_stopped requests fun value eq => returned value eq _ _ _ (Runs.refl _ _)
  · exact (first _ _ _ firstRun).1 value rfl _ _ _ secondRun

theorem mono {weakerSafe : machine.World → S.Op → Prop} {weaker : α → machine.World → Prop}
    (requests : ∀ world op, safe world op → weakerSafe world op)
    (implies : ∀ value last, post value last → weaker value last)
    (holds : Ensures machine safe post world program) :
    Ensures machine weakerSafe weaker world program := by
  intro events last rest run
  obtain ⟨returned, requested⟩ := holds events last rest run
  exact ⟨fun value eq => implies value last (returned value eq),
    fun op next eq => requests last op (requested op next eq)⟩

/-- A sequence whose first part may leave early. -/
theorem exceptBind {ε : Type} {program : ExceptT ε (Prog S) β}
    {follow : β → ExceptT ε (Prog S) α} {outcome : Except ε α → machine.World → Prop}
    (first : Ensures machine safe (fun result middle =>
      match result with
      | .ok value => Ensures machine safe outcome middle (follow value)
      | .error early => outcome (.error early) middle) world program) :
    Ensures machine safe outcome world (program >>= follow : ExceptT ε (Prog S) α) := by
  refine bind (mono (fun _ _ allowed => allowed) ?_ first)
  intro result middle holds
  cases result with
  | ok value => exact holds
  | error early => exact pure holds

/-- A loop needs an invariant which makes its request safe and which its body restores. -/
theorem loop {op : σ → S.Op} {body : (state : σ) → S.Res (op state) → Prog S (σ ⊕ β)}
    {next : β → Prog S α} (invariant : σ → machine.World → Prop)
    (allowed : ∀ state world, invariant state world → safe world (op state))
    (continues : ∀ state world answer middle, invariant state world →
      machine.answers world (op state) answer middle →
      Ensures machine safe
        (fun outcome last => Sum.elim (fun again => invariant again last)
          (fun value => Ensures machine safe post last (next value)) outcome)
        middle (body state answer))
    {state : σ} (start : invariant state world) :
    Ensures machine safe post world (.loop op body state next) := by
  intro events
  -- every iteration answers a request, so the remaining run is shorter
  induction length : events.length using Nat.strongRecOn generalizing state world events with
  | ind count ih =>
    intro last rest run
    cases run with
    | refl =>
      refine ⟨?_, ?_⟩
      · intro value impossible
        cases impossible
      · intro other otherNext requested
        cases requested
        exact allowed state world start
    | step requested answered run =>
      cases requested
      have iteration := continues state world _ _ start answered
      rcases run.of_bind with ⟨stopped, bodyRun, rfl⟩ |
        ⟨bodyEvents, laterEvents, between, outcome, rfl, bodyRun, laterRun⟩
      · obtain ⟨returned, requests⟩ := iteration _ _ _ bodyRun
        refine of_stopped requests ?_
        intro outcome eq
        have outcomeHolds := returned outcome eq
        cases outcome with
        | inl again =>
          refine ⟨?_, ?_⟩
          · intro value impossible
            cases impossible
          · intro other otherNext requested
            cases requested
            exact allowed again last outcomeHolds
        | inr value => exact outcomeHolds _ _ _ (Runs.refl _ _)
      · have outcomeHolds := (iteration _ _ _ bodyRun).1 outcome rfl
        cases outcome with
        | inl again =>
          refine ih laterEvents.length ?_ outcomeHolds laterEvents rfl _ _ laterRun
          simp only [List.length_cons, List.length_append] at length
          omega
        | inr value => exact outcomeHolds _ _ _ laterRun

theorem reached {last : machine.World} (ensured : Ensures machine safe post world program)
    (holds : machine.World → Prop) (requests : ∀ world op, safe world op → holds world)
    (returns : ∀ value world, post value world → holds world)
    (run : Runs machine world program events last rest) : holds last := by
  obtain ⟨returned, requested⟩ := ensured events last rest run
  cases head : rest.head with
  | done value => exact returns value last (returned value (Prog.head_eq_done.mp head))
  | request op next => exact requests last op (requested op next head)

theorem requestTraced {safe : machine.traced.World → S.Op → Prop}
    {post : α → machine.traced.World → Prop} {world : machine.World} {history : List (Event S)}
    (allowed : safe (world, history) op)
    (continues : ∀ answer middle, machine.answers world op answer middle →
      Ensures machine.traced safe post (middle, history ++ [⟨op, answer⟩]) (next answer)) :
    Ensures machine.traced safe post (world, history) (.request op next) := by
  refine request allowed ?_
  rintro answer ⟨middle, recorded⟩ ⟨answered, eq⟩
  subst eq
  exact continues answer middle answered

theorem of_traced {safe : machine.traced.World → S.Op → Prop}
    {post : α → machine.traced.World → Prop} {world last : machine.World}
    {history : List (Event S)}
    (ensured : Ensures machine.traced safe post (world, history) program)
    (run : Runs machine world program events last rest) :
    (∀ value, rest = .pure value → post value (last, history ++ events)) ∧
      ∀ op next, rest.head = .request op next → safe (last, history ++ events) op :=
  ensured _ _ _ (run.traced history)

end Ensures

end Themisy.Interaction
