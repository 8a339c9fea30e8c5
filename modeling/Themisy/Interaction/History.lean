import Themisy.Interaction.Ensures

/-!
# Programs judged by their history

`Always` says that, as long as all answers are legal, every request of a program is
safe after the history so far and every result satisfies a postcondition about the
whole history. The rules are those of `Ensures` without a world.

A program with early returns is an `ExceptT` program. `Settles` judges such programs
with two postconditions, for their values and for their early returns.
-/

namespace Themisy.Interaction

variable {S : Sig} {α β σ ε : Type}

/-- The latest change which the events of a history make. -/
def latest {Change : Type} (change : Event S → Option Change) (history : List (Event S)) :
    Option Change :=
  history.reverse.findSome? change

theorem latest_append {Change : Type} (change : Event S → Option Change) (history : List (Event S))
    (event : Event S) :
    latest change (history ++ [event]) = (change event).or (latest change history) := by
  cases changed : change event <;> simp [latest, changed]

variable {history : List (Event S)} {event : Event S} {starts ends : Event S → Prop}

theorem latest_append_none {Change : Type} {change : Event S → Option Change}
    (quiet : change event = none) : latest change (history ++ [event]) = latest change history := by
  rw [latest_append, quiet, Option.none_or]

/-- An event has started something, and no event since has ended it. -/
def Since (starts ends : Event S → Prop) (history : List (Event S)) : Prop :=
  ∃ before event after, history = before ++ event :: after ∧ starts event ∧
    ∀ later ∈ after, ¬ends later

theorem not_since_nil : ¬Since starts ends [] := by
  rintro ⟨before, event, after, split, -⟩
  simp at split

theorem since_append :
    Since starts ends (history ++ [event]) ↔
      (Since starts ends history ∧ ¬ends event) ∨ starts event := by
  constructor
  · rintro ⟨before, started, after, split, starts, lasts⟩
    rcases after.eq_nil_or_concat with rfl | ⟨later, last, rfl⟩
    · obtain ⟨-, same⟩ := List.append_inj' split rfl
      cases same
      exact Or.inr starts
    · have regrouped : history ++ [event] = (before ++ started :: later) ++ [last] := by
        simpa using split
      obtain ⟨rfl, same⟩ := List.append_inj' regrouped rfl
      cases same
      refine Or.inl ⟨⟨before, started, later, rfl, starts, ?_⟩, lasts event (by simp)⟩
      exact fun earlier member => lasts earlier (by simp [member])
  · rintro (⟨⟨before, started, after, rfl, starts, lasts⟩, goesOn⟩ | starts)
    · refine ⟨before, started, after ++ [event], by simp, starts, ?_⟩
      intro later member
      rcases List.mem_append.mp member with earlier | last
      · exact lasts later earlier
      · rw [List.mem_singleton.mp last]
        exact goesOn
    · exact ⟨history, event, [], rfl, starts, by simp⟩

/-- Ensured in every environment with legal answers. -/
def Always (legal : (op : S.Op) → S.Res op → Prop) (safe : List (Event S) → S.Op → Prop)
    (post : α → List (Event S) → Prop) (history : List (Event S)) (program : Prog S α) : Prop :=
  Ensures (Machine.free legal).traced (fun world op => safe world.2 op)
    (fun value world => post value world.2) ((), history) program

variable {program rest : Prog S α} {events : List (Event S)} {machine : Machine S}
  {world last : machine.World}

namespace Always

variable {legal : (op : S.Op) → S.Res op → Prop} {safe : List (Event S) → S.Op → Prop}
  {post : α → List (Event S) → Prop} {history : List (Event S)}

theorem pure {value : α} (holds : post value history) :
    Always legal safe post history (.pure value) :=
  Ensures.pure holds

theorem request {op : S.Op} {next : S.Res op → Prog S α} (allowed : safe history op)
    (continues : ∀ answer, legal op answer →
      Always legal safe post (history ++ [⟨op, answer⟩]) (next answer)) :
    Always legal safe post history (.request op next) :=
  Ensures.requestTraced allowed fun answer _ answered => continues answer answered

theorem mono {weaker : α → List (Event S) → Prop}
    (implies : ∀ value history, post value history → weaker value history)
    (holds : Always legal safe post history program) : Always legal safe weaker history program :=
  Ensures.mono (fun _ _ allowed => allowed) (fun value world => implies value world.2) holds

/-- The history at the end extends the one at the beginning. -/
theorem extending (always : Always legal safe post history program) :
    Always legal safe (fun value later => post value later ∧ ∃ events, later = history ++ events)
      history program := by
  intro events last rest run
  obtain ⟨returned, requested⟩ := always events last rest run
  exact ⟨fun value eq => ⟨returned value eq, events, run.history⟩, requested⟩

theorem bind {program : Prog S β} {follow : β → Prog S α}
    (first : Always legal safe (fun value history => Always legal safe post history (follow value))
      history program) :
    Always legal safe post history (program >>= follow) :=
  Ensures.bind first

section

variable (allowed : ∀ world op answer next, machine.answers world op answer next → legal op answer)
  (always : Always legal safe post history program)
  (run : Runs machine world program events last rest)

include allowed always run

theorem of_runs :
    (∀ value, rest = .pure value → post value (history ++ events)) ∧
      ∀ op next, rest.head = .request op next → safe (history ++ events) op :=
  Ensures.of_traced always (run.toFree allowed)

theorem after :
    Always legal safe post (history ++ events) rest := by
  intro later final remaining ran
  exact always _ _ _ (((run.toFree allowed).traced history).trans ran)

end

/-- An invariant which every safe request keeps holds along every run. -/
theorem invariant (holds : machine.World → List (Event S) → Prop)
    (allowed : ∀ world op answer next, machine.answers world op answer next → legal op answer)
    (step : ∀ world history op answer next, holds world history → safe history op →
      machine.answers world op answer next → holds next (history ++ [⟨op, answer⟩]))
    (always : Always legal safe post history program)
    (run : Runs machine world program events last rest) (start : holds world history) :
    holds last (history ++ events) := by
  induction run generalizing history with
  | refl =>
    rw [List.append_nil]
    exact start
  | @step world middle last program rest op next answer events requested answered run ih =>
    have single : Runs machine world program [⟨op, answer⟩] middle (next answer) :=
      .step requested answered (.refl _ _)
    have permitted := (always.of_runs allowed (.refl world program)).2 op next requested
    rw [List.append_nil] at permitted
    have later := ih (always.after allowed single)
      (step world history op answer middle start permitted answered)
    rw [List.append_assoc] at later
    exact later

end Always

/-- Requests are safe, values satisfy `post`, and early returns satisfy `exits`. -/
abbrev Settles (legal : (op : S.Op) → S.Res op → Prop) (safe : List (Event S) → S.Op → Prop)
    (exits : ε → List (Event S) → Prop) (post : α → List (Event S) → Prop)
    (history : List (Event S)) (program : ExceptT ε (Prog S) α) : Prop :=
  Always legal safe (fun result history =>
    match result with
    | .ok value => post value history
    | .error early => exits early history) history program

namespace Settles

variable {legal : (op : S.Op) → S.Res op → Prop} {safe : List (Event S) → S.Op → Prop}
  {exits : ε → List (Event S) → Prop} {post : α → List (Event S) → Prop}
  {history : List (Event S)}

theorem pure {value : α} (holds : post value history) :
    Settles legal safe exits post history (Pure.pure value) :=
  Always.pure holds

theorem throw {early : ε} (holds : exits early history) :
    Settles legal safe exits post history (MonadExcept.throw early) :=
  Always.pure holds

theorem mono {weaker : α → List (Event S) → Prop} {program : ExceptT ε (Prog S) α}
    (holds : Settles legal safe exits post history program)
    (implies : ∀ value later, post value later → weaker value later) :
    Settles legal safe exits weaker history program := by
  refine Always.mono ?_ holds
  rintro (early | value) later result
  · exact result
  · exact implies value later result

variable {middle : β → List (Event S) → Prop} {follow : β → ExceptT ε (Prog S) α}

theorem bind {program : ExceptT ε (Prog S) β}
    (first : Settles legal safe exits middle history program)
    (continues : ∀ value later, middle value later →
      Settles legal safe exits post later (follow value)) :
    Settles legal safe exits post history (program >>= follow) := by
  refine Ensures.exceptBind (Ensures.mono (fun _ _ safe => safe) ?_ first)
  rintro (early | value) ⟨⟨⟩, later⟩ result
  · exact result
  · exact continues value later result

/-- A sequence whose second part knows that it extends the history. -/
theorem sequence {program : ExceptT ε (Prog S) β}
    (first : Settles legal safe exits middle history program)
    (continues : ∀ value events, middle value (history ++ events) →
      Settles legal safe exits post (history ++ events) (follow value)) :
    Settles legal safe exits post history (program >>= follow) := by
  have extended : Settles legal safe exits
      (fun value later => middle value later ∧ ∃ events, later = history ++ events) history
      program := by
    refine Always.mono ?_ first.extending
    rintro (early | value) later ⟨holds, extension⟩
    · exact holds
    · exact ⟨holds, extension⟩
  refine bind extended ?_
  rintro value later ⟨holds, events, rfl⟩
  exact continues value events holds

theorem ask {op : S.Op} {follow : S.Res op → ExceptT ε (Prog S) α} (allowed : safe history op)
    (continues : ∀ answer, legal op answer →
      Settles legal safe exits post (history ++ [⟨op, answer⟩]) (follow answer)) :
    Settles legal safe exits post history (ExceptT.lift (Prog.perform op) >>= follow) :=
  Always.request allowed continues

/-- A loop needs an invariant which makes its request safe and which its body restores. -/
theorem repeatUntil {op : σ → S.Op}
    {body : (state : σ) → S.Res (op state) → ExceptT ε (Prog S) (σ ⊕ α)}
    (invariant : σ → List (Event S) → Prop)
    (allowed : ∀ state history, invariant state history → safe history (op state))
    (continues : ∀ state history answer, invariant state history → legal (op state) answer →
      Settles legal safe exits (fun outcome later =>
        match outcome with
        | .inl again => invariant again later
        | .inr value => post value later)
        (history ++ [⟨op state, answer⟩]) (body state answer))
    {state : σ} (start : invariant state history) :
    Settles legal safe exits post history (Prog.repeatUntil op body state) := by
  have looped : Settles legal safe exits post history
      (Prog.repeatUntil op body state >>= (Pure.pure : α → ExceptT ε (Prog S) α)) := by
    refine Ensures.loop (fun state (world : (Machine.free legal).traced.World) =>
      invariant state world.2) (fun state world => allowed state world.2) ?_ start
    rintro state ⟨⟨⟩, history⟩ answer ⟨⟨⟩, recorded⟩ holds ⟨answered, eq⟩
    subst eq
    refine Ensures.bind (Ensures.mono (fun _ _ safe => safe) ?_
      (continues state history answer holds answered))
    rintro (early | again | value) ⟨⟨⟩, later⟩ result
    · exact Ensures.pure (Ensures.pure result)
    · exact Ensures.pure result
    · exact Ensures.pure (Ensures.pure result)
  rwa [bind_pure] at looped

end Settles

end Themisy.Interaction
