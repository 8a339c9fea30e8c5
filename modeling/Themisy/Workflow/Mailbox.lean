import Themisy.Workflow.Rehearsal

/-!
# The machine of the workflow

The workflow runs on a machine with a clock, the channels of the four signals and the
persisted run. Every control signal carries its position in the order of delivery, and
the machine remembers the pause signal which was taken last and the signal which has
ended the pause. A selector takes the first ready case in the order in which the source
adds them; when no case is ready, the workflow sleeps until one is.
-/

namespace Themisy.Workflow.Release

open Domain Interaction

/-- A control signal with its position in the order of delivery. -/
structure Delivery where
  position : ℕ
  signal : ControlSignal
  deriving DecidableEq

/-- The clock, the signals which wait in their channels, and what was persisted last. -/
structure Inbox where
  clock : Time
  /-- The number of control signals which were delivered. -/
  delivered : ℕ := 0
  approvals : List ApprovalSignal := []
  pauses : List Delivery := []
  resumes : List Delivery := []
  cancels : List Delivery := []
  /-- The run which `PersistRun` has returned last. -/
  stored : Option ReleaseRun := none
  /-- The pause signal which was taken last. -/
  pausedBy : Option Delivery := none
  /-- The signal which has ended this pause. -/
  endedBy : Option Delivery := none

/-- What is assumed about the signals. -/
structure Assumptions where
  /-- The control signals which may arrive. -/
  admits : ControlSignal → Prop
  /-- The inboxes from which the approval wait selects, given its deadline. -/
  selects : Time → Inbox → Prop
  /-- The inboxes from which a pause signal is taken. -/
  pauses : Inbox → Prop

namespace Inbox

/-- A clock tick or the delivery of a signal. -/
inductive Arrives (admits : ControlSignal → Prop) (inbox : Inbox) : Inbox → Prop where
  | time (clock : Time) (later : inbox.clock ≤ clock) : Arrives admits inbox { inbox with clock }
  | approval (signal : ApprovalSignal) :
      Arrives admits inbox { inbox with approvals := inbox.approvals ++ [signal] }
  | pause (signal : ControlSignal) (admitted : admits signal) :
      Arrives admits inbox { inbox with
        delivered := inbox.delivered + 1
        pauses := inbox.pauses ++ [⟨inbox.delivered, signal⟩] }
  | resume (signal : ControlSignal) (admitted : admits signal) :
      Arrives admits inbox { inbox with
        delivered := inbox.delivered + 1
        resumes := inbox.resumes ++ [⟨inbox.delivered, signal⟩] }
  | cancel (signal : ControlSignal) (admitted : admits signal) :
      Arrives admits inbox { inbox with
        delivered := inbox.delivered + 1
        cancels := inbox.cancels ++ [⟨inbox.delivered, signal⟩] }

/-- What can happen while the workflow is blocked. -/
abbrev Passes (admits : ControlSignal → Prop) : Inbox → Inbox → Prop :=
  Relation.ReflTransGen (Arrives admits)

/-- `ReceiveAsync` on the channel of cancel signals. -/
def receiveCancel (inbox : Inbox) : Bool × Inbox :=
  match inbox.cancels with
  | _ :: rest => (true, { inbox with cancels := rest })
  | [] => (false, inbox)

/-- The inbox after a pause signal was taken. -/
def takePause (inbox : Inbox) (pause : Delivery) (rest : List Delivery) : Inbox :=
  { inbox with pauses := rest, pausedBy := some pause, endedBy := none }

/-- `ReceiveAsync` on the channel of pause signals. -/
def receivePause (inbox : Inbox) : Bool × Inbox :=
  match inbox.pauses with
  | pause :: rest => (true, inbox.takePause pause rest)
  | [] => (false, inbox)

/-- The first ready case of the approval wait, whose timer elapses at the deadline. -/
def chooseApproval (deadline : Time) (inbox : Inbox) : Option (ApprovalEvent × Inbox) :=
  match inbox.approvals, inbox.pauses, inbox.cancels with
  | signal :: rest, _, _ => some (.approval signal, { inbox with approvals := rest })
  | [], pause :: rest, _ => some (.pause pause.signal, inbox.takePause pause rest)
  | [], [], cancel :: rest => some (.cancel cancel.signal, { inbox with cancels := rest })
  | [], [], [] => if deadline ≤ inbox.clock then some (.expired, inbox) else none

/-- The first ready case of a paused run. -/
def chooseResume (inbox : Inbox) : Option (ResumeEvent × Inbox) :=
  match inbox.resumes, inbox.cancels with
  | resume :: rest, _ =>
    some (.resume resume.signal, { inbox with resumes := rest, endedBy := some resume })
  | [], cancel :: rest =>
    some (.cancel cancel.signal, { inbox with cancels := rest, endedBy := some cancel })
  | [], [] => none

/-- A selector blocks only when no case is ready. -/
def Wakes {Chosen : Type} (admits : ControlSignal → Prop) (choose : Inbox → Option Chosen)
    (inbox woken : Inbox) : Prop :=
  Passes admits inbox woken ∧ ((choose inbox).isSome → woken = inbox)

/-- How a request is answered under the assumptions. -/
def Answers (assumed : Assumptions) (inbox : Inbox) : (op : Op) → op.Res → Inbox → Prop
  | .now, answer, next => answer = inbox.clock ∧ next = inbox
  | .receiveCancel, answer, next => inbox.receiveCancel = (answer, next)
  | .receivePause, answer, next =>
    inbox.receivePause = (answer, next) ∧ (answer = true → assumed.pauses inbox)
  | .selectApproval timeout, event, next => ∃ woken,
      Wakes assumed.admits (chooseApproval (inbox.clock + timeout)) inbox woken ∧
      assumed.selects (inbox.clock + timeout) woken ∧
      woken.chooseApproval (inbox.clock + timeout) = some (event, next) ∧
      (∀ signal, event = .pause signal → assumed.pauses woken)
  | .selectResume, event, next => ∃ woken,
      Wakes assumed.admits chooseResume inbox woken ∧ woken.chooseResume = some (event, next)
  | .persistRun input, .ok run, next => run = Activities.persisted input.run ∧
      ∃ later, Passes assumed.admits inbox later ∧ next = { later with stored := some run }
  | .sleep duration, answer, next => Passes assumed.admits inbox next ∧
      (answer = .ok () → inbox.clock + duration ≤ next.clock)
  | _, _, next => Passes assumed.admits inbox next

/-- The machine under the assumptions. -/
def machine (assumed : Assumptions) : Machine requests where
  World := Inbox
  answers := Answers assumed

theorem legal_of_answers {assumed : Assumptions} (inbox : (machine assumed).World) (op : Op)
    (answer : op.Res) (next : (machine assumed).World)
    (answers : (machine assumed).answers inbox op answer next) : Legal op answer := by
  unfold Legal
  split
  · exact answers.1
  · trivial

end Inbox

/-- The control signal of an operator. -/
def operator : ControlSignal where
  actor := "operator"

namespace Inbox

/-- A pause signal of the operator arrives. -/
def withPause (inbox : Inbox) : Inbox :=
  { inbox with
    delivered := inbox.delivered + 1
    pauses := inbox.pauses ++ [⟨inbox.delivered, operator⟩] }

/-- A resume signal of the operator arrives. -/
def withResume (inbox : Inbox) : Inbox :=
  { inbox with
    delivered := inbox.delivered + 1
    resumes := inbox.resumes ++ [⟨inbox.delivered, operator⟩] }

/-- Selectors do not block, and signals are taken as the assumptions demand. -/
def ready (selects : Time → Inbox → Bool) (pauses : Inbox → Bool) (inbox : Inbox) : Op → Bool
  | .receivePause => pauses inbox
  | .selectApproval timeout => (inbox.chooseApproval (inbox.clock + timeout)).isSome &&
      selects (inbox.clock + timeout) inbox && pauses inbox
  | .selectResume => inbox.chooseResume.isSome
  | _ => true

end Inbox

/-- What happens while a run is persisted with an event of the expected type. -/
def upon (expected : String) (arrivals : Inbox → Inbox) (eventType : String) (inbox : Inbox) :
    Inbox :=
  if eventType = expected then arrivals inbox else inbox

theorem passes_upon {admits : ControlSignal → Prop} {arrivals : Inbox → Inbox}
    (passes : ∀ inbox, Inbox.Passes admits inbox (arrivals inbox)) (expected eventType : String)
    (inbox : Inbox) : Inbox.Passes admits inbox (upon expected arrivals eventType inbox) := by
  unfold upon
  split
  · exact passes inbox
  · exact .refl

/--
Activities succeed, the policy gives one decision, and `script` is what happens while
a run is persisted.
-/
def steer (decision : PolicyDecision) (script : String → Inbox → Inbox) : Strategy requests Inbox
  | inbox, .now => (inbox.clock, inbox)
  | inbox, .persistRun input => (smooth (.persistRun input),
      { script input.eventType inbox with stored := some (Activities.persisted input.run) })
  | inbox, .evaluateStep _ _ => (.ok decision, inbox)
  | inbox, .sleep duration => (.ok (), { inbox with clock := inbox.clock + max 0 duration })
  | inbox, .receiveCancel => inbox.receiveCancel
  | inbox, .receivePause => inbox.receivePause
  | inbox, .selectApproval timeout =>
    (inbox.chooseApproval (inbox.clock + timeout)).getD (.expired, inbox)
  | inbox, .selectResume => inbox.chooseResume.getD (.resume operator, inbox)
  | inbox, op => (smooth op, inbox)

section Rehearsals

variable {assumed : Assumptions} {decision : PolicyDecision} {script : String → Inbox → Inbox}
  {selects : Time → Inbox → Bool} {pauses : Inbox → Bool}
  (passes : ∀ eventType inbox, Inbox.Passes assumed.admits inbox (script eventType inbox))
  (selected : ∀ deadline inbox, selects deadline inbox = true → assumed.selects deadline inbox)
  (paused : ∀ inbox, pauses inbox = true → assumed.pauses inbox)

include passes selected paused

theorem steer_answers (inbox : Inbox) (op : Op) (ready : inbox.ready selects pauses op = true) :
    (Inbox.machine assumed).answers inbox op (steer decision script inbox op).1
      (steer decision script inbox op).2 := by
  cases op with
  | now => exact ⟨rfl, rfl⟩
  | persistRun input => exact ⟨rfl, _, passes input.eventType inbox, rfl⟩
  | receiveCancel => rfl
  | receivePause => exact ⟨rfl, fun _ => paused inbox ready⟩
  | sleep duration => exact ⟨.single (.time _ (by simp)), fun _ => by simp [steer]⟩
  | selectApproval timeout =>
    simp only [Inbox.ready, Bool.and_eq_true, Option.isSome_iff_exists] at ready
    obtain ⟨⟨⟨chosen, eq⟩, selecting⟩, pausing⟩ := ready
    refine ⟨inbox, ⟨.refl, fun _ => rfl⟩, selected _ inbox selecting, ?_, fun _ _ =>
      paused inbox pausing⟩
    simp only [steer, eq]
    rfl
  | selectResume =>
    obtain ⟨chosen, eq⟩ := Option.isSome_iff_exists.mp ready
    refine ⟨inbox, ⟨.refl, fun _ => rfl⟩, ?_⟩
    simp only [steer, eq]
    rfl
  | _ => exact .refl

theorem runs_steer {fuel : ℕ} {inbox : Inbox} {program : Prog requests Exit}
    (ready : accepted (Inbox.ready selects pauses) (steer decision script) fuel inbox program) :
    Runs (Inbox.machine assumed) inbox program (play (steer decision script) fuel inbox program).1
      (play (steer decision script) fuel inbox program).2.1
      (play (steer decision script) fuel inbox program).2.2 :=
  runs_play_of_accepted (steer_answers passes selected paused) ready

end Rehearsals

end Themisy.Workflow.Release
