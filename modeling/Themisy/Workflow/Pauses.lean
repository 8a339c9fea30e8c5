import Themisy.Workflow.Evidence
import Themisy.Workflow.Mailbox

/-!
# Pauses

A resume signal which is delivered while the run is not paused waits in its channel,
and undoes the next pause at once; so does a cancel signal behind a pause signal. When
the first waiting signal was delivered after the pause, a pause is ended only by a
signal which was delivered after it.
-/

namespace Themisy.Workflow.Release

open Domain Interaction Planning

namespace Inbox

/-- The signal which a paused run takes next, if it has been delivered. -/
def waiting (inbox : Inbox) : Option Delivery :=
  inbox.resumes.head?.or inbox.cancels.head?

/-- What waits for a paused run was delivered after the pause signal. -/
def Fresh (inbox : Inbox) : Prop :=
  ∀ pause ∈ inbox.pauses.head?, ∀ waiting ∈ inbox.waiting, pause.position < waiting.position

instance : DecidablePred Fresh := fun inbox => by
  unfold Fresh
  infer_instance

end Inbox

/-- Control signals have actors. -/
def Named (signal : ControlSignal) : Prop :=
  signal.actor ≠ ""

/-- Control signals have actors, and pause signals are taken only from some inboxes. -/
def attended (permitted : Inbox → Prop) : Assumptions where
  admits := Named
  selects := fun _ _ => True
  pauses := permitted

/-- The machine on which control signals have actors. -/
def mailbox (permitted : Inbox → Prop) : Machine requests :=
  Inbox.machine (attended permitted)

variable {op : Op} {answer : op.Res} {event : ResumeEvent} {program : Prog requests Exit}
  {goal : Goal} {permitted : Inbox → Prop}

namespace Inbox

/-- The positions of the waiting pause signals are known, and all signals have actors. -/
structure Consistent (inbox : Inbox) : Prop where
  delivered : ∀ pause ∈ inbox.pauses, pause.position < inbox.delivered
  resumes : ∀ resume ∈ inbox.resumes, resume.signal.actor ≠ ""
  cancels : ∀ cancel ∈ inbox.cancels, cancel.signal.actor ≠ ""

/-- The run is paused, and whatever waits for it was delivered after the pause. -/
def Holds (inbox : Inbox) : Prop :=
  ∃ pause, inbox.pausedBy = some pause ∧ pause.position < inbox.delivered ∧
    ∀ waiting ∈ inbox.waiting, pause.position < waiting.position

/-- The pause was ended by a signal which was delivered after it. -/
def Ended (inbox : Inbox) : Prop :=
  ∃ pause ended, inbox.pausedBy = some pause ∧ inbox.endedBy = some ended ∧
    pause.position < ended.position

variable {permitted : Inbox → Prop} {inbox next : Inbox}

theorem Passes.consistent (passes : Passes Named inbox next) (consistent : inbox.Consistent) :
    next.Consistent := by
  induction passes with
  | refl => exact consistent
  | tail _ arrives ih =>
    obtain ⟨delivered, resumes, cancels⟩ := ih
    cases arrives with
    | time | approval => exact ⟨delivered, resumes, cancels⟩
    | pause signal =>
      refine ⟨fun pause member => ?_, resumes, cancels⟩
      rcases List.mem_append.mp member with earlier | last
      · exact Nat.lt_succ_of_lt (delivered pause earlier)
      · rw [List.mem_singleton.mp last]
        exact Nat.lt_succ_self _
    | resume signal named =>
      refine ⟨fun pause member => Nat.lt_succ_of_lt (delivered pause member), ?_, cancels⟩
      intro resume member
      rcases List.mem_append.mp member with earlier | last
      · exact resumes resume earlier
      · rw [List.mem_singleton.mp last]
        exact named
    | cancel signal named =>
      refine ⟨fun pause member => Nat.lt_succ_of_lt (delivered pause member), resumes, ?_⟩
      intro cancel member
      rcases List.mem_append.mp member with earlier | last
      · exact cancels cancel earlier
      · rw [List.mem_singleton.mp last]
        exact named

theorem Arrives.waiting (arrives : Arrives Named inbox next) :
    ∀ waiting ∈ next.waiting, waiting ∈ inbox.waiting ∨ waiting.position = inbox.delivered := by
  intro waiting member
  cases arrives with
  | time | approval | pause => exact Or.inl member
  | resume | cancel =>
    obtain ⟨_, _, _, _, _ | ⟨_, _⟩, _ | ⟨_, _⟩, _, _, _⟩ := inbox
    all_goals
      first
      | exact Or.inl member
      | cases member
        exact Or.inr rfl

theorem Arrives.holds (arrives : Arrives Named inbox next) (holds : inbox.Holds) : next.Holds := by
  obtain ⟨pause, paused, delivered, later⟩ := holds
  have grows : inbox.delivered ≤ next.delivered := by
    cases arrives <;> simp
  have same : next.pausedBy = inbox.pausedBy := by
    cases arrives <;> rfl
  refine ⟨pause, same.trans paused, lt_of_lt_of_le delivered grows, fun waiting member => ?_⟩
  rcases arrives.waiting waiting member with earlier | position
  · exact later waiting earlier
  · rw [position]
    exact delivered

theorem Passes.holds (passes : Passes Named inbox next) (holds : inbox.Holds) : next.Holds := by
  induction passes with
  | refl => exact holds
  | tail _ arrives ih => exact arrives.holds ih

theorem Passes.ended (passes : Passes Named inbox next) (ended : inbox.Ended) : next.Ended := by
  induction passes with
  | refl => exact ended
  | tail _ arrives ih => cases arrives <;> exact ih

/-- Taking a pause signal from a fresh inbox. -/
theorem holds_takePause {pause : Delivery} {rest : List Delivery} (consistent : inbox.Consistent)
    (fresh : inbox.Fresh) (front : inbox.pauses = pause :: rest) :
    (inbox.takePause pause rest).Holds := by
  refine ⟨pause, rfl, consistent.delivered pause (by simp [front]), ?_⟩
  exact fun waiting member => fresh pause (by simp [front]) waiting member

theorem receivePause_true (received : inbox.receivePause = (true, next)) :
    ∃ pause rest, inbox.pauses = pause :: rest ∧ next = inbox.takePause pause rest := by
  unfold receivePause at received
  split at received
  · next pause rest front =>
    cases received
    exact ⟨pause, rest, front, rfl⟩
  · cases received

variable {deadline : Time} {received : Bool}

theorem chooseApproval_pause {signal : ControlSignal}
    (chosen : inbox.chooseApproval deadline = some (.pause signal, next)) :
    ∃ pause rest, inbox.pauses = pause :: rest ∧ next = inbox.takePause pause rest := by
  unfold chooseApproval at chosen
  split at chosen
  · cases chosen
  · next pause rest _ front =>
    cases chosen
    exact ⟨pause, rest, front, rfl⟩
  · cases chosen
  · split at chosen <;> cases chosen

/-- A paused run takes the signal which waits for it. -/
theorem chooseResume_cases (chosen : inbox.chooseResume = some (event, next)) :
    ∃ taken, inbox.waiting = some taken ∧ next.endedBy = some taken ∧
      next.pausedBy = inbox.pausedBy ∧
      (event = .resume taken.signal ∧ taken ∈ inbox.resumes ∨
        event = .cancel taken.signal ∧ taken ∈ inbox.cancels) := by
  unfold chooseResume at chosen
  split at chosen
  · next _ resume rest front =>
    cases chosen
    exact ⟨resume, by simp [waiting, front], rfl, rfl, Or.inl ⟨rfl, by simp [front]⟩⟩
  · next cancel rest empty front =>
    cases chosen
    exact ⟨cancel, by simp [waiting, empty, front], rfl, rfl, Or.inr ⟨rfl, by simp [front]⟩⟩
  · cases chosen

theorem ended_chooseResume (holds : inbox.Holds)
    (chosen : inbox.chooseResume = some (event, next)) : next.Ended := by
  obtain ⟨pause, paused, -, later⟩ := holds
  obtain ⟨taken, front, ended, same, -⟩ := chooseResume_cases chosen
  exact ⟨pause, taken, same.trans paused, ended, later taken front⟩

/-- Signals were taken. -/
structure Shrinks (inbox next : Inbox) : Prop where
  delivered : next.delivered = inbox.delivered
  pauses : next.pauses ⊆ inbox.pauses
  resumes : next.resumes ⊆ inbox.resumes
  cancels : next.cancels ⊆ inbox.cancels

theorem Shrinks.consistent (shrinks : inbox.Shrinks next) (consistent : inbox.Consistent) :
    next.Consistent := by
  refine ⟨fun pause member => ?_, fun resume member => ?_, fun cancel member => ?_⟩
  · rw [shrinks.delivered]
    exact consistent.delivered pause (shrinks.pauses member)
  · exact consistent.resumes resume (shrinks.resumes member)
  · exact consistent.cancels cancel (shrinks.cancels member)

theorem shrinks_receiveCancel (eq : inbox.receiveCancel = (received, next)) :
    inbox.Shrinks next := by
  obtain ⟨_, _, _, _, _, _ | ⟨_, _⟩, _, _, _⟩ := inbox <;> cases eq <;>
    exact ⟨rfl, by simp, by simp, by simp⟩

theorem shrinks_receivePause (eq : inbox.receivePause = (received, next)) : inbox.Shrinks next := by
  obtain ⟨_, _, _, _ | ⟨_, _⟩, _, _, _, _, _⟩ := inbox <;> cases eq <;>
    exact ⟨rfl, by simp [takePause], by simp [takePause], by simp [takePause]⟩

theorem shrinks_chooseApproval {event : ApprovalEvent}
    (chosen : inbox.chooseApproval deadline = some (event, next)) : inbox.Shrinks next := by
  obtain ⟨_, _, _ | ⟨_, _⟩, _ | ⟨_, _⟩, _, _ | ⟨_, _⟩, _, _, _⟩ := inbox
  case nil.nil.nil =>
    simp only [chooseApproval] at chosen
    split at chosen
    · cases chosen
      exact ⟨rfl, by simp, by simp, by simp⟩
    · cases chosen
  all_goals
    cases chosen
    exact ⟨rfl, by simp [takePause], by simp [takePause], by simp [takePause]⟩

theorem shrinks_chooseResume (chosen : inbox.chooseResume = some (event, next)) :
    inbox.Shrinks next := by
  obtain ⟨_, _, _, _, _ | ⟨_, _⟩, _ | ⟨_, _⟩, _, _, _⟩ := inbox <;> cases chosen <;>
    exact ⟨rfl, by simp, by simp, by simp⟩

theorem Answers.consistent (consistent : inbox.Consistent)
    (answers : Answers (attended permitted) inbox op answer next) : next.Consistent := by
  cases op with
  | now =>
    obtain ⟨-, rfl⟩ := answers
    exact consistent
  | receiveCancel => exact (shrinks_receiveCancel answers).consistent consistent
  | receivePause => exact (shrinks_receivePause answers.1).consistent consistent
  | selectApproval timeout =>
    obtain ⟨woken, ⟨passes, -⟩, -, chosen, -⟩ := answers
    exact (shrinks_chooseApproval chosen).consistent (Passes.consistent passes consistent)
  | selectResume =>
    obtain ⟨woken, ⟨passes, -⟩, chosen⟩ := answers
    exact (shrinks_chooseResume chosen).consistent (Passes.consistent passes consistent)
  | persistRun input =>
    cases answer with
    | ok run =>
      obtain ⟨-, later, passes, rfl⟩ := answers
      have kept := Passes.consistent passes consistent
      exact ⟨kept.delivered, kept.resumes, kept.cancels⟩
    | error => exact Passes.consistent answers consistent
  | sleep duration => exact Passes.consistent answers.1 consistent
  | _ => exact Passes.consistent answers consistent

end Inbox

def PausedLast (history : History) : Prop :=
  ∃ stored, lastPersisted history = some stored ∧ stored.status = .paused

/-- What a goal knows about the pause of the run. -/
def Goal.Keeps (inbox : Inbox) (history : History) : Goal → Prop
  | pause _ _ => inbox.Holds ∧ ¬PausedLast history
  | resume _ _ | finish => PausedLast history → inbox.Ended
  | _ => ¬PausedLast history

/-- A run is persisted as paused only while a pause holds. -/
def Location.Keeps (inbox : Inbox) (history : History) : Location → Prop
  | stamp goal _ | store goal _ | completing goal _ _ _ => goal.Keeps inbox history
  | paused _ _ _ => inbox.Holds
  | finished (.error _) => True
  | _ => ¬PausedLast history

section Keeps

variable {digest : Digest} {order : StepOrder} {total index : ℕ}
  {input run : ReleaseRun} {location next : Location} {history : History}
  {inbox after : Inbox}

theorem pausedLast_append {event : Event requests} (other : persistedRun event = none) :
    PausedLast (history ++ [event]) ↔ PausedLast history := by
  rw [PausedLast, lastPersisted_append_none other, PausedLast]

theorem pausedLast_persist (persist : PersistInput) :
    PausedLast (history ++ [⟨.persistRun persist, .ok run⟩]) ↔ run.status = .paused := by
  rw [PausedLast, lastPersisted_append]
  simp

def Goal.pauses : Goal → Bool
  | pause _ _ => true
  | _ => false

def Location.pauses : Location → Bool
  | stamp goal _ | store goal _ | completing goal _ _ _ => goal.pauses
  | paused _ _ _ => true
  | _ => false

theorem Goal.keeps_of_not (other : goal.pauses = false) (unpaused : ¬PausedLast history) :
    goal.Keeps inbox history := by
  cases goal with
  | pause => cases other
  | resume | finish => exact fun paused => absurd paused unpaused
  | _ => exact unpaused

theorem Location.keeps_of_not (other : location.pauses = false)
    (unpaused : ¬PausedLast history) : location.Keeps inbox history := by
  cases location with
  | stamp | store | completing => exact Goal.keeps_of_not other unpaused
  | paused => cases other
  | finished exit =>
    cases exit with
    | error => trivial
    | ok => exact unpaused
  | _ => exact unpaused

theorem Location.Opening.pauses (opening : location.Opening) : location.pauses = false := by
  cases opening <;> rfl

theorem Stores.pauses (stores : Stores order total goal run location)
    (other : goal.pauses = false) : location.pauses = false := by
  cases stores with
  | begin | succeed => exact opening_enter.pauses
  | resumePoll _ begins => exact begins.opening.pauses
  | pause => cases other
  | _ => rfl

theorem Goal.Labelled.not_paused (labelled : goal.Labelled run) (other : goal.pauses = false) :
    run.status ≠ .paused := by
  intro paused
  cases goal with
  | pause => cases other
  | resume wait =>
    have resumed := paused.symm.trans labelled
    cases wait <;> cases resumed
  | finish =>
    rw [Goal.Labelled, paused] at labelled
    cases labelled
  | _ => cases paused.symm.trans labelled

theorem Stores.keeps_pause (stores : Stores order total goal run location)
    (labelled : goal.Labelled run) (keeps : goal.Keeps inbox history) (persist : PersistInput) :
    location.Keeps inbox (history ++ [⟨.persistRun persist, .ok run⟩]) := by
  cases pauses : goal.pauses with
  | false =>
    refine Location.keeps_of_not (stores.pauses pauses) ?_
    rw [pausedLast_persist]
    exact labelled.not_paused pauses
  | true =>
    cases stores with
    | pause => exact keeps.1
    | missing reads =>
      cases goal with
      | pause => cases reads
      | _ => cases pauses
    | _ => cases pauses

theorem Goal.Keeps.mono (keeps : goal.Keeps inbox history) (holds : inbox.Holds → after.Holds)
    (ended : inbox.Ended → after.Ended) : goal.Keeps after history := by
  cases goal with
  | pause => exact ⟨holds keeps.1, keeps.2⟩
  | resume | finish => exact fun paused => ended (keeps paused)
  | _ => exact keeps

theorem Goal.Keeps.append (keeps : goal.Keeps inbox history) {event : Event requests}
    (other : persistedRun event = none) : goal.Keeps inbox (history ++ [event]) := by
  have same : PausedLast (history ++ [event]) ↔ PausedLast history := pausedLast_append other
  cases goal with
  | pause => exact ⟨keeps.1, fun paused => keeps.2 (same.mp paused)⟩
  | resume | finish | _ => exact fun paused => keeps (same.mp paused)

/-- Every transition keeps the pause, as long as pause signals are taken from fresh inboxes. -/
theorem Moves.keeps_pause (moves : Moves digest order total location ⟨op, answer⟩ next)
    (answers : Inbox.Answers (attended Inbox.Fresh) inbox op answer after)
    (consistent : inbox.Consistent) (labelled : location.Labelled)
    (keeps : location.Keeps inbox history) :
    next.Keeps after (history ++ [⟨op, answer⟩]) := by
  have quiet : persistedRun ⟨op, answer⟩ = none → ¬PausedLast history → next.pauses = false →
      next.Keeps after (history ++ [⟨op, answer⟩]) := by
    intro other unpaused unpausing
    refine Location.keeps_of_not unpausing ?_
    rwa [pausedLast_append other]
  cases moves with
  | stamp goal =>
    obtain ⟨-, rfl⟩ := answers
    exact Goal.Keeps.append keeps rfl
  | completed goal =>
    have passed : goal.Keeps after history :=
      Goal.Keeps.mono keeps (Inbox.Passes.holds answers) (Inbox.Passes.ended answers)
    exact passed.append rfl
  | @stored goal run _ audits eventType stores =>
    obtain ⟨-, later, passes, rfl⟩ := answers
    have holds : inbox.Holds → later.Holds := Inbox.Passes.holds passes
    have ended : inbox.Ended → later.Ended := Inbox.Passes.ended passes
    have passed : goal.Keeps { later with stored := some (Activities.persisted run) } history :=
      Goal.Keeps.mono keeps holds ended
    exact stores.keeps_pause (Goal.Labelled.congr labelled rfl rfl) passed _
  | pollPaused =>
    obtain ⟨received, fresh⟩ := answers
    obtain ⟨pause, rest, front, rfl⟩ := Inbox.receivePause_true received
    refine ⟨Inbox.holds_takePause consistent (fresh rfl) front, ?_⟩
    rwa [pausedLast_append rfl]
  | selectPaused =>
    obtain ⟨woken, ⟨passes, -⟩, -, chosen, fresh⟩ := answers
    obtain ⟨pause, rest, front, rfl⟩ := Inbox.chooseApproval_pause chosen
    have woke := Inbox.Passes.consistent passes consistent
    refine ⟨Inbox.holds_takePause woke (fresh _ rfl) front, ?_⟩
    rwa [pausedLast_append rfl]
  | cancelled | resumed =>
    obtain ⟨woken, ⟨passes, -⟩, chosen⟩ := answers
    exact fun _ => Inbox.ended_chooseResume (Inbox.Passes.holds passes keeps) chosen
  | cancelIgnored anonymous | resumeIgnored anonymous =>
    obtain ⟨woken, ⟨passes, -⟩, chosen⟩ := answers
    have woke := Inbox.Passes.consistent passes consistent
    obtain ⟨taken, -, -, -, ⟨event, member⟩ | ⟨event, member⟩⟩ := Inbox.chooseResume_cases chosen
    all_goals cases event
    first
    | exact absurd anonymous (woke.resumes taken member)
    | exact absurd anonymous (woke.cancels taken member)
  | begins begins => exact quiet rfl keeps begins.opening.pauses
  | storeFailed | evaluateFailed | requestMissing | waitMissing | acquireFailed | completeFailed
  | observeFailed | rollbackObserveFailed => trivial
  | _ => exact quiet rfl keeps rfl

theorem Goal.Keeps.ended (keeps : goal.Keeps inbox history) (paused : PausedLast history) :
    inbox.Ended := by
  cases goal with
  | pause => exact absurd paused keeps.2
  | resume | finish => exact keeps paused
  | _ => exact absurd paused keeps

/-- A paused run gets another status only when the pause was ended. -/
theorem Location.Keeps.ended (keeps : location.Keeps inbox history) (labelled : location.Labelled)
    (paused : PausedLast history) (member : run ∈ location.run) (other : run.status ≠ .paused) :
    inbox.Ended := by
  cases location with
  | stamp | store | completing => exact Goal.Keeps.ended keeps paused
  | paused =>
    cases member
    exact absurd labelled.1 other
  | finished exit =>
    cases exit with
    | error => cases member
    | ok => exact absurd paused keeps
  | _ => exact absurd paused keeps

theorem keeps_of_runs {start last : Inbox} {rest : Prog requests Exit}
    {events : History} (consistent : start.Consistent)
    (ran : Runs (mailbox Inbox.Fresh) start program events last rest)
    (reached : Reaches digest order total input events location) : location.Keeps last events := by
  let holds : Inbox → History → Prop := fun inbox history =>
    inbox.Consistent ∧ ∀ location, Reaches digest order total input history location →
      location.Keeps inbox history
  have initial : holds start [] := by
    refine ⟨consistent, fun location reached => ?_⟩
    generalize empty : ([] : History) = history at reached
    cases reached with
    | start =>
      rintro ⟨stored, impossible, -⟩
      cases impossible
    | move => simp at empty
  have step : ∀ inbox history op answer next, holds inbox history →
      (mailbox Inbox.Fresh).answers inbox op answer next →
      holds next (history ++ [⟨op, answer⟩]) := by
    intro inbox history op answer next ⟨consistent, keeps⟩ answers
    refine ⟨Inbox.Answers.consistent consistent answers, fun location reached => ?_⟩
    obtain ⟨before, reachedBefore, moves⟩ := reached.last
    exact moves.keeps_pause answers consistent reachedBefore.labelled (keeps before reachedBefore)
  obtain ⟨-, keeps⟩ : holds last events := ran.invariant holds step initial
  exact keeps location reached

end Keeps

/--
Suppose that, whenever a pause signal is taken, the first signal which waits for a
paused run was delivered after it. Then a run which was persisted as paused is
persisted or returned with another status only after a resume or cancel signal was
taken which had been delivered after the pause signal, and no step is deployed
before.
-/
theorem pause_effective {digest : Digest} {order : StepOrder}
    {input stored : ReleaseRun} {start last : Inbox} {events : History}
    {rest : Prog requests Exit} (consistent : start.Consistent)
    (ran : Runs (mailbox Inbox.Fresh) start (releaseWorkflow digest order input) events last rest)
    (persisted : lastPersisted events = some stored) (paused : stored.status = .paused) :
    (∀ run, Shows rest run → run.status ≠ .paused → ∃ pause ended,
      last.pausedBy = some pause ∧ last.endedBy = some ended ∧ pause.position < ended.position) ∧
    ∀ request next, rest.head ≠ .request (.deploy request) next := by
  have pausedLast : PausedLast events := ⟨stored, persisted, paused⟩
  constructor
  · intro run shown other
    obtain ⟨location, reached, member⟩ := exists_reaches_of_shows Inbox.legal_of_answers ran shown
    exact (keeps_of_runs consistent ran reached).ended reached.labelled pausedLast member other
  · intro request next requested
    obtain ⟨location, reached, asks⟩ :=
      (releaseWorkflow_follows Inbox.legal_of_answers ran).2 _ _ requested
    obtain ⟨index, run, step, rfl⟩ := exists_deploying asks
    exact keeps_of_runs consistent ran reached pausedLast

theorem named_operator : Named operator := by
  simp [Named, operator]

def persisting (program : Prog requests Exit) : Option ReleaseRun :=
  match program.head with
  | .request (.persistRun persist) _ => some persist.run
  | _ => none

theorem shows_of_persisting {run : ReleaseRun} (found : persisting program = some run) :
    Shows program run := by
  unfold persisting at found
  split at found
  · next persist next requested =>
    cases found
    exact .persists requested
  · cases found

/-- The policy allows every step. -/
def allowed : PolicyDecision := { decision := .allow }

/-- What is seen of a pause: the statuses before and after, and the positions of the signals. -/
def pauseOutcome (played : History × Inbox × Prog requests Exit) :
    Option RunStatus × Option RunStatus × Option ℕ × Option ℕ :=
  ((lastPersisted played.1).map ReleaseRun.status, (persisting played.2.2).map ReleaseRun.status,
    played.2.1.pausedBy.map Delivery.position, played.2.1.endedBy.map Delivery.position)

theorem exists_of_pauseOutcome {played : History × Inbox × Prog requests Exit}
    {before after : RunStatus} {pausedAt endedAt : ℕ}
    (outcome : pauseOutcome played = (some before, some after, some pausedAt, some endedAt)) :
    ∃ stored run pause ended, lastPersisted played.1 = some stored ∧ stored.status = before ∧
      Shows played.2.2 run ∧ run.status = after ∧ played.2.1.pausedBy = some pause ∧
      played.2.1.endedBy = some ended ∧ pause.position = pausedAt ∧ ended.position = endedAt := by
  simp only [pauseOutcome, Prod.mk.injEq, Option.map_eq_some_iff] at outcome
  obtain ⟨⟨stored, persisted, paused⟩, ⟨run, shown, left⟩, ⟨pause, pausedBy, pausedAt⟩,
    ended, endedBy, endedAt⟩ := outcome
  exact ⟨stored, run, pause, ended, persisted, paused, shows_of_persisting shown, left, pausedBy,
    endedBy, pausedAt, endedAt⟩

/-- A resume signal which arrives before the pause signal ends the pause. -/
theorem pause_undone_by_earlier_resume :
    ∃ plan events last rest stored run pause ended,
      Plans catalog ["api"] plan ∧
      Runs (mailbox fun _ => True) { clock := 1 } (rehearsal ["api"] plan) events last rest ∧
      lastPersisted events = some stored ∧ stored.status = .paused ∧
      Shows rest run ∧ run.status = .running ∧
      last.pausedBy = some pause ∧ last.endedBy = some ended ∧ ended.position < pause.position := by
  let script := upon "release.workflow.started" fun inbox => inbox.withResume.withPause
  have evaluated : rehearse catalog ["api"] (fun plan =>
      let release := rehearsal ["api"] plan
      (accepted (Inbox.ready (fun _ _ => true) fun _ => true) (steer allowed script) 8
          { clock := 1 } release,
        pauseOutcome (play (steer allowed script) 8 { clock := 1 } release))) =
          .ok (true, some .paused, some .running, some 1, some 0) := by
    decide +kernel
  obtain ⟨plan, plans, outcome⟩ := exists_of_rehearse evaluated
  obtain ⟨ready, seen⟩ := Prod.mk.inj outcome
  obtain ⟨stored, run, pause, ended, persisted, paused, shown, left, pausedBy, endedBy, pausedAt,
    endedAt⟩ := exists_of_pauseOutcome seen
  have passes : ∀ eventType inbox, Inbox.Passes Named inbox (script eventType inbox) :=
    passes_upon (fun inbox =>
      .head (.resume operator named_operator) (.single (.pause operator named_operator))) _
  have ran : Runs (mailbox fun _ => True) _ _ _ _ _ :=
    runs_steer passes (fun _ _ _ => trivial) (fun _ _ => trivial) ready
  refine ⟨plan, _, _, _, stored, run, pause, ended, plans, ran, persisted, paused, shown, left,
    pausedBy, endedBy, ?_⟩
  omega

/-- A pause is ended by the resume signal which arrives after it. -/
theorem pause_effective_resumed :
    ∃ plan events last rest stored run,
      Plans catalog ["api"] plan ∧
      Runs (mailbox Inbox.Fresh) { clock := 1 } (rehearsal ["api"] plan) events last rest ∧
      lastPersisted events = some stored ∧ stored.status = .paused ∧
      Shows rest run ∧ run.status = .running ∧ ∃ pause ended, last.pausedBy = some pause ∧
        last.endedBy = some ended ∧ pause.position < ended.position := by
  let script := fun eventType inbox => upon "release.paused" Inbox.withResume eventType
    (upon "release.workflow.started" Inbox.withPause eventType inbox)
  have evaluated : rehearse catalog ["api"] (fun plan =>
      let release := rehearsal ["api"] plan
      (accepted (Inbox.ready (fun _ _ => true) fun inbox => decide inbox.Fresh)
          (steer allowed script) 8 { clock := 1 } release,
        pauseOutcome (play (steer allowed script) 8 { clock := 1 } release))) =
          .ok (true, some .paused, some .running, some 0, some 1) := by
    decide +kernel
  obtain ⟨plan, plans, outcome⟩ := exists_of_rehearse evaluated
  obtain ⟨ready, seen⟩ := Prod.mk.inj outcome
  obtain ⟨stored, run, pause, ended, persisted, paused, shown, left, -⟩ :=
    exists_of_pauseOutcome seen
  have passes : ∀ eventType inbox, Inbox.Passes Named inbox (script eventType inbox) :=
    fun eventType inbox => (passes_upon (fun inbox => .single (.pause operator named_operator)) _ _
      inbox).trans (passes_upon (fun inbox => .single (.resume operator named_operator)) _ _ _)
  have fresh : ∀ inbox : Inbox, decide inbox.Fresh = true → inbox.Fresh :=
    fun _ => of_decide_eq_true
  have ran : Runs (mailbox Inbox.Fresh) _ _ _ _ _ :=
    runs_steer passes (fun _ _ _ => trivial) fresh ready
  have consistent : Inbox.Consistent { clock := 1 } := ⟨by simp, by simp, by simp⟩
  exact ⟨plan, _, _, _, stored, run, plans, ran, persisted, paused, shown, left,
    (pause_effective consistent ran persisted paused).1 run shown (by simp [left])⟩

end Themisy.Workflow.Release
