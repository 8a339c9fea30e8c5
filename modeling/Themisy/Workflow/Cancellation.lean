import Themisy.Workflow.Pauses

/-!
# Cancellations

The workflow polls the channel of cancel signals at the head of every iteration. A
cancel signal which is delivered during an iteration is taken by a selector of that
iteration, or waits until the next poll. So the iteration in progress is the last one
which may deploy, and the steps after it are cancelled.
-/

namespace Themisy.Workflow.Release

open Domain Interaction Planning

def Op.isPoll : Op → Bool
  | receiveCancel => true
  | _ => false

/-- The number of iterations which were started: each begins with a poll. -/
def iterations (history : History) : ℕ :=
  (history.filter fun event => event.1.isPoll).length

/-- The iterations which were started when a run is persisted, unless the release ends. -/
def Goal.begun : Goal → Option ℕ
  | begin => some 0
  | goal => goal.place.map (· + 1)

/-- The iterations which were started at a location, unless the release ends. -/
def Location.begun : Location → Option ℕ
  | stamp goal _ | store goal _ | completing goal _ _ _ => goal.begun
  | poll index _ => some index
  | location => location.place.map (· + 1)

theorem iterations_append (history : History) {event : Event requests}
    (other : event.1.isPoll = false) : iterations (history ++ [event]) = iterations history := by
  simp [iterations, other]

theorem iterations_poll (history : History) (received : Bool) :
    iterations (history ++ [⟨.receiveCancel, received⟩]) = iterations history + 1 := by
  simp [iterations, Op.isPoll]

/-- From the given step on, the statuses are those of the input. -/
def Untouched (input : ReleaseRun) (count : ℕ) (run : ReleaseRun) : Prop :=
  ∀ place, count ≤ place → (statuses run)[place]? = (statuses input)[place]?

/-- From the given step on, the steps which were pending in the input are cancelled. -/
def CancelledFrom (input : ReleaseRun) (count : ℕ) (run : ReleaseRun) : Prop :=
  ∀ place, count ≤ place → (statuses input)[place]? = some .pending →
    (statuses run)[place]? = some .cancelled

variable {digest : Digest} {order : StepOrder} {total index count first : ℕ}
  {input run : ReleaseRun} {location next : Location} {history : History} {event : Event requests}
  {op : Op} {answer : op.Res} {inbox after : Inbox} {permitted : Inbox → Prop}

theorem Untouched.setStep (untouched : Untouched input (index + 1) run)
    (change : ReleaseStep → ReleaseStep) :
    Untouched input (index + 1) (Release.setStep run index change) := by
  intro place later
  rw [← untouched place later]
  have other : index ≠ place := by omega
  simp [statuses, Release.setStep, other]

theorem Untouched.cancelSteps {listed : List StepStatus} (untouched : Untouched input count run)
    (pending : .pending ∈ listed) {first : ℕ} (earlier : first ≤ count) :
    CancelledFrom input count (Release.cancelSteps listed first run) := by
  intro place later waiting
  rw [← untouched place later] at waiting
  obtain ⟨bound, -⟩ := List.getElem?_eq_some_iff.mp waiting
  have length : ((statuses run).take first).length = first := by
    rw [List.length_take]
    omega
  rw [statuses_cancelSteps, List.getElem?_append_right (by omega), length, List.getElem?_map,
    List.getElem?_drop, Nat.add_sub_cancel' (earlier.trans later), waiting, Option.map_some,
    if_pos pending]

theorem Untouched.stoppedRun (untouched : Untouched input (index + 1) run) (status : StepStatus)
    (failure : String) (runStatus : RunStatus) :
    CancelledFrom input (index + 1) (stoppedRun run index status failure runStatus) :=
  Untouched.cancelSteps (untouched.setStep _) (by simp) le_rfl

theorem Untouched.blockRun (untouched : Untouched input (index + 1) run)
    (change : Approval → Approval) :
    CancelledFrom input (index + 1) (blockRun run index change) :=
  Untouched.cancelSteps (untouched.setStep _) (by simp) le_rfl

theorem Untouched.cancelledRun (untouched : Untouched input count run) (earlier : index ≤ count) :
    CancelledFrom input count (cancelledRun run index) :=
  untouched.cancelSteps (by simp) earlier

theorem untouched_assignWaves {order : StepOrder} {waved : ReleaseRun}
    (untouched : Untouched input count run) (assigned : assignWaves order run = .ok waved) :
    Untouched input count waved := by
  obtain ⟨wave, rfl⟩ := exists_waves_of_assignWaves assigned
  intro place later
  rw [← untouched place later, statuses, List.map_map]
  rfl

theorem Untouched.mono {later : ℕ} (untouched : Untouched input count run) (le : count ≤ later) :
    Untouched input later run :=
  fun place bound => untouched place (le.trans bound)

theorem CancelledFrom.mono {later : ℕ} (cancelled : CancelledFrom input count run)
    (le : count ≤ later) : CancelledFrom input later run :=
  fun place bound => cancelled place (le.trans bound)

/-- The steps not begun are untouched, or cancelled at the end. -/
structure Location.Ahead (input : ReleaseRun) (history : History)
    (location : Location) : Prop where
  running : ∀ count ∈ location.begun, iterations history = count ∧
    ∀ run ∈ location.run, Untouched input count run
  ended : location.begun = none → ∀ run ∈ location.run,
    CancelledFrom input (iterations history) run

theorem ahead_of_begun (begun : location.begun = some count) (same : iterations history = count)
    (untouched : ∀ run ∈ location.run, Untouched input count run) :
    location.Ahead input history := by
  constructor
  · intro other member
    rw [begun] at member
    cases member
    exact ⟨same, untouched⟩
  · intro none
    rw [begun] at none
    cases none

theorem ahead_of_ended (none : location.begun = none) (same : iterations history = count)
    (cancelled : ∀ run ∈ location.run, CancelledFrom input count run) :
    location.Ahead input history := by
  constructor
  · intro count member
    rw [none] at member
    cases member
  · intro _ run member
    rw [same]
    exact cancelled run member

theorem ahead_enter (same : iterations history = index) (untouched : Untouched input index run) :
    (enter input.steps.length index run).Ahead input history := by
  unfold enter
  split
  · refine ahead_of_begun rfl same ?_
    rintro _ ⟨⟩
    exact untouched
  · refine ahead_of_ended rfl same ?_
    rintro _ ⟨⟩ place later waiting
    have bound := (List.getElem?_eq_some_iff.mp waiting).1
    simp only [statuses, List.length_map] at bound
    omega

theorem Begins.ahead (begins : Begins input.steps.length index run location)
    (same : iterations history = index + 1) (untouched : Untouched input (index + 1) run) :
    location.Ahead input history := by
  cases begins with
  | done => exact ahead_enter same untouched
  | unmet =>
    refine ahead_of_ended rfl same ?_
    rintro _ ⟨⟩
    exact untouched.stoppedRun _ _ _
  | evaluate =>
    refine ahead_of_begun rfl same ?_
    rintro _ ⟨⟩
    exact untouched
  | missing => exact ahead_of_ended rfl rfl (by simp [Location.run, Except.toOption])

theorem Stores.ahead {goal : Goal} (stores : Stores order input.steps.length goal run location)
    (labelled : goal.Labelled run) (ahead : (Location.stamp goal run).Ahead input history) :
    location.Ahead input history := by
  cases stores with
  | finish =>
    refine ahead_of_ended rfl rfl ?_
    rintro _ ⟨⟩
    exact ahead.ended rfl run rfl
  | beginFailed | missing => exact ahead_of_ended rfl rfl (by simp [Location.run, Except.toOption])
  | resumeCancelled cancelled => exact absurd cancelled labelled.not_cancelled
  | begin assigned =>
    obtain ⟨same, untouched⟩ := ahead.running _ rfl
    exact ahead_enter same (untouched_assignWaves (untouched run rfl) assigned)
  | succeed =>
    obtain ⟨same, untouched⟩ := ahead.running _ rfl
    exact ahead_enter same (untouched run rfl)
  | resumePoll _ begins =>
    obtain ⟨same, untouched⟩ := ahead.running _ rfl
    exact begins.ahead same (untouched run rfl)
  | deny =>
    obtain ⟨same, untouched⟩ := ahead.running _ rfl
    refine ahead_of_ended rfl same ?_
    rintro _ ⟨⟩
    exact (untouched run rfl).stoppedRun _ _ _
  | _ =>
    obtain ⟨same, untouched⟩ := ahead.running _ rfl
    refine ahead_of_begun rfl same ?_
    rintro _ ⟨⟩
    exact untouched run rfl

/-- Two locations which persist the same steps with the same goal. -/
theorem Location.Ahead.congr {longer : History} (ahead : location.Ahead input history)
    (begun : next.begun = location.begun) (same : iterations longer = iterations history)
    (kept : ∀ later ∈ next.run, ∃ run ∈ location.run, statuses later = statuses run) :
    next.Ahead input longer := by
  constructor
  · intro count member
    rw [begun] at member
    obtain ⟨counted, untouched⟩ := ahead.running count member
    refine ⟨same.trans counted, fun later laterMem place bound => ?_⟩
    obtain ⟨run, runMem, eq⟩ := kept later laterMem
    rw [eq]
    exact untouched run runMem place bound
  · intro none later laterMem place bound waiting
    obtain ⟨run, runMem, eq⟩ := kept later laterMem
    rw [eq]
    rw [same] at bound
    exact ahead.ended (begun.symm.trans none) run runMem place bound waiting

/-- Every transition keeps the later steps, or cancels them when the release ends. -/
theorem Moves.ahead (moves : Moves digest order input.steps.length location event next)
    (labelled : location.Labelled) (ahead : location.Ahead input history) :
    next.Ahead input (history ++ [event]) := by
  cases moves with
  | stamp | completed =>
    refine ahead.congr rfl (iterations_append _ rfl) ?_
    rintro _ ⟨⟩
    exact ⟨_, rfl, rfl⟩
  | stored _ _ stores =>
    refine stores.ahead (Goal.Labelled.congr labelled rfl rfl)
      (ahead.congr rfl (iterations_append _ rfl) ?_)
    rintro _ ⟨⟩
    exact ⟨_, rfl, rfl⟩
  | storeFailed | evaluateFailed | requestMissing | waitMissing | acquireFailed | completeFailed
  | observeFailed | rollbackObserveFailed =>
    exact ahead_of_ended rfl rfl (by simp [Location.run, Except.toOption])
  | pollCancelled =>
    obtain ⟨same, untouched⟩ := ahead.running _ rfl
    refine ahead_of_ended rfl (by rw [iterations_poll, same]) ?_
    rintro _ ⟨⟩
    exact ((untouched _ rfl).cancelledRun le_rfl).mono (Nat.le_succ _)
  | poll =>
    obtain ⟨same, untouched⟩ := ahead.running _ rfl
    refine ahead_of_begun rfl (by rw [iterations_poll, same]) ?_
    rintro _ ⟨⟩
    exact (untouched _ rfl).mono (Nat.le_succ _)
  | begins begins =>
    obtain ⟨same, untouched⟩ := ahead.running _ rfl
    exact begins.ahead ((iterations_append _ rfl).trans same) (untouched _ rfl)
  -- the transitions which end the release
  | cancelled | selectCancelled =>
    obtain ⟨same, untouched⟩ := ahead.running _ rfl
    refine ahead_of_ended rfl ((iterations_append _ rfl).trans same) ?_
    rintro _ ⟨⟩
    exact (untouched _ rfl).cancelledRun (Nat.le_succ _)
  | selectExpired | revoked | denied =>
    obtain ⟨same, untouched⟩ := ahead.running _ rfl
    refine ahead_of_ended rfl ((iterations_append _ rfl).trans same) ?_
    rintro _ ⟨⟩
    exact (untouched _ rfl).blockRun _
  | backpressured | deployFailed | verifyFailed | rollbackFailed | rollbackVerifyFailed =>
    obtain ⟨same, untouched⟩ := ahead.running _ rfl
    refine ahead_of_ended rfl ((iterations_append _ rfl).trans same) ?_
    rintro _ ⟨⟩
    exact (untouched _ rfl).stoppedRun _ _ _
  | escalated | rollbackPassed | rollbackRejected =>
    obtain ⟨same, untouched⟩ := ahead.running _ rfl
    refine ahead_of_ended rfl ((iterations_append _ rfl).trans same) ?_
    rintro _ ⟨⟩
    exact ((untouched _ rfl).setStep _).stoppedRun _ _ _
  -- the transitions which change the current step
  | evaluated | requested | approved | acquired | rolledBack =>
    obtain ⟨same, untouched⟩ := ahead.running _ rfl
    refine ahead_of_begun rfl ((iterations_append _ rfl).trans same) ?_
    rintro _ ⟨⟩
    exact (untouched _ rfl).setStep _
  | deployed | deployedUnverified | passed | rolls =>
    obtain ⟨same, untouched⟩ := ahead.running _ rfl
    refine ahead_of_begun rfl ((iterations_append _ rfl).trans same) ?_
    rintro _ ⟨⟩
    exact ((untouched _ rfl).setStep _).setStep _
  | _ =>
    refine ahead.congr rfl (iterations_append _ rfl) ?_
    rintro _ ⟨⟩
    exact ⟨_, rfl, rfl⟩

theorem Reaches.ahead (reached : Reaches digest order input.steps.length input history location) :
    location.Ahead input history := by
  induction reached with
  | start =>
    refine ahead_of_begun rfl rfl ?_
    rintro _ ⟨⟩ place _
    rfl
  | move reached moves ih => exact moves.ahead reached.labelled ih

def takesCancel : Event requests → Bool
  | ⟨.receiveCancel, received⟩ => received
  | ⟨.selectApproval _, .cancel _⟩ => true
  | ⟨.selectResume, .cancel _⟩ => true
  | _ => false

/-- A cancel signal has been delivered: it waits, or it was taken. -/
def CancelDelivered (history : History) (inbox : Inbox) : Prop :=
  inbox.cancels ≠ [] ∨ ∃ event ∈ history, takesCancel event = true

theorem Inbox.Passes.cancels (passes : Inbox.Passes Named inbox after)
    (queued : inbox.cancels ≠ []) : after.cancels ≠ [] := by
  induction passes with
  | refl => exact queued
  | tail _ arrives ih =>
    cases arrives with
    | cancel => simp
    | time | approval | pause | resume => exact ih

theorem Inbox.chooseApproval_cancels {deadline : Time} {event : ApprovalEvent}
    (chosen : inbox.chooseApproval deadline = some (event, after)) :
    (after.cancels = inbox.cancels ∧ ∀ signal, event ≠ .cancel signal) ∨
      ∃ cancel ∈ inbox.cancels, event = .cancel cancel.signal := by
  unfold Inbox.chooseApproval at chosen
  split at chosen
  · cases chosen
    exact Or.inl ⟨rfl, by simp⟩
  · cases chosen
    exact Or.inl ⟨rfl, by simp⟩
  · next cancel rest _ _ front =>
    cases chosen
    exact Or.inr ⟨cancel, by simp [front], rfl⟩
  · split at chosen
    · cases chosen
      exact Or.inl ⟨rfl, by simp⟩
    · cases chosen

theorem Inbox.chooseResume_cancels {event : ResumeEvent}
    (chosen : inbox.chooseResume = some (event, after)) :
    (after.cancels = inbox.cancels ∧ ∀ signal, event ≠ .cancel signal) ∨
      ∃ cancel ∈ inbox.cancels, event = .cancel cancel.signal := by
  unfold Inbox.chooseResume at chosen
  split at chosen
  · cases chosen
    exact Or.inl ⟨rfl, by simp⟩
  · next cancel rest _ front =>
    cases chosen
    exact Or.inr ⟨cancel, by simp [front], rfl⟩
  · cases chosen

theorem received_of_queued {received : Bool}
    (answers : Inbox.Answers (attended permitted) inbox .receiveCancel received after)
    (queued : inbox.cancels ≠ []) : received = true := by
  cases waiting : inbox.cancels with
  | nil => exact absurd waiting queued
  | cons =>
    simp only [Inbox.Answers, Inbox.receiveCancel, waiting] at answers
    cases answers
    rfl

/-- A cancel signal waits until it is taken. -/
theorem Inbox.Answers.cancels (answers : Inbox.Answers (attended permitted) inbox op answer after)
    (other : takesCancel ⟨op, answer⟩ = false) (queued : inbox.cancels ≠ []) :
    after.cancels ≠ [] := by
  cases op with
  | now =>
    obtain ⟨-, rfl⟩ := answers
    exact queued
  | receiveCancel => exact absurd other (by simp [takesCancel, received_of_queued answers queued])
  | receivePause =>
    obtain ⟨received, -⟩ := answers
    obtain ⟨_, _, _, _ | ⟨_, _⟩, _, _, _, _, _⟩ := inbox <;> cases received <;> exact queued
  | selectApproval timeout =>
    obtain ⟨woken, ⟨passes, -⟩, -, chosen, -⟩ := answers
    rcases Inbox.chooseApproval_cancels chosen with ⟨same, -⟩ | ⟨cancel, -, rfl⟩
    · rw [same]
      exact Inbox.Passes.cancels passes queued
    · cases other
  | selectResume =>
    obtain ⟨woken, ⟨passes, -⟩, chosen⟩ := answers
    rcases Inbox.chooseResume_cancels chosen with ⟨same, -⟩ | ⟨cancel, -, rfl⟩
    · rw [same]
      exact Inbox.Passes.cancels passes queued
    · cases other
  | persistRun input =>
    cases answer with
    | ok =>
      obtain ⟨-, later, passes, rfl⟩ := answers
      have still : later.cancels ≠ [] := Inbox.Passes.cancels passes queued
      exact still
    | error => exact Inbox.Passes.cancels answers queued
  | sleep => exact Inbox.Passes.cancels answers.1 queued
  | _ => exact Inbox.Passes.cancels answers queued

variable {signal : ControlSignal}

theorem Inbox.Answers.named_of_selectApproval {timeout : Time}
    (answers : Inbox.Answers (attended permitted) inbox (.selectApproval timeout)
      (.cancel signal) after)
    (consistent : inbox.Consistent) : signal.actor ≠ "" := by
  obtain ⟨woken, ⟨passes, -⟩, -, chosen, -⟩ := answers
  rcases Inbox.chooseApproval_cancels chosen with ⟨-, other⟩ | ⟨cancel, member, same⟩
  · exact absurd rfl (other signal)
  · cases same
    exact (Inbox.Passes.consistent passes consistent).cancels cancel member

theorem Inbox.Answers.named_of_selectResume
    (answers : Inbox.Answers (attended permitted) inbox .selectResume (.cancel signal) after)
    (consistent : inbox.Consistent) : signal.actor ≠ "" := by
  obtain ⟨woken, ⟨passes, -⟩, chosen⟩ := answers
  rcases Inbox.chooseResume_cancels chosen with ⟨-, other⟩ | ⟨cancel, member, same⟩
  · exact absurd rfl (other signal)
  · cases same
    exact (Inbox.Passes.consistent passes consistent).cancels cancel member

/--
A cancel signal was delivered when the given number of iterations had been started:
the release has ended, or the signal waits and no further iteration was started.
-/
def Halting (input : ReleaseRun) (first : ℕ) (inbox : Inbox) (history : History)
    (location : Location) : Prop :=
  (location.begun = none ∧ ∀ run ∈ location.run, CancelledFrom input first run) ∨
    (inbox.cancels ≠ [] ∧ iterations history = first)

theorem Stores.ended {goal : Goal} (stores : Stores order total goal run location)
    (finished : goal.begun = none) :
    location.begun = none ∧ ∀ later ∈ location.run, later = run := by
  cases stores with
  | finish =>
    refine ⟨rfl, ?_⟩
    rintro _ ⟨⟩
    rfl
  | missing => exact ⟨rfl, by simp [Location.run, Except.toOption]⟩
  | _ => cases finished

theorem Moves.ended (moves : Moves digest order total location event next)
    (finished : location.begun = none) : next.begun = none ∧ ∀ later ∈ next.run,
      ∃ run ∈ location.run, statuses later = statuses run := by
  cases moves with
  | stamp | completed =>
    refine ⟨finished, ?_⟩
    rintro _ ⟨⟩
    exact ⟨_, rfl, rfl⟩
  | stored _ _ stores =>
    obtain ⟨ended, same⟩ := stores.ended finished
    refine ⟨ended, fun later member => ⟨_, rfl, ?_⟩⟩
    rw [same later member]
    rfl
  | storeFailed | completeFailed => exact ⟨rfl, by simp [Location.run, Except.toOption]⟩
  | _ => cases finished

variable {program rest : Prog requests Exit} {events : History} {start last : Inbox}

/-- A cancel signal which is taken ends the release. -/
theorem Moves.ended_of_takesCancel (moves : Moves digest order total location ⟨op, answer⟩ next)
    (answers : Inbox.Answers (attended permitted) inbox op answer after)
    (consistent : inbox.Consistent) (takes : takesCancel ⟨op, answer⟩ = true) :
    next.begun = none := by
  cases moves with
  | pollCancelled | cancelled | selectCancelled => rfl
  | cancelIgnored anonymous =>
    exact absurd anonymous (Inbox.Answers.named_of_selectResume answers consistent)
  | @selectIgnored _ _ _ _ event _ anonymous =>
    cases event with
    | cancel signal =>
      exact absurd anonymous.1 (Inbox.Answers.named_of_selectApproval answers consistent)
    | approval | pause | expired => cases takes
  | _ => cases takes

theorem Moves.halting (moves : Moves digest order input.steps.length location ⟨op, answer⟩ next)
    (answers : Inbox.Answers (attended permitted) inbox op answer after)
    (consistent : inbox.Consistent) (labelled : location.Labelled)
    (ahead : location.Ahead input history)
    (halting : Halting input first inbox history location) :
    Halting input first after (history ++ [⟨op, answer⟩]) next := by
  rcases halting with ⟨finished, cancelled⟩ | ⟨queued, same⟩
  · obtain ⟨ended, kept⟩ := moves.ended finished
    refine Or.inl ⟨ended, fun later member place bound waiting => ?_⟩
    obtain ⟨run, runMem, eq⟩ := kept later member
    rw [eq]
    exact cancelled run runMem place bound waiting
  have later := moves.ahead labelled ahead
  cases takes : takesCancel ⟨op, answer⟩ with
  | false =>
    have unpolled : op.isPoll = false := by
      cases op with
      | receiveCancel =>
        exact absurd takes (by simp [takesCancel, received_of_queued answers queued])
      | _ => rfl
    exact Or.inr ⟨Inbox.Answers.cancels answers takes queued,
      (iterations_append history unpolled).trans same⟩
  | true =>
    have ended := moves.ended_of_takesCancel answers consistent takes
    refine Or.inl ⟨ended, ?_⟩
    cases polled : op.isPoll with
    | false =>
      have cancelled := later.ended ended
      rwa [iterations_append history polled, same] at cancelled
    | true =>
      -- the poll of the next iteration cancels it as well
      cases moves with
      | pollCancelled =>
        obtain ⟨count, untouched⟩ := ahead.running _ rfl
        rintro _ ⟨⟩
        rw [← same, count]
        exact (untouched _ rfl).cancelledRun le_rfl
      | poll => cases takes
      | _ => cases polled

theorem consistent_of_runs {start last : (mailbox permitted).World}
    (consistent : Inbox.Consistent start)
    (ran : Runs (mailbox permitted) start program events last rest) : Inbox.Consistent last := by
  induction ran with
  | refl => exact consistent
  | step _ answered _ ih => exact ih (Inbox.Answers.consistent consistent answered)

theorem ended_of_taken (consistent : start.Consistent)
    (ran : Runs (mailbox permitted) start program events last rest)
    (taken : ∃ event ∈ events, takesCancel event = true)
    (reached : Reaches digest order total input events location) : location.begun = none := by
  let holds : Inbox → History → Prop := fun inbox history =>
    inbox.Consistent ∧ ((∃ event ∈ history, takesCancel event = true) → ∀ location,
      Reaches digest order total input history location → location.begun = none)
  have step : ∀ inbox history op answer next, holds inbox history →
      (mailbox permitted).answers inbox op answer next →
      holds next (history ++ [⟨op, answer⟩]) := by
    rintro inbox history op answer next ⟨consistent, ended⟩ answers
    refine ⟨Inbox.Answers.consistent consistent answers, ?_⟩
    rintro ⟨event, member, takes⟩ location reached
    obtain ⟨before, reachedBefore, moves⟩ := reached.last
    rcases List.mem_append.mp member with earlier | now
    · exact (moves.ended (ended ⟨event, earlier, takes⟩ before reachedBefore)).1
    · rw [List.mem_singleton.mp now] at takes
      exact moves.ended_of_takesCancel answers consistent takes
  have initial : holds start [] := ⟨consistent, by simp⟩
  obtain ⟨-, ended⟩ : holds last events := ran.invariant holds step initial
  exact ended taken location reached

/-- From the delivery of a cancel signal on, the release is halting. -/
theorem halting_of_delivered {middle : Inbox} {stopped : Prog requests Exit}
    {before after : History} (consistent : start.Consistent)
    (ran : Runs (mailbox permitted) start program before middle stopped)
    (delivered : CancelDelivered before middle)
    (continued : Runs (mailbox permitted) middle stopped after last rest)
    (reached : Reaches digest order input.steps.length input (before ++ after) location) :
    Halting input (iterations before) last (before ++ after) location := by
  let holds : Inbox → History → Prop := fun inbox history =>
    inbox.Consistent ∧ ∀ location, Reaches digest order input.steps.length input history location →
      Halting input (iterations before) inbox history location
  have step : ∀ inbox history op answer next, holds inbox history →
      (mailbox permitted).answers inbox op answer next →
      holds next (history ++ [⟨op, answer⟩]) := by
    rintro inbox history op answer next ⟨consistent, halting⟩ answers
    refine ⟨Inbox.Answers.consistent consistent answers, fun location reached => ?_⟩
    obtain ⟨earlier, reachedBefore, moves⟩ := reached.last
    exact moves.halting answers consistent reachedBefore.labelled reachedBefore.ahead
      (halting earlier reachedBefore)
  have initial : holds middle before := by
    refine ⟨consistent_of_runs consistent ran, fun location reached => ?_⟩
    rcases delivered with queued | taken
    · exact Or.inr ⟨queued, rfl⟩
    · have finished := ended_of_taken consistent ran taken reached
      exact Or.inl ⟨finished, reached.ahead.ended finished⟩
  obtain ⟨-, halting⟩ : holds last (before ++ after) := continued.invariant holds step initial
  exact halting location reached

/--
Suppose that a cancel signal has been delivered at some moment of a release. Later
deployments are those of the iteration which is in progress at that moment, and when
the workflow returns a run, the steps after that iteration are cancelled. All steps
are meant when no iteration has been started. The steps of a new run are pending.
-/
theorem cancel_stops_later_work {digest : Digest} {order : StepOrder}
    {input : ReleaseRun} {start middle last : Inbox} {before after : History}
    {stopped rest : Prog requests Exit} (consistent : start.Consistent)
    (ran : Runs (mailbox fun _ => True) start (releaseWorkflow digest order input) before middle
      stopped)
    (delivered : CancelDelivered before middle)
    (continued : Runs (mailbox fun _ => True) middle stopped after last rest) :
    (∀ request next, rest.head = .request (.deploy request) next →
      iterations (before ++ after) = iterations before ∧ ∃ index original,
        iterations before = index + 1 ∧ input.steps[index]? = some original ∧
        request = deployInput input original) ∧
    ∀ run, rest = .pure (.ok run) → ∀ place original, iterations before ≤ place →
      input.steps[place]? = some original → original.status = .pending →
      ∃ step, run.steps[place]? = some step ∧ step.status = .cancelled := by
  have follows := releaseWorkflow_follows Inbox.legal_of_answers (ran.trans continued)
  constructor
  · intro request next requested
    obtain ⟨location, reached, asks⟩ := follows.2 _ _ requested
    obtain ⟨index, run, step, rfl⟩ := exists_deploying asks
    cases asks
    rcases halting_of_delivered consistent ran delivered continued reached with
      ⟨finished, -⟩ | ⟨-, same⟩
    · cases finished
    · obtain ⟨count, -⟩ := reached.ahead.running _ rfl
      obtain ⟨original, found, sameStep⟩ := reached.step rfl
      exact ⟨same, index, original, same.symm.trans count, found,
        deployInput_eq_of_outline (reached.outline run rfl) sameStep⟩
  · rintro run rfl place original later found pending
    have reached := follows.1 _ rfl
    have cancelled : CancelledFrom input (iterations before) run := by
      rcases halting_of_delivered consistent ran delivered continued reached with
        ⟨-, cancelled⟩ | ⟨-, same⟩
      · exact cancelled run rfl
      · rw [← same]
        exact reached.ahead.ended rfl run rfl
    have status := cancelled place later (by simp [statuses, found, pending])
    simpa [statuses] using status

/-- The operator cancels while the first deployment is about to be made. -/
def whileExecuting : String → Inbox → Inbox :=
  upon "deployment.executing" fun inbox =>
    { inbox with
      delivered := inbox.delivered + 1
      cancels := inbox.cancels ++ [⟨inbox.delivered, operator⟩] }

/-- The release up to the request to deploy its first service. -/
def interrupted (input : ReleaseRun) : History × Inbox × Prog requests Exit :=
  play (steer allowed whileExecuting) 10 { clock := 1 } (releaseWorkflow default .stored input)

/-- The first of two services is deployed, and the second one is cancelled. -/
theorem cancel_stops_later_work_second_service :
    ∃ plan before after middle last stopped run,
      Plans catalog ["web", "api"] plan ∧
      Runs (mailbox fun _ => True) { clock := 1 }
        (rehearsal ["web", "api"] plan) before middle stopped ∧
      CancelDelivered before middle ∧ iterations before = 1 ∧
      Runs (mailbox fun _ => True) middle stopped after last (.pure (.ok run)) ∧
      ∃ step, run.steps[1]? = some step ∧ step.status = .cancelled := by
  have evaluated : rehearse catalog ["web", "api"] (fun plan =>
      let input := runOf ["web", "api"] plan
      let first := interrupted input
      let second := play (steer allowed whileExecuting) 30 first.2.1 first.2.2
      (accepted (Inbox.ready (fun _ _ => true) fun _ => true) (steer allowed whileExecuting) 10
          { clock := 1 } (releaseWorkflow default .stored input) &&
        accepted (Inbox.ready (fun _ _ => true) fun _ => true) (steer allowed whileExecuting) 30
          first.2.1 first.2.2,
        [first.2.1.cancels.length, iterations first.1], statuses input,
        ended statuses second.2.2)) =
          .ok (true, [1, 1], [.pending, .pending], some [.succeeded, .cancelled]) := by
    decide +kernel
  obtain ⟨plan, plans, outcome⟩ := exists_of_rehearse evaluated
  simp only [Prod.mk.injEq, Bool.and_eq_true, List.cons.injEq] at outcome
  obtain ⟨⟨ready, still⟩, ⟨queued, count, -⟩, pending, returned⟩ := outcome
  obtain ⟨run, returned, -⟩ := exists_of_ended returned
  have passes : ∀ eventType inbox, Inbox.Passes Named inbox (whileExecuting eventType inbox) :=
    passes_upon (fun inbox => .single (.cancel operator named_operator)) _
  have ran : Runs (mailbox fun _ => True) _ _ (interrupted _).1 (interrupted _).2.1
      (interrupted _).2.2 :=
    runs_steer passes (fun _ _ _ => trivial) (fun _ _ => trivial) ready
  generalize interrupted (runOf ["web", "api"] plan) = first at *
  have second : Runs (mailbox fun _ => True) _ _ _ _ _ :=
    runs_steer passes (fun _ _ _ => trivial) (fun _ _ => trivial) still
  rw [returned] at second
  have delivered : CancelDelivered first.1 first.2.1 :=
    Or.inl (List.ne_nil_of_length_pos (by rw [queued]; decide))
  obtain ⟨original, found, status⟩ : ∃ original,
      (runOf ["web", "api"] plan).steps[1]? = some original ∧ original.status = .pending := by
    have second := congrArg (fun list => list[1]?) pending
    simpa [statuses] using second
  have consistent : Inbox.Consistent { clock := 1 } := ⟨by simp, by simp, by simp⟩
  exact ⟨plan, _, _, _, _, _, run, plans, ran, delivered, count, second,
    (cancel_stops_later_work consistent ran delivered second).2 run rfl 1 original
      (by rw [count]) found status⟩

end Themisy.Workflow.Release
