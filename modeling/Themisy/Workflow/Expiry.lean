import Themisy.Workflow.Decisions
import Themisy.Workflow.Mailbox

/-!
# Approvals and their expiry

The timer of the approval wait is the last case of its selector, so a signal which
waits in the channel is preferred to it however late it is. An approval is granted in
time as long as no approving signal waits once the timer has elapsed.
-/

namespace Themisy.Workflow.Release

open Domain Interaction Planning

/-- A signal which approves a pending approval is selected only before the deadline. -/
def Punctual (deadline : Time) (inbox : Inbox) : Prop :=
  ∀ signal ∈ inbox.approvals.head?, ∀ stored ∈ inbox.stored, ∀ waiting ∈ approvals stored,
    Approving stored.requestedBy waiting signal → inbox.clock < deadline

/-- The machine on which the approval wait selects only from some inboxes. -/
def temporal (selects : Time → Inbox → Prop) : Machine requests :=
  Inbox.machine { admits := fun _ => True, selects, pauses := fun _ => True }

section Runs

variable {assumed : Assumptions} {inbox next : Inbox}

variable {op : Op} {answer : op.Res} {deadline : Time} {received : Bool}

theorem stored_of_passes (passes : Inbox.Passes assumed.admits inbox next) :
    next.stored = inbox.stored := by
  induction passes with
  | refl => rfl
  | tail _ arrives ih =>
    rw [← ih]
    cases arrives <;> rfl

theorem chooseApproval_approval {signal : ApprovalSignal}
    (chosen : inbox.chooseApproval deadline = some (.approval signal, next)) :
    inbox.approvals.head? = some signal ∧ next.clock = inbox.clock := by
  unfold Inbox.chooseApproval at chosen
  split at chosen
  · next found =>
    cases chosen
    exact ⟨by rw [found]; rfl, rfl⟩
  · cases chosen
  · cases chosen
  · split at chosen
    · cases chosen
    · cases chosen

theorem stored_receiveCancel (answered : inbox.receiveCancel = (received, next)) :
    next.stored = inbox.stored := by
  unfold Inbox.receiveCancel at answered
  split at answered <;> cases answered <;> rfl

theorem stored_receivePause (answered : inbox.receivePause = (received, next)) :
    next.stored = inbox.stored := by
  unfold Inbox.receivePause at answered
  split at answered <;> cases answered <;> rfl

theorem stored_chooseApproval {event : ApprovalEvent}
    (chosen : inbox.chooseApproval deadline = some (event, next)) : next.stored = inbox.stored := by
  unfold Inbox.chooseApproval at chosen
  split at chosen
  · cases chosen; rfl
  · cases chosen; rfl
  · cases chosen; rfl
  · split at chosen
    · cases chosen; rfl
    · cases chosen

theorem stored_chooseResume {event : ResumeEvent}
    (chosen : inbox.chooseResume = some (event, next)) : next.stored = inbox.stored := by
  unfold Inbox.chooseResume at chosen
  split at chosen
  · cases chosen; rfl
  · cases chosen; rfl
  · cases chosen

/-- The inbox holds the run which was persisted last. -/
def Knows (inbox : Inbox) (history : History) : Prop :=
  ∀ stored, lastPersisted history = some stored → inbox.stored = some stored

theorem Knows.answered {history : History} (knows : Knows inbox history)
    (answers : Inbox.Answers assumed inbox op answer next) :
    Knows next (history ++ [⟨op, answer⟩]) := by
  have kept : ∀ {event : Event requests}, persistedRun event = none → next.stored = inbox.stored →
      Knows next (history ++ [event]) := by
    intro event other same stored last
    rw [lastPersisted_append_none other] at last
    rw [same, knows stored last]
  cases op with
  | persistRun input =>
    cases answer with
    | error failure => exact kept rfl (stored_of_passes answers)
    | ok run =>
      obtain ⟨-, later, -, rfl⟩ := answers
      intro stored last
      rw [lastPersisted_append] at last
      exact last
  | now =>
    obtain ⟨-, rfl⟩ := answers
    exact kept rfl rfl
  | receiveCancel => exact kept rfl (stored_receiveCancel answers)
  | receivePause => exact kept rfl (stored_receivePause answers.1)
  | selectApproval timeout =>
    obtain ⟨woken, wakes, -, chosen, -⟩ := answers
    exact kept rfl ((stored_chooseApproval chosen).trans (stored_of_passes wakes.1))
  | selectResume =>
    obtain ⟨woken, wakes, chosen⟩ := answers
    exact kept rfl ((stored_chooseResume chosen).trans (stored_of_passes wakes.1))
  | sleep duration => exact kept rfl (stored_of_passes answers.1)
  | _ => exact kept rfl (stored_of_passes answers)

theorem knows_of_runs {start last : Inbox} {program rest : Prog requests Exit}
    {events : History}
    (run : Runs (Inbox.machine assumed) start program events last rest) : Knows last events := by
  have initial : Knows start [] := by
    intro stored impossible
    cases impossible
  exact run.invariant Knows (fun _ _ _ _ _ knows answers => knows.answered answers) initial

end Runs

/--
When no approving signal is selected once the timer of its approval has elapsed,
every approval which becomes approved is decided before it expires, whatever run
the workflow starts with and whichever signals arrive.
-/
theorem approved_before_expiry {digest : Digest} {order : StepOrder}
    {input : ReleaseRun} {start last : Inbox} {events : History}
    {rest : Prog requests Exit}
    (run : Runs (temporal Punctual) start (releaseWorkflow digest order input) events last rest)
    {persist : PersistInput} {next : _ → Prog requests Exit}
    (requested : rest.head = .request (.persistRun persist) next) :
    ∀ approval ∈ approvals persist.run, approval.status = .approved →
      approval ∈ approvals input ∨
        ∃ decidedAt, approval.decidedAt = some decidedAt ∧ decidedAt < approval.expiresAt := by
  obtain ⟨location, reached, shown⟩ :=
    exists_reaches_of_shows Inbox.legal_of_answers run (.persists requested)
  intro approval member approved
  refine (reached.vouched _ shown approval member approved).imp_right ?_
  rintro ⟨before, asked, timeout, signal, decided, after, stored, waiting, rfl, persisted,
    waitingMem, approving, expiry, rfl⟩
  refine ⟨decided, rfl, ?_⟩
  obtain ⟨middle, stopped, first, second⟩ := run.cut
  cases second with
  | step _ asks second =>
    cases second with
    | step _ selects second =>
      cases second with
      | step _ decides _ =>
        obtain ⟨rfl, rfl⟩ := asks
        obtain ⟨woken, wakes, punctual, chosen, -⟩ := selects
        obtain ⟨rfl, -⟩ := decides
        obtain ⟨front, clock⟩ := chooseApproval_approval chosen
        have known : woken.stored = some stored := by
          rw [stored_of_passes wakes.1, knows_of_runs first stored persisted]
        rw [clock]
        refine lt_of_lt_of_eq (punctual signal front stored known waiting waitingMem approving) ?_
        exact expiry.symm

/-- The approval of the service `api`. -/
def apiApproval : ApprovalSignal where
  approvalID := approvalID default "run" "api"
  actor := "reviewer"
  roles := ["operator"]
  action := "approve"

/-- The approval arrives. -/
def withApproval (inbox : Inbox) : Inbox :=
  { inbox with approvals := inbox.approvals ++ [apiApproval] }

/-- The policy requires an approval of an operator. -/
def review (script : String → Inbox → Inbox) : Strategy requests Inbox :=
  steer { decision := .requireApproval, requiredRoles := ["operator"] } script

/-- The approvals which a program is about to persist as approved, with their two times. -/
def approvedTimes (program : Prog requests Exit) : List (Time × Option Time) :=
  match program.head with
  | .request (.persistRun input) _ =>
    ((approvals input.run).filter fun approval => approval.status = .approved).map
      fun approval => (approval.expiresAt, approval.decidedAt)
  | _ => []

theorem exists_of_approvedTimes {program : Prog requests Exit} {expiresAt : Time}
    {decidedAt : Option Time} (found : approvedTimes program = [(expiresAt, decidedAt)]) :
    ∃ input next approval, program.head = .request (.persistRun input) next ∧
      approval ∈ approvals input.run ∧ approval.status = .approved ∧
      approval.expiresAt = expiresAt ∧ approval.decidedAt = decidedAt := by
  unfold approvedTimes at found
  split at found
  · next input next requested =>
    obtain ⟨approval, member, times⟩ := List.mem_map.mp (found ▸ List.mem_singleton_self _)
    obtain ⟨carried, approved⟩ := List.mem_filter.mp member
    cases times
    exact ⟨input, next, approval, requested, carried, of_decide_eq_true approved, rfl, rfl⟩
  · cases found

/-- The approval is given as soon as it is requested. -/
def approvedAtOnce : String → Inbox → Inbox :=
  upon "approval.requested" withApproval

/-- The run is paused, the approval is given, a week passes, and the run is resumed. -/
def pausedForAWeek (eventType : String) (inbox : Inbox) : Inbox :=
  upon "release.paused" (fun inbox =>
      { withApproval inbox with clock := inbox.clock + 7 * approvalLifetime }.withResume) eventType
    (upon "approval.requested" Inbox.withPause eventType inbox)

theorem passes_pausedForAWeek (eventType : String) (inbox : Inbox) :
    Inbox.Passes (fun _ => True) inbox (pausedForAWeek eventType inbox) := by
  refine (passes_upon (fun inbox => .single (.pause operator trivial)) _ _ _).trans
    (passes_upon (fun inbox => ?_) _ _ _)
  have later : inbox.clock ≤ inbox.clock + 7 * approvalLifetime := by
    simp [approvalLifetime, second]
  exact .head (.approval apiApproval) (.head (.time _ later) (.single (.resume operator trivial)))

/-- An approval which arrives while the run is paused is granted six days after its expiry. -/
theorem approved_after_expiry :
    ∃ plan events last rest persist next approval decidedAt,
      Plans catalog ["api"] plan ∧
      Runs (temporal fun _ _ => True) { clock := 1 } (rehearsal ["api"] plan) events last rest ∧
      approvals (runOf ["api"] plan) = [] ∧
      rest.head = .request (.persistRun persist) next ∧ approval ∈ approvals persist.run ∧
      approval.status = .approved ∧ approval.decidedAt = some decidedAt ∧
      approval.expiresAt + 6 * approvalLifetime = decidedAt := by
  have evaluated : rehearse catalog ["api"] (fun plan =>
      let release := rehearsal ["api"] plan
      (accepted (Inbox.ready (fun _ _ => true) fun _ => true) (review pausedForAWeek) 19
          { clock := 1 } release,
        approvals (runOf ["api"] plan),
        approvedTimes (play (review pausedForAWeek) 19 { clock := 1 } release).2.2)) =
          .ok (true, [], [(1 + approvalLifetime, some (1 + 7 * approvalLifetime))]) := by
    decide +kernel
  obtain ⟨plan, plans, seen⟩ := exists_of_rehearse evaluated
  obtain ⟨ready, none, found⟩ := by simpa only [Prod.mk.injEq] using seen
  have run : Runs (temporal fun _ _ => True) { clock := 1 } _ _ _ _ :=
    runs_steer passes_pausedForAWeek (fun _ _ _ => trivial) (fun _ _ => trivial) ready
  obtain ⟨persist, next, approval, requested, member, approved, expiresAt, decidedAt⟩ :=
    exists_of_approvedTimes found
  refine ⟨plan, _, _, _, persist, next, approval, _, plans, run, none, requested, member, approved,
    decidedAt, ?_⟩
  rw [expiresAt]
  decide

/-- An approval which arrives while the workflow waits for it is granted in time. -/
theorem approved_before_expiry_reviewed :
    ∃ plan events last rest persist next approval,
      Plans catalog ["api"] plan ∧
      Runs (temporal Punctual) { clock := 1 } (rehearsal ["api"] plan) events last rest ∧
      rest.head = .request (.persistRun persist) next ∧ approval ∈ approvals persist.run ∧
      approval.status = .approved ∧
      ∃ decidedAt, approval.decidedAt = some decidedAt ∧ decidedAt < approval.expiresAt := by
  have evaluated : rehearse catalog ["api"] (fun plan =>
      let release := rehearsal ["api"] plan
      (accepted (Inbox.ready (fun deadline inbox => decide (inbox.clock < deadline)) fun _ => true)
          (review approvedAtOnce) 12 { clock := 1 } release,
        approvals (runOf ["api"] plan),
        approvedTimes (play (review approvedAtOnce) 12 { clock := 1 } release).2.2)) =
          .ok (true, [], [(1 + approvalLifetime, some 1)]) := by
    decide +kernel
  obtain ⟨plan, plans, seen⟩ := exists_of_rehearse evaluated
  obtain ⟨ready, none, found⟩ := by simpa only [Prod.mk.injEq] using seen
  have punctual : ∀ (deadline : Time) (inbox : Inbox), decide (inbox.clock < deadline) = true →
      Punctual deadline inbox :=
    fun deadline inbox early _ _ _ _ _ _ _ => of_decide_eq_true early
  have run : Runs (temporal Punctual) { clock := 1 } _ _ _ _ :=
    runs_steer (passes_upon (fun inbox => .single (.approval apiApproval)) _) punctual
      (fun _ _ => trivial) ready
  obtain ⟨persist, next, approval, requested, member, approved, -⟩ := exists_of_approvedTimes found
  have decided := approved_before_expiry run requested approval member approved
  rw [none] at decided
  exact ⟨plan, _, _, _, persist, next, approval, plans, run, requested, member, approved,
    decided.resolve_left List.not_mem_nil⟩

end Themisy.Workflow.Release
