import Themisy.Workflow.Simulation

/-!
# Decided approvals

Whatever run the workflow starts with, an approval which it persists as approved
either was so from the start, or was decided by a signal: the approval wait has taken
a signal which approves the pending approval, and has read the clock right after that.
-/

namespace Themisy.Workflow.Release

open Domain Interaction

def approvals (run : ReleaseRun) : List Approval :=
  run.steps.filterMap ReleaseStep.approval

/-- The signal approves the waiting approval. -/
structure Approving (requestedBy : String) (waiting : Approval) (signal : ApprovalSignal) :
    Prop where
  pending : waiting.status = .pending
  accepted : Accepted requestedBy waiting signal
  action : signal.effectiveAction = "approve"

/--
The approval was decided by a signal. The timer of the selection runs until the
approval expires, and the clock is read before and after the selection.
-/
def Taken (history : History) (approval : Approval) : Prop :=
  ∃ before asked timeout signal decided after stored waiting,
    history = before ++ ⟨.now, asked⟩ :: ⟨.selectApproval timeout, .approval signal⟩ ::
      ⟨.now, decided⟩ :: after ∧
    lastPersisted before = some stored ∧ waiting ∈ approvals stored ∧
    Approving stored.requestedBy waiting signal ∧ waiting.expiresAt = asked + timeout ∧
    approval = decidedApproval signal decided .approved waiting

/-- The approved approvals of a run are old or were decided. -/
def Vouched (input : ReleaseRun) (history : History) (run : ReleaseRun) : Prop :=
  ∀ approval ∈ approvals run, approval.status = .approved →
    approval ∈ approvals input ∨ Taken history approval

variable {approval : Approval} {input run : ReleaseRun} {history : History} {index : ℕ}

theorem mem_approvals {step : ReleaseStep} (found : run.steps[index]? = some step)
    (carried : step.approval = some approval) : approval ∈ approvals run :=
  List.mem_filterMap.mpr ⟨step, List.mem_of_getElem? found, carried⟩

theorem mem_approvals_setStep {change : ReleaseStep → ReleaseStep}
    (member : approval ∈ approvals (setStep run index change)) :
    approval ∈ approvals run ∨
      ∃ step, run.steps[index]? = some step ∧ (change step).approval = some approval := by
  obtain ⟨step, stepMem, carried⟩ := List.mem_filterMap.mp member
  obtain ⟨place, found⟩ := List.mem_iff_getElem?.mp stepMem
  rw [setStep, List.getElem?_modify] at found
  obtain ⟨original, originalAt, rfl⟩ := Option.map_eq_some_iff.mp found
  split at carried
  · next same =>
    subst same
    exact Or.inr ⟨original, originalAt, carried⟩
  · exact Or.inl (mem_approvals originalAt carried)

namespace Vouched

variable {next : ReleaseRun}

section

variable (vouched : Vouched input history run)

include vouched

theorem congr (same : approvalColumn next = approvalColumn run) : Vouched input history next := by
  have column : ∀ run, approvals run = (approvalColumn run).filterMap id := by
    intro run
    simp [approvals, approvalColumn]
  unfold Vouched
  rw [column, same, ← column]
  exact vouched

theorem append (events : History) :
    Vouched input (history ++ events) run := by
  intro approval member approved
  refine (vouched approval member approved).imp_right ?_
  rintro ⟨before, asked, timeout, signal, decided, after, stored, waiting, rfl, facts⟩
  exact ⟨before, asked, timeout, signal, decided, after ++ events, stored, waiting, by simp, facts⟩

theorem setStep {change : ReleaseStep → ReleaseStep}
    (taken : ∀ step approval, run.steps[index]? = some step →
      (change step).approval = some approval → approval.status = .approved →
      Taken history approval) :
    Vouched input history (setStep run index change) := by
  intro approval member approved
  rcases mem_approvals_setStep member with old | ⟨step, found, carried⟩
  · exact vouched approval old approved
  · exact Or.inr (taken step approval found carried approved)

theorem blockRun {change : Approval → Approval}
    (refused : ∀ approval, (change approval).status ≠ .approved) :
    Vouched input history (blockRun run index change) := by
  have decided :
      Vouched input history (Release.setStep run index (decideStep change .blocked)) := by
    refine vouched.setStep fun step approval _ carried approved => ?_
    obtain ⟨original, -, rfl⟩ := Option.map_eq_some_iff.mp carried
    exact absurd approved (refused original)
  exact decided.congr (approvalColumn_cancelSteps _ _ _)

end

end Vouched

def PendingAt (run : ReleaseRun) (index : ℕ) : Prop :=
  ∀ step approval, run.steps[index]? = some step → step.approval = some approval →
    approval.status = .pending

/-- The approval which a persisted run waits for is pending. -/
def Goal.Awaits (run : ReleaseRun) : Goal → Prop
  | pause .approval index | resume .approval index | await index => PendingAt run index
  | _ => True

/-- What is known at a location of the approval it waits for. -/
def Location.Awaits (history : History) : Location → Prop
  | stamp goal run | store goal run | completing goal run _ _ => goal.Awaits run
  | paused .approval index run => PendingAt run index
  | waiting index run => PendingAt run index ∧ lastPersisted history = some run
  | selecting index run approval now => PendingAt run index ∧
      (∃ step, run.steps[index]? = some step ∧ step.approval = some approval) ∧
      ∃ before, history = before ++ [⟨.now, now⟩] ∧ lastPersisted before = some run
  | deciding index run signal => signal.effectiveAction = "approve" →
      ∀ step waiting decided, run.steps[index]? = some step → step.approval = some waiting →
        Taken (history ++ [⟨.now, decided⟩]) (decidedApproval signal decided .approved waiting)
  | _ => True

variable {digest : Digest} {order : StepOrder} {total : ℕ} {location next : Location}
  {event : Event requests}

theorem Location.Opening.awaits (opening : location.Opening) : location.Awaits history := by
  cases opening <;> trivial

variable {goal : Goal} {now : Time}

theorem Stores.awaits (stores : Stores order total goal run location) (awaits : goal.Awaits run)
    (last : lastPersisted history = some run) : location.Awaits history := by
  cases stores with
  | begin | succeed => exact opening_enter.awaits
  | resumePoll _ begins => exact begins.opening.awaits
  | pause wait =>
    cases wait with
    | poll => trivial
    | approval => exact awaits
  | await | resumeApproval => exact ⟨awaits, last⟩
  | _ => trivial

theorem pendingAt_awaitingRun (pending : approval.status = .pending) :
    PendingAt (awaitingRun run index approval now) index := by
  intro step other found carried
  simp only [awaitingRun, setStep, List.getElem?_modify_eq] at found
  obtain ⟨original, -, rfl⟩ := Option.map_eq_some_iff.mp found
  cases carried
  exact pending

theorem taken_of_accepted {step : ReleaseStep} {signal : ApprovalSignal}
    (last : lastPersisted history = some run) (pending : PendingAt run index)
    (found : run.steps[index]? = some step) (carried : step.approval = some approval)
    (accepted : Accepted run.requestedBy approval signal)
    (action : signal.effectiveAction = "approve") (decided : Time) :
    Taken (history ++ [⟨.now, now⟩] ++
      [⟨.selectApproval (approval.expiresAt - now), .approval signal⟩] ++ [⟨.now, decided⟩])
      (decidedApproval signal decided .approved approval) := by
  have deadline : approval.expiresAt = now + (approval.expiresAt - now) := by
    rw [Int.add_comm, Int.sub_add_cancel]
  exact ⟨history, now, approval.expiresAt - now, signal, decided, [], run, approval, by simp, last,
    mem_approvals found carried, ⟨pending step approval found carried, accepted, action⟩, deadline,
    rfl⟩

theorem Moves.awaits (moves : Moves digest order total location event next)
    (awaits : location.Awaits history) : next.Awaits (history ++ [event]) := by
  cases moves with
  | stamp | completed => exact awaits
  | stored _ _ stores => exact stores.awaits awaits (lastPersisted_append _ _)
  | begins begins => exact begins.opening.awaits
  | @resumed wait | @cancelIgnored wait | @resumeIgnored wait =>
    cases wait with
    | poll => trivial
    | approval => exact awaits
  | selectPaused => exact awaits.1
  | requested => exact pendingAt_awaitingRun rfl
  | waits now found carried => exact ⟨awaits.1, ⟨_, found, carried⟩, _, rfl, awaits.2⟩
  | selectAccepted accepted =>
    obtain ⟨pending, ⟨step, found, carried⟩, before, rfl, last⟩ := awaits
    intro action other waiting decided otherFound otherCarried
    obtain rfl : step = other := Option.some.inj (found.symm.trans otherFound)
    obtain rfl := Option.some.inj (carried.symm.trans otherCarried)
    exact taken_of_accepted last pending found carried accepted action decided
  | selectIgnored =>
    obtain ⟨pending, -, before, rfl, last⟩ := awaits
    exact ⟨pending, by
      rw [lastPersisted_append_none rfl, lastPersisted_append_none rfl, last]⟩
  | _ => trivial

theorem approvalColumn_enter :
    ∀ later ∈ (enter total index run).run, approvalColumn later = approvalColumn run := by
  unfold enter
  split
  · rintro later ⟨⟩
    rfl
  · rintro later ⟨⟩
    rfl

theorem Begins.approvalColumn (begins : Begins total index run location) :
    ∀ later ∈ location.run, approvalColumn later = approvalColumn run := by
  cases begins with
  | done => exact approvalColumn_enter
  | unmet | evaluate | missing => simp [Location.run, Except.toOption]

theorem Stores.approvalColumn (stores : Stores order total goal run location) :
    ∀ later ∈ location.run, approvalColumn later = approvalColumn run := by
  cases stores with
  | begin assigned =>
    intro later member
    rw [approvalColumn_enter later member, approvalColumn_assignWaves run assigned]
  | succeed => exact approvalColumn_enter
  | resumePoll _ begins => exact begins.approvalColumn
  | _ => simp [Location.run, Except.toOption]

/-- Only the approval wait changes the approvals of a run. -/
theorem Moves.vouched (moves : Moves digest order total location event next)
    (awaits : location.Awaits history)
    (vouched : ∀ run ∈ location.run, Vouched input history run) :
    ∀ later ∈ next.run, Vouched input (history ++ [event]) later := by
  have keeps : ∀ run ∈ location.run, ∀ later, Release.approvalColumn later =
      Release.approvalColumn run → Vouched input (history ++ [event]) later :=
    fun run member later same => ((vouched run member).append _).congr same
  cases moves with
  | stored _ _ stores =>
    exact fun later member => keeps _ rfl later (stores.approvalColumn later member)
  | begins begins =>
    exact fun later member => keeps _ rfl later (begins.approvalColumn later member)
  | requested =>
    rintro later ⟨⟩
    refine ((vouched _ rfl).append _).setStep fun step approval _ carried approved => ?_
    cases carried
    cases approved
  | selectExpired =>
    rintro later ⟨⟩
    exact ((vouched _ rfl).append _).blockRun (by simp)
  | revoked | denied =>
    rintro later ⟨⟩
    exact ((vouched _ rfl).append _).blockRun (by simp [decidedApproval])
  | approved decidedAt action =>
    rintro later ⟨⟩
    refine ((vouched _ rfl).append _).setStep fun step approval found carried _ => ?_
    obtain ⟨waiting, waitingEq, rfl⟩ := Option.map_eq_some_iff.mp carried
    exact awaits action step waiting decidedAt found waitingEq
  | storeFailed | evaluateFailed | requestMissing | waitMissing | acquireFailed | completeFailed
  | observeFailed | rollbackObserveFailed => simp [Location.run, Except.toOption]
  | stamp | pollPaused | selectPaused | resumed =>
    rintro later ⟨⟩
    exact keeps _ rfl _ rfl
  | _ =>
    rintro later ⟨⟩
    exact keeps _ rfl _ (by simp)

theorem Reaches.awaits (reached : Reaches digest order total input history location) :
    location.Awaits history := by
  induction reached with
  | start => trivial
  | move _ moves ih => exact moves.awaits ih

theorem Reaches.vouched (reached : Reaches digest order total input history location) :
    ∀ run ∈ location.run, Vouched input history run := by
  induction reached with
  | start =>
    rintro run ⟨⟩ approval member _
    exact Or.inl member
  | move reached moves ih => exact moves.vouched reached.awaits ih

end Themisy.Workflow.Release
