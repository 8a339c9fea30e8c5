import Themisy.Application.ControlPlane
import Themisy.Workflow.Cancellation
import Themisy.Workflow.Dispatch

/-!
# Open approvals

A step which waits for an approval is the only one whose approval is pending, and
every decision of the wait closes it: an approval, a denial, a revocation and the
timer. A cancel signal ends the wait without a decision, be the run paused or not,
and the approval of the step stays pending in the run which the workflow returns.
-/

namespace Themisy.Workflow.Release

open Domain Interaction Planning

def isOpen (step : ReleaseStep) : Bool :=
  step.approval.any fun approval => approval.status = .pending

def openings (run : ReleaseRun) : List Bool :=
  run.steps.map isOpen

/-- The approvals of a run are pending at the given step, and at no other. -/
def OpensAt (run : ReleaseRun) (opened : Option ℕ) : Prop :=
  ∀ place, (openings run)[place]? = some true ↔ opened = some place

section Updates

variable {run : ReleaseRun} {index : ℕ} {opened : Option ℕ}

variable {later : ReleaseRun} {change : Approval → Approval}

theorem openings_congr (same : approvalColumn later = approvalColumn run) :
    openings later = openings run := by
  have column : ∀ run, openings run = (approvalColumn run).map
      fun approval => approval.any fun approval => approval.status = .pending := by
    intro run
    simp [openings, approvalColumn, isOpen, Function.comp_def]
  rw [column, same, ← column]

theorem OpensAt.congr (opens : OpensAt run opened)
    (same : approvalColumn later = approvalColumn run) : OpensAt later opened := by
  unfold OpensAt
  rw [openings_congr same]
  exact opens

theorem opensAt_awaitingRun {step : ReleaseStep} {approval : Approval} {now : Time}
    (closed : OpensAt run none) (found : run.steps[index]? = some step)
    (pending : approval.status = .pending) :
    OpensAt (awaitingRun run index approval now) (some index) := by
  intro place
  have before := closed place
  simp only [openings, List.getElem?_map, reduceCtorEq, iff_false] at before
  simp only [openings, awaitingRun, setStep, List.getElem?_map, List.getElem?_modify,
    Option.some.injEq]
  by_cases here : index = place
  · subst here
    simp [found, isOpen, pending]
  · simpa [here] using before

theorem opensAt_decideStep {status : StepStatus} (opens : OpensAt run (some index))
    (decided : ∀ approval, (change approval).status ≠ .pending) :
    OpensAt (setStep run index (decideStep change status)) none := by
  intro place
  have before := opens place
  simp only [openings, List.getElem?_map, Option.some.injEq] at before
  simp only [openings, setStep, List.getElem?_map, List.getElem?_modify, reduceCtorEq, iff_false]
  by_cases here : index = place
  · subst here
    cases run.steps[index]? with
    | none => simp
    | some step => cases approval : step.approval <;> simp [isOpen, decideStep, approval, decided]
  · simpa [here] using before

theorem opensAt_blockRun (opens : OpensAt run (some index))
    (decided : ∀ approval, (change approval).status ≠ .pending) :
    OpensAt (blockRun run index change) none :=
  (opensAt_decideStep opens decided).congr (approvalColumn_cancelSteps _ _ _)

theorem mem_open_iff : (∃ step ∈ run.steps, isOpen step = true) ↔
    ∃ place : ℕ, (openings run)[place]? = some true := by
  simp only [openings, ← List.mem_iff_getElem?, List.mem_map]

def HasOpen (run : ReleaseRun) : Prop :=
  ∃ step ∈ run.steps, isOpen step = true

theorem OpensAt.hasOpen_iff (opens : OpensAt run opened) : HasOpen run ↔ opened.isSome := by
  rw [HasOpen, mem_open_iff, Option.isSome_iff_exists]
  exact exists_congr opens

end Updates

/-- A cancel signal is taken while the run waits for an approval, paused or not. -/
def CancelsWait (history : History) : Event requests → Prop
  | ⟨.selectApproval _, .cancel signal⟩ => signal.actor ≠ ""
  | ⟨.selectResume, .cancel signal⟩ => signal.actor ≠ "" ∧ ∃ stored,
      lastPersisted history = some stored ∧ stored.pausedFrom = some .waitingApproval
  | _ => False

/-- The approval wait of a run was cancelled. -/
def WaitCancelled (history : History) : Prop :=
  ∃ before event after, history = before ++ event :: after ∧ CancelsWait before event

section Cancelled

variable {digest : Digest} {order : StepOrder} {total index : ℕ}
  {input run : ReleaseRun} {location next : Location} {history : History}
  {event : Event requests}

theorem not_waitCancelled_nil : ¬WaitCancelled [] := by
  rintro ⟨before, event, after, split, -⟩
  simp at split

theorem waitCancelled_append :
    WaitCancelled (history ++ [event]) ↔ WaitCancelled history ∨ CancelsWait history event := by
  constructor
  · rintro ⟨before, taken, after, split, cancels⟩
    rcases List.eq_nil_or_concat after with rfl | ⟨rest, last, rfl⟩
    · obtain ⟨rfl, same⟩ := List.append_inj' split rfl
      cases same
      exact Or.inr cancels
    · rw [List.concat_eq_append, ← List.cons_append, ← List.append_assoc] at split
      obtain ⟨rfl, -⟩ := List.append_inj' split rfl
      exact Or.inl ⟨before, taken, rest, rfl, cancels⟩
  · rintro (⟨before, taken, after, rfl, cancels⟩ | cancels)
    · exact ⟨before, taken, after ++ [event], by simp, cancels⟩
    · exact ⟨history, event, [], rfl, cancels⟩

/-- The step whose approval is pending while a run is paused. -/
def Wait.opened (index : ℕ) : Wait → Option ℕ
  | poll => none
  | approval => some index

/-- The step whose approval is pending when a run is persisted. -/
def Goal.opened : Goal → Option ℕ
  | pause wait index | resume wait index => wait.opened index
  | await index => some index
  | _ => none

/-- The step whose approval is pending. -/
def Location.opened : Location → Option ℕ
  | waiting index _ | selecting index _ _ _ | deciding index _ _ => some index
  | _ => none

/-- When a release ends, an approval is pending only if its wait was cancelled. -/
def Goal.Opens (history : History) (run : ReleaseRun) : Goal → Prop
  | finish => HasOpen run ↔ WaitCancelled history
  | goal => ¬WaitCancelled history ∧ OpensAt run goal.opened

/-- What is known at a location of the open approvals. -/
def Location.Opens (history : History) : Location → Prop
  | stamp goal run | store goal run | completing goal run _ _ => goal.Opens history run
  | paused wait index run => ¬WaitCancelled history ∧ OpensAt run (wait.opened index) ∧
      lastPersisted history = some run
  | finished (.ok run) => HasOpen run ↔ WaitCancelled history
  | finished (.error _) => True
  | location => ¬WaitCancelled history ∧ ∀ run ∈ location.run, OpensAt run location.opened

theorem Goal.Opens.congr {goal : Goal} {later : ReleaseRun} {longer : History}
    (opens : goal.Opens history run) (same : approvalColumn later = approvalColumn run)
    (cancelled : WaitCancelled longer ↔ WaitCancelled history) : goal.Opens longer later := by
  cases goal with
  | finish =>
    change HasOpen later ↔ WaitCancelled longer
    rw [cancelled, HasOpen, mem_open_iff, openings_congr same, ← mem_open_iff]
    exact opens
  | _ => exact ⟨fun again => opens.1 (cancelled.mp again), opens.2.congr same⟩

theorem opens_finish (quiet : ¬WaitCancelled history) (closed : OpensAt run none) :
    HasOpen run ↔ WaitCancelled history := by
  rw [closed.hasOpen_iff]
  simp [quiet]

theorem opens_enter (quiet : ¬WaitCancelled history) (closed : OpensAt run none) :
    (enter total index run).Opens history := by
  unfold enter
  split
  · refine ⟨quiet, ?_⟩
    rintro _ ⟨⟩
    exact closed
  · exact opens_finish quiet closed

theorem Begins.opens (begins : Begins total index run location) (quiet : ¬WaitCancelled history)
    (closed : OpensAt run none) : location.Opens history := by
  cases begins with
  | done => exact opens_enter quiet closed
  | unmet => exact opens_finish quiet (closed.congr (approvalColumn_stoppedRun _ _ _ _ _))
  | evaluate =>
    refine ⟨quiet, ?_⟩
    rintro _ ⟨⟩
    exact closed
  | missing => trivial

theorem Stores.opens {goal : Goal} (stores : Stores order total goal run location)
    (opens : goal.Opens history run) (labelled : goal.Labelled run)
    (last : lastPersisted history = some run) : location.Opens history := by
  cases stores with
  | begin assigned =>
    exact opens_enter opens.1 (opens.2.congr (approvalColumn_assignWaves _ assigned))
  | succeed => exact opens_enter opens.1 opens.2
  | resumePoll _ begins => exact begins.opens opens.1 opens.2
  | resumeCancelled cancelled => exact absurd cancelled labelled.not_cancelled
  | deny => exact opens_finish opens.1 (opens.2.congr (approvalColumn_stoppedRun _ _ _ _ _))
  | pause => exact ⟨opens.1, opens.2, last⟩
  | finish => exact opens
  | beginFailed | missing => trivial
  | _ =>
    refine ⟨opens.1, ?_⟩
    rintro _ ⟨⟩
    exact opens.2

theorem Wait.isSome_opened_iff {wait : Wait} (pausedFrom : run.pausedFrom = some wait.runStatus)
    (last : lastPersisted history = some run) :
    (wait.opened index).isSome ↔ ∃ stored, lastPersisted history = some stored ∧
      stored.pausedFrom = some .waitingApproval := by
  cases wait <;> simp [Wait.opened, last, pausedFrom, Wait.runStatus]

/-- Every transition closes the approval which it decides, unless it cancels the wait. -/
theorem Moves.opens (moves : Moves digest order total location event next)
    (labelled : location.Labelled) (opens : location.Opens history) :
    next.Opens (history ++ [event]) := by
  have same : ¬CancelsWait history event →
      (WaitCancelled (history ++ [event]) ↔ WaitCancelled history) := by
    intro other
    rw [waitCancelled_append]
    exact or_iff_left other
  have quiet : ¬CancelsWait history event → ¬WaitCancelled history →
      ¬WaitCancelled (history ++ [event]) :=
    fun other before => (not_congr (same other)).mpr before
  cases moves with
  | stamp | completed => exact Goal.Opens.congr opens rfl (same id)
  | stored _ _ stores =>
    exact stores.opens (Goal.Opens.congr opens rfl (same id))
      (Goal.Labelled.congr labelled rfl rfl) (lastPersisted_append _ _)
  | begins begins => exact begins.opens (quiet id opens.1) (opens.2 _ rfl)
  -- the waits for signals
  | cancelled named =>
    obtain ⟨before, opened, last⟩ := opens
    change HasOpen _ ↔ _
    rw [waitCancelled_append, or_iff_right before,
      (opened.congr (approvalColumn_cancelledRun _ _)).hasOpen_iff,
      Wait.isSome_opened_iff labelled.2 last]
    exact (and_iff_right named).symm
  | selectCancelled named =>
    change HasOpen _ ↔ _
    rw [waitCancelled_append, ((opens.2 _ rfl).congr (approvalColumn_cancelledRun _ _)).hasOpen_iff]
    exact iff_of_true rfl (Or.inr named)
  | cancelIgnored anonymous =>
    obtain ⟨before, opened, last⟩ := opens
    exact ⟨quiet (fun cancels => cancels.1 anonymous) before, opened,
      (lastPersisted_append_none rfl).trans last⟩
  | resumeIgnored =>
    obtain ⟨before, opened, last⟩ := opens
    exact ⟨quiet id before, opened, (lastPersisted_append_none rfl).trans last⟩
  | resumed => exact ⟨quiet id opens.1, opens.2.1⟩
  | pollPaused | selectPaused => exact ⟨quiet id opens.1, (opens.2 _ rfl).congr rfl⟩
  | @selectIgnored _ _ _ _ event _ anonymous =>
    refine ⟨quiet (fun cancels => ?_) opens.1, ?_⟩
    · cases event with
      | cancel signal => exact cancels anonymous.1
      | approval | pause | expired => exact cancels
    · rintro _ ⟨⟩
      exact opens.2 _ rfl
  -- the decisions
  | requested _ _ found =>
    exact ⟨quiet id opens.1, opensAt_awaitingRun (opens.2 _ rfl) found rfl⟩
  | approved =>
    exact ⟨quiet id opens.1, opensAt_decideStep (opens.2 _ rfl) (by simp [decidedApproval])⟩
  | selectExpired =>
    exact opens_finish (quiet id opens.1) (opensAt_blockRun (opens.2 _ rfl) (by simp))
  | revoked | denied =>
    exact opens_finish (quiet id opens.1)
      (opensAt_blockRun (opens.2 _ rfl) (by simp [decidedApproval]))
  -- the statements which change no approval
  | pollCancelled | backpressured | deployFailed | verifyFailed | escalated | rollbackFailed
  | rollbackVerifyFailed | rollbackPassed | rollbackRejected =>
    exact opens_finish (quiet id opens.1) ((opens.2 _ rfl).congr (by simp))
  | evaluated | acquired | deployed | deployedUnverified | passed | rolls =>
    exact ⟨quiet id opens.1, (opens.2 _ rfl).congr (by simp)⟩
  | storeFailed | evaluateFailed | requestMissing | waitMissing | acquireFailed | completeFailed
  | observeFailed | rollbackObserveFailed => trivial
  | _ =>
    refine ⟨quiet id opens.1, ?_⟩
    rintro _ ⟨⟩
    exact (opens.2 _ rfl).congr (by simp)

theorem Reaches.opens (reached : Reaches digest order total input history location)
    (closed : ∀ step ∈ input.steps, step.approval = none) : location.Opens history := by
  induction reached with
  | start =>
    refine ⟨not_waitCancelled_nil, fun place => ?_⟩
    simp only [openings, List.getElem?_map, Goal.opened, reduceCtorEq, iff_false]
    intro found
    obtain ⟨step, here, opened⟩ := Option.map_eq_some_iff.mp found
    simp [isOpen, closed step (List.mem_of_getElem? here)] at opened
  | move reached moves ih => exact moves.opens reached.labelled ih

theorem Location.Opens.ended (opens : location.Opens history) (labelled : location.Labelled)
    (member : run ∈ location.run) (ended : isEnd run.status = true) :
    HasOpen run ↔ WaitCancelled history := by
  have goals : ∀ goal : Goal, goal.Labelled run → goal.Opens history run →
      (HasOpen run ↔ WaitCancelled history) := by
    intro goal labelled opens
    cases goal with
    | finish => exact opens
    | pause => simp [labelled.1, isEnd] at ended
    | resume wait =>
      have resumed : run.status = wait.runStatus := labelled
      cases wait <;> simp [resumed, Wait.runStatus, isEnd] at ended
    | await =>
      have status : run.status = .waitingApproval := labelled
      simp [status, isEnd] at ended
    | _ =>
      have status : run.status = .running := labelled
      simp [status, isEnd] at ended
  cases location with
  | stamp goal | store goal | completing goal =>
    cases member
    exact goals goal labelled opens
  | paused =>
    cases member
    simp [labelled.1, isEnd] at ended
  | waiting | selecting | deciding =>
    cases member
    have status : run.status = .waitingApproval := labelled
    simp [status, isEnd] at ended
  | finished exit =>
    cases exit with
    | error => cases member
    | ok =>
      cases member
      exact opens
  | _ => simp [labelled _ member, isEnd] at ended

end Cancelled

/--
A run which an execution of the workflow has persisted or returned. The release was
started without approvals, and no approval wait was cancelled.
-/
def StoredUncancelled (run : ReleaseRun) : Prop :=
  ∃ (digest : Digest) (order : StepOrder) (input shown : ReleaseRun)
    (events : History) (rest : Prog requests Exit),
    (∀ step ∈ input.steps, step.approval = none) ∧
    Runs environment () (releaseWorkflow digest order input) events () rest ∧
    ¬WaitCancelled events ∧ Shows rest shown ∧
      (run = shown ∨ run = Activities.persisted shown)

theorem hasOpen_of_mem_pendingSummaries {tenant : String} {runs : List ReleaseRun}
    {summary : ApprovalSummary}
    (member : summary ∈ Application.pendingSummaries tenant runs) :
    ∃ run ∈ runs, run.id = summary.runID ∧ HasOpen run := by
  obtain ⟨run, listed, summarized⟩ := List.mem_flatMap.mp member
  obtain ⟨step, stepMem, eq⟩ := List.mem_filterMap.mp summarized
  refine ⟨run, (List.mem_filter.mp listed).1, ?_⟩
  unfold Application.pendingSummary at eq
  split at eq
  · next approval carried =>
    split at eq
    · next pending =>
      cases eq
      exact ⟨rfl, step, stepMem, by simp [isOpen, carried, pending]⟩
    · cases eq
  · cases eq

variable {events : History}

/-- The approvals of a run which has ended, for every execution of the workflow. -/
theorem hasOpen_iff_of_runs {digest : Digest} {order : StepOrder}
    {input run : ReleaseRun} {rest : Prog requests Exit}
    (closed : ∀ step ∈ input.steps, step.approval = none)
    (ran : Runs environment () (releaseWorkflow digest order input) events () rest)
    (shown : Shows rest run) (ended : isEnd run.status = true) :
    HasOpen run ↔ WaitCancelled events := by
  obtain ⟨location, reached, member⟩ :=
    exists_reaches_of_shows (fun _ _ _ _ legal => legal) ran shown
  exact (reached.opens closed).ended reached.labelled member ended

/--
A run which ends has an open approval exactly if its approval wait was cancelled. When
the runs of a store which have ended were persisted without such a cancellation, no
pending approval of theirs is listed.
-/
theorem finished_run_has_no_open_approval (digest : Digest)
    (order : StepOrder) (input : ReleaseRun)
    (closed : ∀ step ∈ input.steps, step.approval = none) :
    (∀ (run : ReleaseRun) (events : History) (rest : Prog requests Exit),
      Runs environment () (releaseWorkflow digest order input) events () rest →
      Shows rest run → isEnd run.status = true →
      ((∃ step ∈ run.steps, ∃ approval, step.approval = some approval ∧
        approval.status = .pending) ↔ WaitCancelled events)) ∧
    ∀ (tenant : String) (runs : List ReleaseRun),
      (∀ run ∈ runs, isEnd run.status = true → StoredUncancelled run) →
      ∀ summary ∈ Application.pendingSummaries tenant runs,
        ∃ run ∈ runs, run.id = summary.runID ∧ isEnd run.status = false := by
  constructor
  · intro run events rest ran shown ended
    rw [← hasOpen_iff_of_runs closed ran shown ended]
    simp [HasOpen, isOpen, Option.any_eq_true]
  · intro tenant runs stored summary member
    obtain ⟨run, runMem, same, opened⟩ := hasOpen_of_mem_pendingSummaries member
    refine ⟨run, runMem, same, ?_⟩
    by_contra ended
    obtain ⟨digest, order, input, shown, events, rest, closed, ran, uncancelled, shows, same⟩ :=
      stored run runMem (Bool.eq_true_of_not_eq_false ended)
    have shownEnded : isEnd shown.status = true ∧ HasOpen shown := by
      rcases same with rfl | rfl
      · exact ⟨Bool.eq_true_of_not_eq_false ended, opened⟩
      · exact ⟨Bool.eq_true_of_not_eq_false ended, opened⟩
    exact uncancelled ((hasOpen_iff_of_runs closed ran shows shownEnded.1).mp shownEnded.2)

/-- Every step needs an approval, and its wait ends with `event`. -/
def approvalEnding (event : ApprovalEvent) : (op : Op) → Option op.Res
  | .evaluateStep _ _ => some (.ok { decision := .requireApproval })
  | .selectApproval _ => some event
  | _ => none

theorem not_waitCancelled_of_all (none : events.any takesCancel = false) :
    ¬WaitCancelled events := by
  rintro ⟨before, event, after, rfl, cancels⟩
  have other : takesCancel event = false := by
    simp only [List.any_append, List.any_cons, Bool.or_eq_false_iff] at none
    exact none.2.1
  unfold CancelsWait at cancels
  split at cancels
  · cases other
  · cases other
  · exact cancels

/-- The status of a run, and how many approvals of it are listed. -/
def listed (run : ReleaseRun) : RunStatus × ℕ :=
  (run.status, (Application.pendingSummaries "default" [run]).length)

/-- A release which is cancelled while it waits leaves its approval in the list. -/
theorem cancelled_release_lists_approval :
    ∃ plan events run,
      Plans catalog ["api"] plan ∧
      Runs environment () (rehearsal ["api"] plan) events () (.pure (.ok run)) ∧
      run.status = .cancelled ∧
      (Application.pendingSummaries "default" [run]).length = 1 := by
  have evaluated : rehearse catalog ["api"] (fun plan =>
      ended listed (play (scripted (approvalEnding (.cancel operator))) 20 ()
        (rehearsal ["api"] plan)).2.2) = .ok (some (.cancelled, 1)) := by
    decide +kernel
  obtain ⟨plan, plans, outcome⟩ := exists_of_rehearse evaluated
  obtain ⟨run, returned, shown⟩ := exists_of_ended outcome
  obtain ⟨status, count⟩ := Prod.mk.inj shown
  have ran := runs_scripted (approvalEnding (.cancel operator)) 20 (rehearsal ["api"] plan)
  rw [returned] at ran
  exact ⟨plan, _, run, plans, ran, status, count⟩

/-- A release whose approval expires has no open approval, and none of it is listed. -/
theorem finished_run_has_no_open_approval_expired :
    ∃ plan events run,
      Plans catalog ["api"] plan ∧
      Runs environment () (rehearsal ["api"] plan) events () (.pure (.ok run)) ∧
      run.status = .blocked ∧
      (¬∃ step ∈ run.steps, ∃ approval, step.approval = some approval ∧
        approval.status = .pending) ∧
      ∀ summary ∈ Application.pendingSummaries "default" [run],
        ∃ listed ∈ [run], listed.id = summary.runID ∧ isEnd listed.status = false := by
  have evaluated : rehearse catalog ["api"] (fun plan =>
      let played := play (scripted (approvalEnding .expired)) 20 () (rehearsal ["api"] plan)
      (ended listed played.2.2, played.1.any takesCancel)) = .ok (some (.blocked, 0), false) := by
    decide +kernel
  obtain ⟨plan, plans, outcome⟩ := exists_of_rehearse evaluated
  obtain ⟨finished, unasked⟩ := Prod.mk.inj outcome
  obtain ⟨run, returned, shown⟩ := exists_of_ended finished
  have status := (Prod.mk.inj shown).1
  have ran := runs_scripted (approvalEnding .expired) 20 (rehearsal ["api"] plan)
  rw [returned] at ran
  have closed : ∀ step ∈ (runOf ["api"] plan).steps, step.approval = none :=
    fun step member => (fresh_newRun _ _ _ _ step member).2
  have uncancelled := not_waitCancelled_of_all unasked
  refine ⟨plan, _, run, plans, ran, status, ?_, ?_⟩
  · rw [(finished_run_has_no_open_approval _ _ _ closed).1 run _ _ ran (.returns run)
      (by rw [status]; rfl)]
    exact uncancelled
  · refine (finished_run_has_no_open_approval default .stored _ closed).2 "default" _ ?_
    simp only [List.mem_singleton, forall_eq]
    exact fun _ => ⟨_, _, _, run, _, _, closed, ran, uncancelled, .returns run,
      Or.inl rfl⟩

end Themisy.Workflow.Release
