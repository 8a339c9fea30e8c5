import Themisy.Workflow.Exclusion

/-!
# Schedules which releases leave behind

A release which returns should have completed the schedules which it has acquired. The
workflow does so on its exits, but not where persisting the run or sleeping has failed,
nor where the outcome of an acquisition got lost. Wherever these failures do not hit a
release which has a schedule, no entry is left behind.
-/

namespace Themisy.Workflow.Release

open Domain Interaction Planning

def Failed {α : Type} (attempt : Attempt (Except ActivityFailure α)) : Prop :=
  ∃ failure, attempt.told = some (.error failure)

/-- Completing a schedule never fails. -/
def Completing (_ : Schedules) : (op : Op) → Attempt op.Res → Schedules → Prop
  | .completeSchedule _ _ _, attempt, _ => ¬Failed attempt
  | _, _, _ => True

/--
Completing a schedule and sleeping never fail, a run is persisted without failure
while it has an entry, and an acquisition fails only if it is not granted and the
run has no entry.
-/
def Steady (world : Schedules) : (op : Op) → Attempt op.Res → Schedules → Prop
  | .completeSchedule _ _ _, attempt, _ | .sleep _, attempt, _ => ¬Failed attempt
  | .persistRun input, attempt, _ => Failed attempt →
      ∀ stepID, world.scheduled.get? (scheduleKey input.run.id stepID) = none
  | .acquireSchedule runID _, attempt, _ => Failed attempt →
      (∀ stepID, world.scheduled.get? (scheduleKey runID stepID) = none) ∧
        ∀ result, attempt.ran = some (.ok result) → result.allowed = false
  | _, _, _ => True

/-- What the condition says about an attempt and the schedule which is taken before. -/
def Calm (before : List (Event requests.attempts)) : Event requests.attempts → Prop
  | ⟨.completeSchedule _ _ _, attempt⟩ | ⟨.sleep _, attempt⟩ => ¬Failed attempt
  | ⟨.persistRun _, attempt⟩ => Failed attempt → taken before = none
  | ⟨.acquireSchedule runID step, attempt⟩ => Failed attempt →
      taken (before ++ [⟨.acquireSchedule runID step, attempt⟩]) = none
  | _ => True

section Returns

variable {digest : Digest} {order : StepOrder} {input : ReleaseRun}
  {trace : List (Event requests.attempts)}

/-- The last attempt of a workflow which has returned. -/
theorem Tries.last_of_returned {exit : Exit} (tries : Tries digest order input trace (.pure exit)) :
    ∃ before op attempt answer, trace = before ++ [⟨op, attempt⟩] ∧ attempt.told = some answer ∧
      ∃ location, Reaches digest order input.steps.length input (told before) location ∧
        Moves digest order input.steps.length location ⟨op, answer⟩ (.finished exit) := by
  have reached := finished_of_tries tries
  induction trace using List.reverseRecOn with
  | nil =>
    generalize ended : Location.finished exit = location at reached
    generalize empty : told [] = history at reached
    cases reached with
    | start => cases ended
    | move => simp [told] at empty
  | append_singleton before event =>
    obtain ⟨op, attempt⟩ := event
    cases outcome : attempt.told with
    | none =>
      obtain ⟨_, impossible⟩ := tries.head_of_untold outcome
      cases impossible
    | some answer =>
      rw [told_append_some _ outcome] at reached
      exact ⟨before, op, attempt, answer, rfl, outcome, reached.last⟩

theorem taken_of_returned {exit : Exit} (tries : Tries digest order input trace (.pure exit))
    (aware : ∀ before event, trace = before ++ [event] → ∀ rest,
      Tries digest order input before rest → Aware input before rest)
    (calm : ∀ before event, trace = before ++ [event] → Calm before event) :
    taken trace = none := by
  obtain ⟨before, op, attempt, answer, rfl, answered, location, reached, moves⟩ :=
    tries.last_of_returned
  obtain ⟨⟨⟩, previous, next, first, asked, -, -⟩ := tries.last
  have knows := aware before _ rfl previous first
  have condition := calm before _ rfl
  -- the workflow knows what it holds, and it returns without a schedule or after a failure
  have settled : ∀ (other : (∀ runID step, op ≠ .acquireSchedule runID step) ∧
      ∀ runID stepID failed, op ≠ .completeSchedule runID stepID failed),
      scheduleChange ⟨op, answer⟩ = none → taken before = none ∨ Interrupts ⟨op, answer⟩ := by
    intro other quiet
    rw [(knows.same asked other).1]
    rcases held_of_finished (reached.move moves) with none | ⟨_, _, split, interrupts, -⟩
    · rw [held_append_none quiet] at none
      exact Or.inl none
    · obtain ⟨-, same⟩ := List.append_inj' split rfl
      cases same
      exact Or.inr interrupts
  cases op with
  | acquireSchedule runID step =>
    cases moves with
    | acquireFailed _ _ _ failure => exact condition ⟨failure, answered⟩
  | completeSchedule runID stepID failed =>
    cases moves with
    | completeFailed _ _ _ _ failure => exact absurd ⟨failure, answered⟩ condition
  | persistRun persist =>
    rw [taken_append_none rfl]
    rcases settled ⟨nofun, nofun⟩ rfl with none | interrupts
    · exact none
    · cases answer with
      | ok => cases interrupts
      | error failure => exact condition ⟨failure, answered⟩
  | sleep duration =>
    rw [taken_append_none rfl]
    rcases settled ⟨nofun, nofun⟩ rfl with none | interrupts
    · exact none
    · cases answer with
      | ok => cases interrupts
      | error failure => exact absurd ⟨failure, answered⟩ condition
  | _ =>
    rw [taken_append_none rfl]
    exact (settled ⟨nofun, nofun⟩ rfl).resolve_right id

end Returns

theorem Entered.taken_eq_none {world : Schedules} {runID : String} {taken : Option Scheduler.Step}
    (entered : Entered world runID taken)
    (missing : ∀ stepID, world.scheduled.get? (scheduleKey runID stepID) = none) :
    taken = none := by
  cases taken with
  | none => rfl
  | some step =>
    obtain ⟨dispatch, found, -⟩ := entered.exists_dispatch
    rw [missing] at found
    cases found

section Pool

variable {ι : Type} [DecidableEq ι] {digest : Digest} {orders : ι → StepOrder}
  {inputs : ι → ReleaseRun} {limits : Scheduler.Limits} {policy : Scheduler.CircuitPolicy}
  {scheduler : Scheduler} {pool : Pool (activities Steady) ι Exit}

/-- The condition on the shared table is one on the schedules which the releases have taken. -/
theorem Steady.calm {order : StepOrder} {input : ReleaseRun}
    {world next : Schedules} {trace : List (Event requests.attempts)} {op : Op}
    {attempt : Attempt op.Res} {program : Prog requests.attempts Exit}
    {follow : Attempt op.Res → Prog requests.attempts Exit}
    (entered : Entered world input.id (taken trace))
    (tries : Tries digest order input trace program)
    (asked : program.head = .request op follow) (steady : Steady world op attempt next) :
    Calm trace ⟨op, attempt⟩ := by
  obtain ⟨location, reached, asks⟩ := location_of_tries tries asked
  have scheduling := scheduling_of_asks reached asks
  cases op with
  | persistRun persist =>
    intro failed
    have sameID : persist.run.id = input.id := scheduling
    have missing := steady failed
    rw [sameID] at missing
    exact entered.taken_eq_none missing
  | acquireSchedule runID step =>
    intro failed
    obtain ⟨rfl, -⟩ := scheduling
    obtain ⟨missing, refused⟩ := steady failed
    rw [taken_append_none]
    · exact entered.taken_eq_none missing
    · unfold attemptChange
      split
      · next result _ eq =>
        cases eq
        rw [refused result rfl]
        rfl
      · next eq => cases eq
      · rfl
  | completeSchedule | sleep => exact steady
  | _ => trivial

theorem calm_of_reachable (separate : Separate inputs)
    (created : Scheduler.new limits policy = .ok scheduler)
    (reachable : pool.Reachable (releases digest orders inputs) (Schedules.new scheduler)) :
    Agrees digest orders inputs limits pool.world pool.trace ∧
      ∀ process before event, Pool.localTrace pool.trace process = before ++ [event] →
        Calm before event ∧ ∀ rest,
          Tries digest (orders process) (inputs process) before rest →
            Aware (inputs process) before rest := by
  refine reachable.invariant reports_of_answers (fun world trace =>
    Agrees digest orders inputs limits world trace ∧
      ∀ process before event, Pool.localTrace trace process = before ++ [event] →
        Calm before event ∧ ∀ rest,
          Tries digest (orders process) (inputs process) before rest →
            Aware (inputs process) before rest) ?_ ?_
  · refine ⟨agrees_start created, ?_⟩
    intro process before event split
    simp [Pool.localTrace] at split
  · rintro world trace process program op next attempt after ⟨agrees, calm⟩ run requested
      ⟨-, effect, steady⟩
    refine ⟨agrees.step separate run requested effect, ?_⟩
    intro other before event split
    by_cases same : process = other
    · subst same
      rw [Pool.localTrace_append_self] at split
      obtain ⟨rfl, eq⟩ := List.append_inj' split rfl
      cases eq
      exact ⟨Steady.calm (agrees.entered process) run requested steady, agrees.aware process⟩
    · rw [Pool.localTrace_append_of_ne _ same] at split
      exact calm other before event split

/--
Any number of releases share the activities. When one of them has returned, with or
without an error, the table has no entry for its run: all entries are those of other
releases, and the budget counts exactly their keys. This holds as long as no failure
hits a release which has an entry.
-/
theorem no_entry_of_returned
    (generated : ∀ process, ∃ bytes, (inputs process).id = Application.newID "run" bytes)
    (distinct : Function.Injective fun process => (inputs process).id)
    (created : Scheduler.new limits policy = .ok scheduler)
    (reachable : pool.Reachable (releases digest orders inputs) (Schedules.new scheduler))
    (process : ι) (exit : Exit) (returned : pool.processes process = some (.pure exit)) :
    (∀ stepID, GoMap.get? (Schedules.scheduled pool.world)
      (scheduleKey (inputs process).id stepID) = none) ∧
    (∀ key, (GoMap.get? (Schedules.scheduled pool.world) key).isSome →
      ∃ other stepID, other ≠ process ∧ key = scheduleKey (inputs other).id stepID) ∧
    ∀ key, (Schedules.scheduler pool.world).budget.active.find key 0 =
      (((Schedules.scheduled pool.world).values.flatMap fun dispatch =>
        dispatch.reservation.keys).count key : ℤ) := by
  have separate := separate_of_newID generated distinct
  obtain ⟨agrees, calm⟩ := calm_of_reachable separate created reachable
  obtain ⟨rest, tries, current⟩ := reachable.localRun reports_of_answers process
  obtain rfl := current _ returned
  have idle := taken_of_returned tries
    (fun before event split => (calm process before event split).2)
    fun before event split => (calm process before event split).1
  have entered := agrees.entered process
  rw [idle] at entered
  refine ⟨entered.get?_eq_none, ?_, ?_⟩
  · intro key present
    obtain ⟨other, stepID, rfl⟩ := agrees.owned key present
    refine ⟨other, stepID, ?_, rfl⟩
    rintro rfl
    rw [entered.get?_eq_none] at present
    cases present
  · exact agrees.consistent.find_eq

end Pool

/-- Nothing fails, so nothing is left behind. -/
theorem no_entry_of_returned_succeeded :
    ∃ plan scheduler, ∃ pool : Pool (activities Steady) Unit Exit, ∃ exit,
      Plans catalog ["api"] plan ∧ NewScheduler scheduler ∧
      pool.Reachable (releases default (fun _ => .stored) fun _ => numberedRun plan [])
        (Schedules.new scheduler) ∧
      pool.processes () = some (.pure exit) ∧
      ∀ stepID, GoMap.get? (Schedules.scheduled pool.world)
        (scheduleKey (Application.newID "run" []) stepID) = none := by
  obtain ⟨plan, scheduler, plans, created, reached⟩ := exists_of_rehearseWorker
    (show rehearseWorker (fun plan scheduler => ((worked Steady (fun _ => false)
      (fun _ => numberedRun plan []) scheduler [((), 30)]).returned ()).isSome) = .ok true
        by decide +kernel)
  obtain ⟨exit, returned⟩ := Option.isSome_iff_exists.mp reached
  have steady : ∀ world op, Steady world op (worker (fun _ => false) world op).1
      (worker (fun _ => false) world op).2 := by
    intro world op
    cases op with
    | acquireSchedule runID step =>
      rintro ⟨failure, failed⟩
      simp only [worker, workedAnswer] at failed
      rcases world.acquireSchedule_cases with ⟨_, -, eq⟩ | ⟨-, _, -, eq⟩ | ⟨-, -, eq⟩ <;>
        rw [eq] at failed <;> cases failed
    | persistRun | completeSchedule | sleep =>
      rintro ⟨failure, failed⟩
      cases failed
    | _ => trivial
  have reachable := reachable_worked steady (fun _ => numberedRun plan []) scheduler [((), 30)]
  have processed := Pool.processes_of_returned returned
  exact ⟨plan, scheduler, _, exit, plans, created, reachable, processed,
    (no_entry_of_returned (fun _ => ⟨[], rfl⟩) (fun _ _ _ => rfl) created reachable () exit
      processed).1⟩

/--
The store fails to record that the deployment is executing. The release returns the
failure and keeps its entry, and with it the exclusive key of the service.
-/
theorem entry_of_returned_left_behind :
    ∃ plan scheduler, ∃ pool : Pool (activities Completing) Unit Exit, ∃ exit dispatch,
      Plans catalog ["api"] plan ∧ NewScheduler scheduler ∧
      pool.Reachable (releases default (fun _ => .stored) fun _ => numberedRun plan [])
        (Schedules.new scheduler) ∧
      pool.processes () = some (.pure exit) ∧
      GoMap.get? (Schedules.scheduled pool.world)
        (scheduleKey (Application.newID "run" []) "api") = some dispatch ∧
      (Schedules.scheduler pool.world).budget.blockedKeys dispatch.step ≠ [] := by
  let refuses (input : PersistInput) : Bool := input.eventType = "deployment.executing"
  let left (plan : ReleasePlan) (scheduler : Scheduler) : Pool (activities Completing) Unit Exit :=
    worked Completing refuses (fun _ => numberedRun plan []) scheduler [((), 30)]
  obtain ⟨plan, scheduler, plans, created, reached⟩ := exists_of_rehearseWorker
    (show rehearseWorker (fun plan scheduler =>
      let world : Schedules := (left plan scheduler).world
      (((left plan scheduler).returned ()).isSome,
        (world.scheduled.get? (scheduleKey (Application.newID "run" []) "api")).map fun dispatch =>
          decide (world.scheduler.budget.blockedKeys dispatch.step = []))) =
        .ok (true, some false) by decide +kernel)
  obtain ⟨isReturned, isLeft⟩ := Prod.mk.inj reached
  obtain ⟨exit, returned⟩ := Option.isSome_iff_exists.mp isReturned
  obtain ⟨dispatch, found, blocked⟩ := Option.map_eq_some_iff.mp isLeft
  have completing : ∀ world op, Completing world op (worker refuses world op).1
      (worker refuses world op).2 := by
    intro world op
    cases op with
    | completeSchedule =>
      rintro ⟨failure, failed⟩
      cases failed
    | _ => trivial
  exact ⟨plan, scheduler, left plan scheduler, exit, dispatch, plans, created,
    reachable_worked completing _ scheduler _, Pool.processes_of_returned returned, found,
    of_decide_eq_false blocked⟩

end Themisy.Workflow.Release
