import Themisy.Workflow.Attempts
import Themisy.Workflow.Rehearsal

/-!
# Releases which share the activities

Any number of release workflows run concurrently on one `Activities` value. An attempt
at an activity may have run although its outcome gets lost.

A run has an entry in the table of dispatched steps exactly while its attempts have
acquired a schedule and not completed it. Since the budget counts the entries, no two
releases deploy one service at the same time, and no budget is exceeded.
-/

namespace Themisy.Workflow.Release

open Domain Interaction Planning

/-- What an attempt does to the schedules. -/
def AttemptEffect (world : Schedules) : (op : Op) → Attempt op.Res → Schedules → Prop
  | .acquireSchedule runID step, attempt, next =>
    (attempt.ran = none ∧ next = world) ∨ ∃ capacity,
      attempt.ran = some ((world.acquireSchedule capacity runID step).1.mapError fun error =>
        ⟨error.text⟩) ∧
      next = (world.acquireSchedule capacity runID step).2
  | .completeSchedule runID stepID failed, attempt, next =>
    (attempt.ran = none ∧ next = world) ∨
      attempt.ran = some (.ok ()) ∧ next = (world.completeSchedule runID stepID failed).2
  | _, _, next => next = world

/-- Which attempts may happen, with their effects. -/
abbrev Permission :=
  Schedules → (op : Op) → Attempt op.Res → Schedules → Prop

/-- The activities of one worker, restricted to the attempts which are permitted. -/
def activities (permitted : Permission) :
    Machine requests.attempts where
  World := Schedules
  answers world op attempt next :=
    Reports op attempt ∧ AttemptEffect world op attempt next ∧ permitted world op attempt next

/-- The entry of the table which a request may change. -/
def Op.scheduleKey : Op → Option String
  | acquireSchedule runID step => some (Workflow.scheduleKey runID step.id)
  | completeSchedule runID stepID _ => some (Workflow.scheduleKey runID stepID)
  | _ => none

theorem scheduleKey_right_inj {runID first second : String} :
    scheduleKey runID first = scheduleKey runID second ↔ first = second := by
  simp [scheduleKey, ← String.toList_inj]

variable {world next : Schedules} {op : Op} {attempt : Attempt op.Res}

theorem AttemptEffect.consistent {limits : Scheduler.Limits}
    (effect : AttemptEffect world op attempt next) (consistent : world.Consistent limits) :
    next.Consistent limits := by
  cases op with
  | acquireSchedule runID step =>
    rcases effect with ⟨-, rfl⟩ | ⟨capacity, -, rfl⟩
    · exact consistent
    · exact consistent.acquireSchedule capacity runID step
  | completeSchedule runID stepID failed =>
    rcases effect with ⟨-, rfl⟩ | ⟨-, rfl⟩
    · exact consistent
    · exact consistent.completeSchedule runID stepID failed
  | _ =>
    cases effect
    exact consistent

theorem AttemptEffect.get? {key : String} (effect : AttemptEffect world op attempt next)
    (elsewhere : key ∉ op.scheduleKey) :
    next.scheduled.get? key = world.scheduled.get? key := by
  cases op with
  | acquireSchedule runID step =>
    have other : key ≠ scheduleKey runID step.id := fun eq => elsewhere (by rw [eq]; rfl)
    rcases effect with ⟨-, rfl⟩ | ⟨capacity, -, rfl⟩
    · rfl
    · rcases world.acquireSchedule_cases with ⟨_, -, eq⟩ | ⟨-, _, -, eq⟩ | ⟨-, -, eq⟩
      · rw [eq]
      · rw [eq]
      · rw [eq, GoMap.get?_set, if_neg other]
  | completeSchedule runID stepID failed =>
    have other : key ≠ scheduleKey runID stepID := fun eq => elsewhere (by rw [eq]; rfl)
    rcases effect with ⟨-, rfl⟩ | ⟨-, rfl⟩
    · rfl
    · rcases world.completeSchedule_cases with ⟨-, eq⟩ | ⟨_, _, -, eq⟩
      · rw [eq]
      · rw [eq, GoMap.get?_delete, if_neg other]
  | _ =>
    cases effect
    rfl

/-- The run has an entry for the step which its attempts have taken, and no other. -/
def Entered (world : Schedules) (runID : String) (taken : Option Scheduler.Step) : Prop :=
  ∀ stepID, (world.scheduled.get? (scheduleKey runID stepID)).map Scheduler.Dispatch.reservation =
    (taken.filter fun step => step.id = stepID).map Schedules.reservationOf

section Entered

variable {runID : String} {step : Scheduler.Step}

theorem Entered.congr {taken : Option Scheduler.Step} (entered : Entered world runID taken)
    (same : ∀ stepID, next.scheduled.get? (scheduleKey runID stepID) =
      world.scheduled.get? (scheduleKey runID stepID)) : Entered next runID taken := by
  intro stepID
  rw [same, entered stepID]

theorem Entered.get?_eq_none (entered : Entered world runID none) (stepID : String) :
    world.scheduled.get? (scheduleKey runID stepID) = none := by
  have none := entered stepID
  rwa [Option.filter_none, Option.map_none, Option.map_eq_none_iff] at none

theorem Entered.exists_dispatch (entered : Entered world runID (some step)) :
    ∃ dispatch, world.scheduled.get? (scheduleKey runID step.id) = some dispatch ∧
      dispatch.reservation = Schedules.reservationOf step := by
  have found := entered step.id
  rw [Option.filter_some, if_pos (by simp)] at found
  exact Option.map_eq_some_iff.mp found

theorem entered_none (missing : ∀ stepID, world.scheduled.get? (scheduleKey runID stepID) = none) :
    Entered world runID none := by
  intro stepID
  rw [missing stepID]
  rfl

/-- A run without an entry for the step which it may have taken has taken none. -/
theorem Entered.eq_none {taken : Option Scheduler.Step} (entered : Entered world runID taken)
    (before : taken = none ∨ taken = some step)
    (missing : world.scheduled.get? (scheduleKey runID step.id) = none) : taken = none := by
  refine before.resolve_right ?_
  rintro rfl
  obtain ⟨dispatch, found, -⟩ := entered.exists_dispatch
  rw [missing] at found
  cases found

variable {trace : List (Event requests.attempts)}

theorem Entered.acquire {attempt : Attempt (Op.acquireSchedule runID step).Res}
    (entered : Entered world runID (taken trace))
    (before : taken trace = none ∨ taken trace = some step)
    (effect : AttemptEffect world (.acquireSchedule runID step) attempt next) :
    Entered next runID (taken (trace ++ [⟨.acquireSchedule runID step, attempt⟩])) ∧
      ∀ result, attempt.ran = some (.ok result) → taken trace ≠ none → result.allowed = true := by
  obtain ⟨ran, outcome⟩ := attempt
  rcases effect with ⟨notRun, rfl⟩ | ⟨capacity, ranWith, rfl⟩
  · cases notRun
    rw [taken_append_none rfl]
    exact ⟨entered, nofun⟩
  · cases ranWith
    rcases world.acquireSchedule_cases with
      ⟨dispatch, found, eq⟩ | ⟨missing, result, refused, eq⟩ | ⟨missing, -, eq⟩
    · have took : taken trace = some step := by
        refine before.resolve_left fun none => ?_
        rw [none] at entered
        rw [entered.get?_eq_none] at found
        cases found
      rw [eq]
      refine ⟨?_, ?_⟩
      · rw [taken_append_some rfl, ← took]
        exact entered
      · rintro result ⟨⟩ -
        rfl
    · have idle := entered.eq_none before missing
      rw [eq]
      refine ⟨?_, fun _ _ took => absurd idle took⟩
      rw [taken_append_none (by simp [attemptChange, Except.mapError, refused])]
      exact entered
    · have idle := entered.eq_none before missing
      rw [eq]
      refine ⟨?_, fun _ _ took => absurd idle took⟩
      rw [taken_append_some rfl]
      rw [idle] at entered
      intro stepID
      rw [GoMap.get?_set]
      by_cases same : step.id = stepID
      · simp [same]
      · have different : scheduleKey runID stepID ≠ scheduleKey runID step.id := by
          rw [Ne, scheduleKey_right_inj]
          exact Ne.symm same
        simp [same, different, entered.get?_eq_none]

theorem Entered.complete {stepID : String} {failed : Bool}
    {attempt : Attempt (Op.completeSchedule runID stepID failed).Res}
    (entered : Entered world runID (taken trace)) (named : step.id = stepID)
    (before : taken trace = none ∨ taken trace = some step)
    (effect : AttemptEffect world (.completeSchedule runID stepID failed) attempt next) :
    Entered next runID (taken (trace ++ [⟨.completeSchedule runID stepID failed, attempt⟩])) := by
  obtain ⟨ran, outcome⟩ := attempt
  rcases effect with ⟨notRun, rfl⟩ | ⟨ranWith, rfl⟩
  · cases notRun
    rw [taken_append_none rfl]
    exact entered
  · cases ranWith
    rw [taken_append_some rfl]
    refine entered_none fun other => ?_
    rcases world.completeSchedule_cases with ⟨missing, eq⟩ | ⟨dispatch, _, found, eq⟩
    · rw [entered.eq_none before (named ▸ missing)] at entered
      rw [eq, entered.get?_eq_none]
    · rw [eq, GoMap.get?_delete]
      split
      · rfl
      · next different =>
        have elsewhere := entered other
        rcases before with none | took
        · rw [none] at entered
          exact entered.get?_eq_none other
        · rw [took, Option.filter_some, if_neg, Option.map_none, Option.map_eq_none_iff]
            at elsewhere
          · exact elsewhere
          · intro same
            rw [← of_decide_eq_true same, named] at different
            exact different rfl

end Entered

variable {ι : Type} [DecidableEq ι] {digest : Digest} {orders : ι → StepOrder}
  {inputs : ι → ReleaseRun} {limits : Scheduler.Limits}

/-- Different releases use different entries. -/
def Separate (inputs : ι → ReleaseRun) : Prop :=
  ∀ first second firstStep secondStep,
    scheduleKey (inputs first).id firstStep = scheduleKey (inputs second).id secondStep →
      first = second

/-- The table agrees with what the releases have done, and they know what they hold. -/
structure Agrees (digest : Digest) (orders : ι → StepOrder)
    (inputs : ι → ReleaseRun) (limits : Scheduler.Limits) (world : Schedules)
    (trace : List (ι × Event requests.attempts)) : Prop where
  consistent : world.Consistent limits
  owned : ∀ key, (world.scheduled.get? key).isSome →
    ∃ process stepID, key = scheduleKey (inputs process).id stepID
  entered : ∀ process, Entered world (inputs process).id (taken (Pool.localTrace trace process))
  aware : ∀ process rest,
    Tries digest (orders process) (inputs process) (Pool.localTrace trace process) rest →
    Aware (inputs process) (Pool.localTrace trace process) rest

variable {input : ReleaseRun} {program : Prog requests.attempts Exit}

theorem mem_scheduleKey {history : History}
    (scheduling : Scheduling input history op) {key : String} (touched : key ∈ op.scheduleKey) :
    ∃ stepID, key = scheduleKey input.id stepID := by
  cases op with
  | acquireSchedule runID step =>
    cases touched
    exact ⟨step.id, by rw [scheduling.1]⟩
  | completeSchedule runID stepID failed =>
    cases touched
    exact ⟨stepID, by rw [scheduling.1]⟩
  | _ => cases touched

theorem Entered.step {order : StepOrder} {next : Schedules}
    {trace : List (Event requests.attempts)}
    {follow : Attempt op.Res → Prog requests.attempts Exit}
    (entered : Entered world input.id (taken trace)) (aware : Aware input trace program)
    (tries : Tries digest order input trace program) (asked : program.head = .request op follow)
    (effect : AttemptEffect world op attempt next) :
    Entered next input.id (taken (trace ++ [⟨op, attempt⟩])) ∧
      ∀ runID step result answer,
        (⟨op, attempt⟩ : Event requests.attempts) =
          ⟨.acquireSchedule runID step, ⟨some (.ok result), answer⟩⟩ →
        taken trace ≠ none → result.allowed = true := by
  obtain ⟨location, reached, asks⟩ := location_of_tries tries asked
  have scheduling := scheduling_of_asks reached asks
  cases op with
  | acquireSchedule runID step =>
    obtain ⟨rfl, idle⟩ := scheduling
    obtain ⟨after, granted⟩ := entered.acquire (aware.taken_of_acquire asked idle) effect
    refine ⟨after, ?_⟩
    rintro _ _ result answer ⟨⟩
    exact granted result rfl
  | completeSchedule runID stepID failed =>
    obtain ⟨rfl, step, holds, named⟩ := scheduling
    have before := aware.taken_of_complete asked holds
    exact ⟨entered.complete named before effect, nofun⟩
  | _ =>
    cases effect
    rw [taken_append_none rfl]
    exact ⟨entered, nofun⟩

theorem Agrees.step (separate : Separate inputs) {after : Schedules}
    {trace : List (ι × Event requests.attempts)} {process : ι}
    {next : Attempt op.Res → Prog requests.attempts Exit}
    (agrees : Agrees digest orders inputs limits world trace)
    (tries : Tries digest (orders process) (inputs process) (Pool.localTrace trace process) program)
    (asked : program.head = .request op next) (effect : AttemptEffect world op attempt after) :
    Agrees digest orders inputs limits after (trace ++ [(process, ⟨op, attempt⟩)]) := by
  obtain ⟨own, granted⟩ := (agrees.entered process).step (agrees.aware process program tries) tries
    asked effect
  obtain ⟨location, reached, asks⟩ := location_of_tries tries asked
  have scheduling := scheduling_of_asks reached asks
  refine ⟨effect.consistent agrees.consistent, fun key present => ?_, fun other => ?_,
    fun other rest triesNow => ?_⟩
  · by_cases touched : key ∈ op.scheduleKey
    · exact ⟨process, mem_scheduleKey scheduling touched⟩
    · rw [effect.get? touched] at present
      exact agrees.owned key present
  · by_cases same : process = other
    · subst same
      rw [Pool.localTrace_append_self]
      exact own
    · rw [Pool.localTrace_append_of_ne _ same]
      refine (agrees.entered other).congr fun stepID => effect.get? fun touched => ?_
      obtain ⟨_, key⟩ := mem_scheduleKey scheduling touched
      exact same (separate _ _ _ _ key).symm
  · by_cases same : process = other
    · subst same
      rw [Pool.localTrace_append_self] at triesNow ⊢
      exact Aware.step (agrees.aware process) granted triesNow
    · rw [Pool.localTrace_append_of_ne _ same] at triesNow ⊢
      exact agrees.aware other rest triesNow

theorem agrees_start {policy : Scheduler.CircuitPolicy} {scheduler : Scheduler}
    (created : Scheduler.new limits policy = .ok scheduler) :
    Agrees digest orders inputs limits (Schedules.new scheduler) [] := by
  refine ⟨?_, nofun, fun process stepID => rfl, fun process rest _ => ?_⟩
  · unfold Scheduler.new at created
    split at created
    · cases created
    · next budget accepted =>
      obtain ⟨valid, rfl⟩ := Scheduler.newBudget_eq_ok_iff.mp accepted
      split at created
      · cases created
      · cases created
        exact Scheduler.Ledger.Consistent.start valid
  · exact .settled rfl fun request ongoing => absurd ongoing not_since_nil

omit [DecidableEq ι] in
/-- Identifiers which `newID` generates keep the entries of different runs apart. -/
theorem separate_of_newID
    (generated : ∀ process, ∃ bytes, (inputs process).id = Application.newID "run" bytes)
    (distinct : Function.Injective fun process => (inputs process).id) : Separate inputs := by
  have runOf : ∀ process stepID, ((scheduleKey (inputs process).id stepID).toList.takeWhile
      fun character => character ≠ '\x00') = (inputs process).id.toList := by
    intro process stepID
    obtain ⟨bytes, id⟩ := generated process
    have free := Application.nul_notMem_newID_run bytes
    rw [← id] at free
    rw [scheduleKey, String.append_assoc, String.toList_append, List.takeWhile_append_of_pos]
    · simp
    · intro character member
      have other : character ≠ '\x00' := fun same => free (same ▸ member)
      simpa using other
  intro first second firstStep secondStep same
  refine distinct ?_
  have texts := runOf first firstStep
  rw [same, runOf second secondStep] at texts
  exact String.toList_inj.mp texts.symm

section Deploying

variable {permitted : Permission}

def releases (digest : Digest) (orders : ι → StepOrder)
    (inputs : ι → ReleaseRun) (process : ι) : Prog requests.attempts Exit :=
  (releaseWorkflow digest (orders process) (inputs process)).retried

/--
A release deploys a service from the moment it schedules `ActivityDeploy` until it
has completed the schedule.
-/
def Deploying (pool : Pool (activities permitted) ι Exit) (process : ι) (request : DeployInput) :
    Prop :=
  (∃ program next, pool.processes process = some program ∧
    program.head = .request (.deploy request) next) ∨
  Ongoing (Pool.localTrace pool.trace process) request

theorem reports_of_answers (world : Schedules) (op : Op) (attempt : Attempt op.Res)
    (next : Schedules) (answers : (activities permitted).answers world op attempt next) :
    Reports op attempt :=
  answers.1

variable {pool : Pool (activities permitted) ι Exit} {policy : Scheduler.CircuitPolicy}
  {scheduler : Scheduler}

section

variable (separate : Separate inputs)
  (created : Scheduler.new limits policy = .ok scheduler)
  (reachable : pool.Reachable (releases digest orders inputs) (Schedules.new scheduler))

include separate created reachable

theorem agrees_of_reachable :
    Agrees digest orders inputs limits pool.world pool.trace := by
  refine reachable.invariant reports_of_answers (Agrees digest orders inputs limits)
    (agrees_start created) ?_
  intro world trace process program op next attempt after agrees run requested answers
  exact agrees.step separate run requested answers.2.1

theorem exists_dispatch_of_deploying {process : ι}
    {request : DeployInput} (deploying : Deploying pool process request) :
    ∃ dispatch, pool.world.scheduled.get? (scheduleKey (inputs process).id request.service) =
        some dispatch ∧
      ∀ step : ReleaseStep, step.service = request.service →
        Scheduler.keysFor dispatch.reservation.step =
          Scheduler.keysFor (schedulingStep (inputs process) step) := by
  have agrees := agrees_of_reachable separate created reachable
  obtain ⟨rest, tries, current⟩ := reachable.localRun reports_of_answers process
  have aware := agrees.aware process rest tries
  have took : ∃ step, taken (Pool.localTrace pool.trace process) = some step ∧
      Represents (inputs process) request.service step := by
    rcases deploying with ⟨program, next, running, asked⟩ | ongoing
    · obtain rfl := current program running
      obtain ⟨location, reached, asks⟩ := location_of_tries tries asked
      rw [(aware.same asked ⟨nofun, nofun⟩).1]
      exact scheduling_of_asks reached asks
    · cases aware with
      | settled _ window => exact window request ongoing
      | acquiring _ closed | completing _ closed => exact absurd ongoing (closed request)
  obtain ⟨step, taken, represents⟩ := took
  have entered := agrees.entered process
  rw [taken] at entered
  obtain ⟨dispatch, found, reserved⟩ := entered.exists_dispatch
  rw [represents.id] at found
  refine ⟨dispatch, found, fun releaseStep service => ?_⟩
  rw [reserved]
  exact represents.keys releaseStep service

/-- The releases which deploy a service with some budget key are within its limit. -/
theorem card_deploying_le (key : Scheduler.BudgetKey) (processes : Finset ι)
    (deploying : ∀ process ∈ processes, ∃ request step, Deploying pool process request ∧
      step.service = request.service ∧
      key ∈ Scheduler.keysFor (schedulingStep (inputs process) step)) :
    (processes.card : ℤ) ≤ limits.limit key := by
  have consistent : pool.world.Consistent limits :=
    (agrees_of_reachable separate created reachable).consistent
  choose requests steps deploys service keys using deploying
  have counted : processes.card ≤ (Schedules.ledger pool.world).holders key := by
    simp only [Scheduler.Ledger.holders, Schedules.ledger, List.countP_map]
    rw [← Finset.card_attach]
    refine GoMap.card_le_countP_values processes.attach (fun process =>
      scheduleKey (inputs process).id (requests process process.2).service) ?_ _ ?_
    · exact fun first _ second _ same => Subtype.ext (separate first second _ _ same)
    · rintro ⟨process, member⟩ -
      obtain ⟨dispatch, found, reserved⟩ := exists_dispatch_of_deploying separate created reachable
        (deploys process member)
      refine ⟨dispatch, found, ?_⟩
      have holds := keys process member
      rw [← reserved _ (service process member)] at holds
      simpa using holds
  have bounded := consistent.bounded key
  omega

/-- Two releases do not deploy a service which is scheduled in the same place. -/
theorem not_deploying_same
    {first second : ι} {firstRequest secondRequest : DeployInput} (different : first ≠ second)
    (deploysFirst : Deploying pool first firstRequest)
    (deploysSecond : Deploying pool second secondRequest) (firstStep secondStep : ReleaseStep)
    (firstService : firstStep.service = firstRequest.service)
    (secondService : secondStep.service = secondRequest.service) :
    ¬(Scheduler.effectiveTenant (schedulingStep (inputs first) firstStep) =
        Scheduler.effectiveTenant (schedulingStep (inputs second) secondStep) ∧
      (schedulingStep (inputs first) firstStep).environment =
        (schedulingStep (inputs second) secondStep).environment ∧
      firstRequest.service = secondRequest.service) := by
  rintro ⟨tenant, environment, service⟩
  have sameKey : Scheduler.serviceKey (schedulingStep (inputs first) firstStep) =
      Scheduler.serviceKey (schedulingStep (inputs second) secondStep) := by
    simp only [Scheduler.serviceKey, tenant, environment, schedulingStep_id, firstService,
      secondService, service]
  have bounded := card_deploying_le separate created reachable
    (Scheduler.serviceKey (schedulingStep (inputs first) firstStep)) {first, second} ?_
  · rw [Finset.card_pair different, Scheduler.limit_serviceKey] at bounded
    omega
  · intro process member
    rcases Finset.mem_insert.mp member with rfl | other
    · exact ⟨firstRequest, firstStep, deploysFirst, firstService,
        Scheduler.serviceKey_mem_keysFor _⟩
    · obtain rfl := Finset.mem_singleton.mp other
      rw [sameKey]
      exact ⟨secondRequest, secondStep, deploysSecond, secondService,
        Scheduler.serviceKey_mem_keysFor _⟩

end

/-- The control plane has built the run from a plan. -/
def Created (run : ReleaseRun) : Prop :=
  ∃ (planner : Planning.Planner) (digest : Digest) (order : IterationOrder String)
    (plannedAt createdAt : Time) (intent : ReleaseIntent) (plan : ReleasePlan) (runID : String),
    planner.planIntent digest order plannedAt intent = .ok plan ∧
    run = Application.newRun runID createdAt (Planning.legacyRequestFromIntent intent) plan

/-- The steps of such a run are scheduled in its own tenant and environment. -/
theorem schedulingStep_of_created {run : ReleaseRun} (created : Created run) (step : ReleaseStep) :
    (schedulingStep run step).tenant = run.tenantID ∧
      (schedulingStep run step).environment = run.environment.text := by
  obtain ⟨planner, digest, order, plannedAt, createdAt, intent, plan, runID, planned, rfl⟩ :=
    created
  unfold schedulingStep
  split
  · next planStep found =>
    have member : planStep ∈ plan.steps := List.mem_of_find?_eq_some found
    have tenant := (Planning.Planner.faithful_of_planIntent planned).tenant planStep member
    have environment := Planning.Planner.environment_of_planIntent planned planStep member
    exact ⟨tenant, congrArg Environment.text environment⟩
  · exact ⟨rfl, rfl⟩

/--
Any number of releases share the activities; attempts interleave in any way, and
their outcomes may get lost. At no moment do two releases deploy the same service
of the same tenant and environment, where the tenant and the environment are those
which the plan schedules the service in, and those of the run if the control plane
has created it. For every budget key, the releases which deploy a service with
this key are within its limit. Verifications and rollbacks happen while the
release still deploys the service.
-/
theorem deploying_exclusive
    (generated : ∀ process, ∃ bytes, (inputs process).id = Application.newID "run" bytes)
    (distinct : Function.Injective fun process => (inputs process).id)
    (created : Scheduler.new limits policy = .ok scheduler)
    (reachable : pool.Reachable (releases digest orders inputs) (Schedules.new scheduler)) :
    (∀ first second firstRequest secondRequest, first ≠ second →
      Deploying pool first firstRequest → Deploying pool second secondRequest →
      (∀ firstStep secondStep : ReleaseStep, firstStep.service = firstRequest.service →
        secondStep.service = secondRequest.service →
        ¬(Scheduler.effectiveTenant (schedulingStep (inputs first) firstStep) =
            Scheduler.effectiveTenant (schedulingStep (inputs second) secondStep) ∧
          (schedulingStep (inputs first) firstStep).environment =
            (schedulingStep (inputs second) secondStep).environment ∧
          firstRequest.service = secondRequest.service)) ∧
      (Created (inputs first) → Created (inputs second) →
        ¬((inputs first).tenantID = (inputs second).tenantID ∧
          (inputs first).environment = (inputs second).environment ∧
          firstRequest.service = secondRequest.service))) ∧
    (∀ key (processes : Finset ι), (∀ process ∈ processes, ∃ request step,
        Deploying pool process request ∧ step.service = request.service ∧
        key ∈ Scheduler.keysFor (schedulingStep (inputs process) step)) →
      (processes.card : ℤ) ≤ limits.limit key) ∧
    ∀ process program, pool.processes process = some program →
      (∀ deployment next, program.head = .request (.verify deployment) next →
        ∃ request, Deploying pool process request) ∧
      ∀ rollback next, program.head = .request (.rollback rollback) next →
        ∃ request, Deploying pool process request ∧
          request.service = rollback.deploy.service := by
  have separate := separate_of_newID generated distinct
  refine ⟨?_, card_deploying_le separate created reachable, ?_⟩
  · intro first second firstRequest secondRequest different deploysFirst deploysSecond
    have exclusive := not_deploying_same separate created reachable different deploysFirst
      deploysSecond
    refine ⟨exclusive, ?_⟩
    rintro createdFirst createdSecond ⟨tenant, environment, service⟩
    -- the steps of a service are scheduled alike, so any one will do
    let stepOf (service : String) : ReleaseStep :=
      { service, phase := 0, status := .pending, change := default, verificationRequired := false,
        observationWindow := "", rollbackMode := .automatic }
    have scheduledFirst := schedulingStep_of_created createdFirst (stepOf firstRequest.service)
    have scheduledSecond := schedulingStep_of_created createdSecond (stepOf secondRequest.service)
    refine exclusive (stepOf firstRequest.service) (stepOf secondRequest.service) rfl rfl
      ⟨?_, ?_, service⟩
    · rw [Scheduler.effectiveTenant, Scheduler.effectiveTenant, scheduledFirst.1,
        scheduledSecond.1, tenant]
    · rw [scheduledFirst.2, scheduledSecond.2, environment]
  · intro process program running
    obtain ⟨rest, tries, current⟩ := reachable.localRun reports_of_answers process
    obtain rfl := current program running
    refine ⟨fun deployment next requested => ?_, fun rollback next requested => ?_⟩
    · obtain ⟨request, ongoing⟩ := Tries.ongoing_of_verify tries requested
      exact ⟨request, Or.inr ongoing⟩
    · obtain ⟨request, ongoing, service⟩ := Tries.ongoing_of_rollback tries requested
      exact ⟨request, Or.inr ongoing, service⟩

end Deploying

/-- What the activities return when everything is allowed, except some writes of runs. -/
def workedAnswer (refuses : PersistInput → Bool) (world : Schedules) :
    (op : Op) → op.Res × Schedules
  | .persistRun input =>
    (if refuses input then .error ⟨"store unavailable"⟩ else .ok (Activities.persisted input.run),
      world)
  | .acquireSchedule runID step =>
    let acquired := world.acquireSchedule ⟨20, 20, 0, 100⟩ runID step
    (acquired.1.mapError fun error => ⟨error.text⟩, acquired.2)
  | .completeSchedule runID stepID failed =>
    (.ok (), (world.completeSchedule runID stepID failed).2)
  | op => (smooth op, world)

/-- Every attempt succeeds in telling its outcome. -/
def worker (refuses : PersistInput → Bool) : Strategy requests.attempts Schedules :=
  fun world op =>
    let answered := workedAnswer refuses world op
    (⟨some answered.1, some answered.1⟩, answered.2)

theorem worker_answers {permitted : Permission}
    {refuses : PersistInput → Bool}
    (allowed : ∀ world op, permitted world op (worker refuses world op).1
      (worker refuses world op).2) (world : Schedules) (op : Op) :
    (activities permitted).answers world op (worker refuses world op).1
      (worker refuses world op).2 := by
  refine ⟨⟨nofun, ?_, ?_⟩, ?_, allowed world op⟩
  · rintro _ ⟨⟩
    exact Or.inl rfl
  · rintro _ ⟨⟩
    cases op with
    | persistRun input =>
      simp only [workedAnswer]
      split <;> first | rfl | trivial
    | _ => trivial
  · cases op with
    | acquireSchedule runID step => exact Or.inr ⟨_, rfl, rfl⟩
    | completeSchedule runID stepID failed => exact Or.inr ⟨rfl, rfl⟩
    | _ => rfl

/-- The deployment which a release is about to make. -/
def requestedDeployment {machine : Machine requests.attempts} {ι : Type}
    (pool : Pool machine ι Exit) (process : ι) : Option DeployInput :=
  match (pool.processes process).map Prog.head with
  | some (.request (.deploy request) _) => some request
  | _ => none

theorem deploying_of_requested {ι : Type} [DecidableEq ι]
    {permitted : Permission}
    {pool : Pool (activities permitted) ι Exit} {process : ι} {request : DeployInput}
    (requested : requestedDeployment pool process = some request) :
    Deploying pool process request := by
  unfold requestedDeployment at requested
  split at requested
  · next found =>
    cases requested
    obtain ⟨program, running, asked⟩ := Option.map_eq_some_iff.mp found
    exact Or.inl ⟨program, _, running, asked⟩
  · cases requested

/-- The scheduler of a worker. -/
def NewScheduler (scheduler : Scheduler) : Prop :=
  Scheduler.new Scheduler.defaultLimits ⟨5, 20, .finite (1 / 2)⟩ = .ok scheduler

/-- Plans a release of `api`, makes a scheduler, and shows something of them. -/
def rehearseWorker {Seen : Type} (see : ReleasePlan → Scheduler → Seen) : Except String Seen := do
  let plan ← (rehearse catalog ["api"] id).mapError GoError.text
  let scheduler ← Scheduler.new Scheduler.defaultLimits ⟨5, 20, .finite (1 / 2)⟩
  return see plan scheduler

theorem exists_of_rehearseWorker {Seen : Type} {see : ReleasePlan → Scheduler → Seen} {seen : Seen}
    (eq : rehearseWorker see = .ok seen) : ∃ plan scheduler, Plans catalog ["api"] plan ∧
      NewScheduler scheduler ∧ see plan scheduler = seen := by
  simp only [rehearseWorker, bind_eq_ok, mapError_eq_ok] at eq
  obtain ⟨_, planned, scheduler, created, shown⟩ := eq
  obtain ⟨plan, plans, rfl⟩ := exists_of_rehearse planned
  exact ⟨plan, scheduler, plans, created, Except.ok.inj shown⟩

/-- A run of a plan for `api`, with a random part of its ID. -/
def numberedRun (plan : ReleasePlan) (random : List UInt8) : ReleaseRun :=
  Application.newRun (Application.newID "run" random) 1
    (legacyRequestFromIntent (stagingRelease ["api"])) plan

/-- Releases which a worker carries on in turns, each for a number of requests. -/
def worked {ι : Type} [DecidableEq ι]
    (permitted : Permission)
    (refuses : PersistInput → Bool) (inputs : ι → ReleaseRun) (scheduler : Scheduler)
    (turns : List (ι × ℕ)) : Pool (activities permitted) ι Exit :=
  turns.foldl (fun pool turn => pool.play (worker refuses) turn.2 turn.1)
    (Pool.initial (releases default (fun _ => .stored) inputs) (Schedules.new scheduler))

theorem reachable_worked {ι : Type} [DecidableEq ι]
    {permitted : Permission}
    {refuses : PersistInput → Bool} (allowed : ∀ world op, permitted world op
      (worker refuses world op).1 (worker refuses world op).2) (inputs : ι → ReleaseRun)
    (scheduler : Scheduler) (turns : List (ι × ℕ)) :
    (worked permitted refuses inputs scheduler turns).Reachable
      (releases default (fun _ => .stored) inputs) (Schedules.new scheduler) := by
  rw [worked, ← List.foldr_reverse]
  induction turns.reverse with
  | nil => exact Pool.reachable_initial _ _
  | cons turn _ ih => exact Pool.Reachable.play ih (worker_answers allowed) turn.2 turn.1

/-- While one release deploys a service, another one does not. -/
theorem deploying_exclusive_two_releases :
    ∃ (plan : ReleasePlan) (scheduler : Scheduler)
      (pool : Pool (activities fun _ _ _ _ => True) Bool Exit),
      Plans catalog ["api"] plan ∧ NewScheduler scheduler ∧
      pool.Reachable (releases default (fun _ => .stored) fun process =>
        numberedRun plan [cond process 1 0]) (Schedules.new scheduler) ∧
      (∃ request, Deploying pool false request ∧ request.service = "api") ∧
      ∀ request, Deploying pool true request → request.service ≠ "api" := by
  obtain ⟨plan, scheduler, plans, created, reached⟩ := exists_of_rehearseWorker
    (show rehearseWorker (fun plan scheduler => (requestedDeployment (worked (fun _ _ _ _ => True)
      (fun _ => false) (fun process => numberedRun plan [cond process 1 0]) scheduler
      [(false, 10), (true, 10)]) false).map DeployInput.service) = .ok (some "api")
        by decide +kernel)
  obtain ⟨request, requested, service⟩ := Option.map_eq_some_iff.mp reached
  have deploying := deploying_of_requested requested
  have reachable := @reachable_worked Bool _ (fun _ _ _ _ => True) (fun _ => false)
    (fun _ _ => trivial) (fun process => numberedRun plan [cond process 1 0]) scheduler
    [(false, 10), (true, 10)]
  have byControlPlane : ∀ process : Bool, Created (numberedRun plan [cond process 1 0]) := by
    intro process
    obtain ⟨planner, -, planned⟩ := plans
    exact ⟨planner, default, .stored, 1, 1, _, plan, _, planned, rfl⟩
  refine ⟨plan, scheduler, _, plans, created, reachable, ⟨request, deploying, service⟩, ?_⟩
  intro other deploysToo same
  have distinct : Function.Injective fun process => (numberedRun plan [cond process 1 0]).id := by
    have different : Application.newID "run" [0] ≠ Application.newID "run" [1] := by decide
    rintro (_ | _) (_ | _) eq
    · rfl
    · exact absurd eq different
    · exact absurd eq.symm different
    · rfl
  have exclusive := (deploying_exclusive (fun process => ⟨_, rfl⟩) distinct created reachable).1
    false true request other (by decide) deploying deploysToo
  exact exclusive.2 (byControlPlane false) (byControlPlane true) ⟨rfl, rfl, by rw [service, same]⟩

end Themisy.Workflow.Release
