import Themisy.Workflow.Evidence

/-!
# Steps which have succeeded were deployed

`Deploy` records an execution under the idempotency key of its step and returns the
recorded result to everyone who asks with the same key. The key joins the service and
the version by a slash, and neither is free of slashes, so two steps may share a key;
the second one then succeeds without a deployment. Without such steps, every step
which succeeds was deployed.

The activities of a release are attempted any number of times, interleave and crash.
-/

namespace Themisy.Workflow.Release

open Domain Interaction Planning

/-- Where the name of one service ends cannot be seen from the keys of two changes. -/
def Ambiguous (first second : Change) : Prop :=
  ∃ middle, second.service = first.service ++ "/" ++ middle ∧
    first.desiredVersion = middle ++ "/" ++ second.desiredVersion

theorem not_ambiguous_self (change : Change) : ¬Ambiguous change change := by
  rintro ⟨middle, service, -⟩
  have lengths := congrArg String.length service
  have slash : "/".length = 1 := rfl
  rw [String.length_append, String.length_append] at lengths
  omega

variable {second first : Change}

theorem slash_mem_of_ambiguous (ambiguous : Ambiguous first second) :
    '/' ∈ first.desiredVersion.toList := by
  obtain ⟨middle, -, version⟩ := ambiguous
  simp [version]

theorem idempotencyKey_eq_iff {input : ReleaseRun} {first second : ReleaseStep}
    (firstNamed : first.change.service = first.service)
    (secondNamed : second.change.service = second.service) :
    (deployInput input first).idempotencyKey = (deployInput input second).idempotencyKey ↔
      (first.service = second.service ∧
        first.change.desiredVersion = second.change.desiredVersion) ∨
      Ambiguous first.change second.change ∨ Ambiguous second.change first.change := by
  rw [Ambiguous, Ambiguous, firstNamed, secondNamed, ← GoText.join_eq_join_iff]
  simp only [deployInput, String.append_assoc, String.append_right_inj]

section Changes

variable {planner : Planner} {digest : Digest} {order : IterationOrder String} {now created : Time}
  {intent : ReleaseIntent} {plan : ReleasePlan} {id : String} {step : ReleaseStep}

def plannedRun (id : String) (created : Time) (intent : ReleaseIntent) (plan : ReleasePlan) :
    ReleaseRun :=
  Application.newRun id created (legacyRequestFromIntent intent) plan

section

variable (planned : planner.planIntent digest order now intent = .ok plan)

include planned

theorem services_perm (id : String) (created : Time) :
    ((plannedRun id created intent plan).steps.map ReleaseStep.service).Perm
      (intent.changes.map Change.service) := by
  have same : (plannedRun id created intent plan).steps.map ReleaseStep.service =
      plan.steps.map PlanStep.service :=
    Application.newSteps_services _ _
  rw [same]
  exact (Planner.faithful_of_planIntent planned).ordered.oneStepEach

theorem services_nodup : (intent.changes.map Change.service).Nodup := by
  have ordered := (Planner.faithful_of_planIntent planned).ordered
  exact ordered.oneStepEach.nodup_iff.mp ordered.distinct

omit planned in
theorem find_changesByService {changes : List Change}
    (distinct : (changes.map Change.service).Nodup) {change : Change} (member : change ∈ changes) :
    (Application.changesByService changes).find change.service default = change := by
  have assigned : Application.changesByService changes =
      (changes.map fun change => (change.service, change)).foldl
        (fun (table : GoMap String Change) entry => table.set entry.1 entry.2) ∅ := by
    rw [List.foldl_map]
    rfl
  have listed : (change.service, change) ∈ changes.map fun change => (change.service, change) :=
    List.mem_map_of_mem member
  have services : ((changes.map fun change => (change.service, change)).map Prod.fst).Nodup := by
    rw [List.map_map]
    exact distinct
  rw [assigned]
  exact GoMap.find_foldl_set_of_mem services _ listed _

theorem change_of_mem (member : step ∈ (plannedRun id created intent plan).steps) :
    step.change ∈ intent.changes ∧ step.change.service = step.service ∧ step.status = .pending := by
  have changed := (services_perm planned id created).mem_iff.mp (List.mem_map_of_mem member)
  obtain ⟨change, changeMem, service⟩ := List.mem_map.mp changed
  obtain ⟨phase, -, plannedStep, -, rfl⟩ := Application.exists_planned_of_mem_newSteps member
  have found := find_changesByService (services_nodup planned) changeMem
  rw [service] at found
  have same : (Application.newStep (Application.changesByService
      (legacyRequestFromIntent intent).changes) phase plannedStep).change = change := found
  rw [same]
  exact ⟨changeMem, service, rfl⟩

theorem exists_step_of_change (id : String) (created : Time) {change : Change}
    (member : change ∈ intent.changes) :
    ∃ step ∈ (plannedRun id created intent plan).steps, step.change = change := by
  have listed := (services_perm planned id created).mem_iff.mpr
    (List.mem_map_of_mem member)
  obtain ⟨step, stepMem, service⟩ := List.mem_map.mp listed
  obtain ⟨changeMem, named, -⟩ := change_of_mem planned stepMem
  refine ⟨step, stepMem, ?_⟩
  exact List.inj_on_of_nodup_map (services_nodup planned) changeMem member (named.trans service)

/-- The keys of two different steps are different unless their changes are ambiguous. -/
theorem unambiguous_iff_keys (id : String) (created : Time) :
    (∀ first ∈ intent.changes, ∀ second ∈ intent.changes, ¬Ambiguous first second) ↔
      (plannedRun id created intent plan).steps.Pairwise fun first second =>
        (deployInput (plannedRun id created intent plan) first).idempotencyKey ≠
          (deployInput (plannedRun id created intent plan) second).idempotencyKey := by
  constructor
  · intro unambiguous
    have distinct : (plannedRun id created intent plan).steps.Pairwise fun first second =>
        first.service ≠ second.service :=
      List.pairwise_map.mp
        ((services_perm planned id created).nodup_iff.mpr (services_nodup planned))
    refine distinct.imp_of_mem fun {first second} firstMem secondMem different same => ?_
    obtain ⟨firstChange, firstNamed, -⟩ := change_of_mem planned firstMem
    obtain ⟨secondChange, secondNamed, -⟩ := change_of_mem planned secondMem
    rcases (idempotencyKey_eq_iff firstNamed secondNamed).mp same with ⟨equal, -⟩ | forth | back
    · exact different equal
    · exact unambiguous _ firstChange _ secondChange forth
    · exact unambiguous _ secondChange _ firstChange back
  · intro keys first firstMem second secondMem ambiguous
    obtain ⟨firstStep, firstStepMem, rfl⟩ := exists_step_of_change planned id created firstMem
    obtain ⟨secondStep, secondStepMem, rfl⟩ := exists_step_of_change planned id created secondMem
    have different : firstStep ≠ secondStep := by
      rintro rfl
      exact not_ambiguous_self _ ambiguous
    have symmetric : Std.Symm fun first second =>
        (deployInput (plannedRun id created intent plan) first).idempotencyKey ≠
          (deployInput (plannedRun id created intent plan) second).idempotencyKey :=
      ⟨fun _ _ other => Ne.symm other⟩
    refine keys.forall firstStepMem secondStepMem different ?_
    obtain ⟨-, firstNamed, -⟩ := change_of_mem planned firstStepMem
    obtain ⟨-, secondNamed, -⟩ := change_of_mem planned secondStepMem
    exact (idempotencyKey_eq_iff firstNamed secondNamed).mpr (Or.inr (Or.inl ambiguous))

end

end Changes

/-- The activity over the shared store which a request asks for. -/
def Op.invocation : Op → Option Activities.Invocation
  | deploy request => some (.deploy request)
  | rollback request => some (.rollback request)
  | _ => none

/-- The activities of a release: what was requested, and any number of attempts at each. -/
structure Workers where
  requested : List Activities.Invocation
  pool : Pool Activities.sharedStore (Activities.Invocation × ℕ)
    (Except ActivityError DeployResult)

/-- The successes which the workflow can see: an attempt has returned them. -/
def Returned (pool : Pool Activities.sharedStore (Activities.Invocation × ℕ)
    (Except ActivityError DeployResult)) : (op : Op) → op.Res → Prop
  | .deploy request, .ok result =>
    ∃ attempt, pool.processes (.deploy request, attempt) = some (.pure (.ok result))
  | .rollback request, .ok result =>
    ∃ attempt, pool.processes (.rollback request, attempt) = some (.pure (.ok result))
  | op, answer => Legal op answer

/-- Until a request is answered, attempts at what was requested so far go on. -/
structure Workers.Serves (workers : Workers) (op : Op) (answer : op.Res) (next : Workers) :
    Prop where
  requested : next.requested = workers.requested ++ op.invocation.toList
  advances : Relation.ReflTransGen Pool.Step workers.pool next.pool
  attempts : ∀ entry ∈ next.pool.trace, entry.1.1 ∈ next.requested
  returned : Returned next.pool op answer

def workers : Machine requests where
  World := Workers
  answers := Workers.Serves

/-- Nothing was requested yet. -/
def Workers.new (activities : Activities) (memory : Store.Memory) : Workers where
  requested := []
  pool := Pool.initial (Activities.code activities Prod.fst) memory

def executed (trace : List ((Activities.Invocation × ℕ) × Event Activities.requests)) :
    List DeployRequest :=
  trace.filterMap fun
    | (_, ⟨.execute (.deploy request), _⟩) => some request
    | _ => none

section Workers

variable {activities : Activities} {memory : Store.Memory}

theorem legal_of_serves (workers : Workers) (op : Op) (answer : op.Res) (next : Workers)
    (serves : Release.workers.answers workers op answer next) : Legal op answer := by
  have returned := serves.returned
  cases op with
  | deploy | rollback => trivial
  | _ => exact returned

theorem Succeeded.steps {pool next : Pool Activities.sharedStore (Activities.Invocation × ℕ)
      (Except ActivityError DeployResult)} {place externalID : String}
    (steps : Relation.ReflTransGen Pool.Step pool next)
    (succeeded : Activities.Succeeded activities Prod.fst pool.trace place externalID) :
    Activities.Succeeded activities Prod.fst next.trace place externalID := by
  induction steps with
  | refl => exact succeeded
  | tail _ step ih =>
    cases step with
    | act => exact ih.append _
    | crash => exact ih

/-- What the attempts have done, given what the workflow has seen. -/
structure Accounted (activities : Activities) (memory : Store.Memory) (workers : Workers)
    (history : History) : Prop where
  reachable : Pool.Reachable (Activities.code activities Prod.fst) memory workers.pool
  requested : workers.requested = history.filterMap fun event => event.1.invocation
  attempts : ∀ entry ∈ workers.pool.trace, entry.1.1 ∈ workers.requested
  succeeded : ∀ request result, (⟨.deploy request, .ok result⟩ : Event requests) ∈ history →
    Activities.Succeeded activities Prod.fst workers.pool.trace
      (activities.deployWrite request).place result.deployment.externalID

theorem Accounted.step {world next : Workers} {history : History} {op : Op}
    {answer : op.Res} (unfinished : Activities.Unfinished memory)
    (accounted : Accounted activities memory world history)
    (serves : world.Serves op answer next) :
    Accounted activities memory next (history ++ [⟨op, answer⟩]) := by
  have reachable : Pool.Reachable (Activities.code activities Prod.fst) memory next.pool :=
    accounted.reachable.trans serves.advances
  refine ⟨reachable, ?_, serves.attempts, ?_⟩
  · rw [serves.requested, accounted.requested, List.filterMap_append]
    cases op <;> rfl
  · intro request result member
    rcases List.mem_append.mp member with earlier | last
    · exact Succeeded.steps serves.advances (accounted.succeeded request result earlier)
    · cases List.mem_singleton.mp last
      obtain ⟨attempt, returned⟩ := serves.returned
      exact (Activities.succeeded_of_returned unfinished reachable returned).2

theorem accounted_of_runs {digest : Digest} {order : StepOrder}
    {input : ReleaseRun} {events : History} {last : Workers}
    {rest : Prog requests Exit} (unfinished : Activities.Unfinished memory)
    (ran : Runs workers (Workers.new activities memory) (releaseWorkflow digest order input) events
      last rest) : Accounted activities memory last events := by
  have start : Accounted activities memory (Workers.new activities memory) [] :=
    ⟨Pool.reachable_initial _ _, rfl, by simp [Workers.new, Pool.initial], by simp⟩
  exact ran.invariant (Accounted activities memory)
    (fun _ _ _ _ _ accounted serves => accounted.step unfinished serves) start

end Workers

section Deployed

variable {digest : Digest} {order : StepOrder} {total : ℕ}
  {input : ReleaseRun} {history : History} {location : Location}

variable {request : DeployInput}

theorem Verified.deployed {result : VerificationResult}
    (verified : Verified (Deploys request) history result) :
    ∃ deployed, (⟨.deploy request, .ok deployed⟩ : Event requests) ∈ history := by
  obtain ⟨before, deployment, after, rfl, earlier, event, later, rfl, ⟨deployed, rfl, -⟩, -⟩ :=
    verified
  exact ⟨deployed, by simp⟩

theorem Reaches.seen (reached : Reaches digest order total input history location) :
    ∀ run ∈ location.run, ∀ (index : ℕ) (original : ReleaseStep),
      input.steps[index]? = some original → original.status ≠ .succeeded →
      (statuses run)[index]? = some .succeeded →
      ∃ deployed, (⟨.deploy (Release.deployInput input original), .ok deployed⟩ :
        Event requests) ∈ history := by
  induction reached with
  | start =>
    rintro run ⟨⟩ index original found fresh now
    simp [statuses, found, fresh] at now
  | @move history location next event reached moves ih =>
    intro later member index original found fresh now
    obtain ⟨run, runMem, -⟩ := moves.outline
    rcases moves.gains runMem member (Or.inl rfl) now with before | gains
    · obtain ⟨deployed, seen⟩ := ih run runMem index original found fresh before
      exact ⟨deployed, List.mem_append_left _ seen⟩
    · cases gains with
      | unverified deployed =>
        obtain ⟨same, here, outline⟩ := reached.step rfl
        obtain rfl : same = original := by simpa [here] using found
        rw [← deployInput_eq_of_outline (reached.outline run runMem) outline]
        cases runMem
        exact ⟨deployed, by simp⟩
      | verified =>
        obtain ⟨same, here, eq⟩ := reached.deployInput rfl
        obtain rfl : same = original := by simpa [here] using found
        obtain ⟨deployed, seen⟩ := Verified.deployed reached.trail
        rw [← eq]
        exact ⟨deployed, List.mem_append_left _ seen⟩

theorem Reaches.mem_deployments (pending : ∀ step ∈ input.steps, step.status = .pending)
    (reached : Reaches digest order input.steps.length input history location)
    (member : Activities.Invocation.deploy request ∈
      history.filterMap fun event => event.1.invocation) :
    ∃ step ∈ input.steps, request = Release.deployInput input step := by
  have listed : request ∈ deployments history := by
    obtain ⟨event, eventMem, requested⟩ := List.mem_filterMap.mp member
    obtain ⟨op, answer⟩ := event
    refine List.mem_filterMap.mpr ⟨_, eventMem, ?_⟩
    cases op with
    | deploy made =>
      cases requested
      rfl
    | _ => cases requested
  rw [(reached.fits pending).2] at listed
  obtain ⟨step, stepMem, rfl⟩ := List.mem_map.mp listed
  exact ⟨step, List.mem_of_mem_take stepMem, rfl⟩

end Deployed

/-- The executor was called with the change of the step. -/
def Executed (trace : List ((Activities.Invocation × ℕ) × Event Activities.requests))
    (run : ReleaseRun) (step : ReleaseStep) : Prop :=
  ∃ request ∈ executed trace, request.service = step.service ∧
    request.environment = run.environment.text ∧
    request.desiredVersion = step.change.desiredVersion

section Main

variable {planner : Planner} {digest : Digest} {order : IterationOrder String} {now created : Time}
  {intent : ReleaseIntent} {plan : ReleasePlan} {id : String}

/-- A success which the workflow has seen for one of the steps comes from its own deployment. -/
theorem executed_of_succeeded {activities : Activities} {memory : Store.Memory} {last : Workers}
    {waves : StepOrder} {history : History} {location : Location}
    {step : ReleaseStep} {externalID : String}
    (planned : planner.planIntent digest order now intent = .ok plan)
    (unambiguous : ∀ first ∈ intent.changes, ∀ second ∈ intent.changes, ¬Ambiguous first second)
    (reached : Reaches digest waves (plannedRun id created intent plan).steps.length
      (plannedRun id created intent plan) history location)
    (accounted : Accounted activities memory last history)
    (member : step ∈ (plannedRun id created intent plan).steps)
    (succeeded : Activities.Succeeded activities Prod.fst last.pool.trace
      (activities.deployWrite (deployInput (plannedRun id created intent plan) step)).place
        externalID) :
    Executed last.pool.trace (plannedRun id created intent plan) step := by
  obtain ⟨process, ⟨deployment, called, -⟩, place⟩ := succeeded
  have entry := Discipline.mem_localTrace.mp called
  have samePlace : (process.1.write activities).place =
      ((Activities.Invocation.deploy (deployInput (plannedRun id created intent plan) step)).write
        activities).place := place
  obtain ⟨sameKey, deploys⟩ := Activities.Invocation.key_eq_of_place_eq samePlace
  have requested := accounted.attempts _ entry
  rw [accounted.requested] at requested
  obtain ⟨invocation, attempt⟩ := process
  cases invocation with
  | rollback => cases deploys
  | deploy request =>
    have pending : ∀ step ∈ (plannedRun id created intent plan).steps,
        step.status = .pending := fun step member => (change_of_mem planned member).2.2
    obtain ⟨other, otherMem, rfl⟩ := reached.mem_deployments pending requested
    obtain ⟨otherChange, otherNamed, -⟩ := change_of_mem planned otherMem
    obtain ⟨stepChange, stepNamed, -⟩ := change_of_mem planned member
    have keys := (idempotencyKey_eq_iff otherNamed stepNamed).mp (congrArg Prod.snd sameKey)
    rcases keys with ⟨service, version⟩ | forth | back
    · exact ⟨_, List.mem_filterMap.mpr ⟨_, entry, rfl⟩, service, rfl, version⟩
    · exact absurd forth (unambiguous _ otherChange _ stepChange)
    · exact absurd back (unambiguous _ stepChange _ otherChange)

/--
Two different steps of a planned release have different idempotency keys exactly
if no two of the changes are ambiguous. In this case every step which has
succeeded, in any run which the release persists or returns, was deployed by a
call of the executor with its service, its environment and its version.
-/
theorem deployed_of_succeeded (planned : planner.planIntent digest order now intent = .ok plan) :
    ((∀ first ∈ intent.changes, ∀ second ∈ intent.changes, ¬Ambiguous first second) ↔
      (plannedRun id created intent plan).steps.Pairwise fun first second =>
        (deployInput (plannedRun id created intent plan) first).idempotencyKey ≠
          (deployInput (plannedRun id created intent plan) second).idempotencyKey) ∧
    ((∀ first ∈ intent.changes, ∀ second ∈ intent.changes, ¬Ambiguous first second) →
      ∀ (activities : Activities) (memory : Store.Memory) (waves : StepOrder)
        (events : History) (last : Workers) (rest : Prog requests Exit)
        (run : ReleaseRun), memory.executions = ∅ →
        Runs workers (Workers.new activities memory)
          (releaseWorkflow digest waves (plannedRun id created intent plan)) events last rest →
        Shows rest run → ∀ step ∈ run.steps, step.status = .succeeded →
          Executed last.pool.trace run step) := by
  refine ⟨unambiguous_iff_keys planned id created, ?_⟩
  intro unambiguous activities memory waves events last rest run empty ran shown step member
    succeeded
  have unfinished : Activities.Unfinished memory := by
    intro place record present
    rw [empty, GoMap.get?_empty] at present
    cases present
  have accounted := accounted_of_runs unfinished ran
  obtain ⟨location, reached, runMem⟩ := exists_reaches_of_shows legal_of_serves ran shown
  obtain ⟨index, here⟩ := List.mem_iff_getElem?.mp member
  have outline := reached.outline run runMem
  have same := getElem?_of_outline outline index
  rw [here, Option.map_some, eq_comm, Option.map_eq_some_iff] at same
  obtain ⟨original, found, sameStep⟩ := same
  have originalMem := List.mem_of_getElem? found
  obtain ⟨-, -, pending⟩ := change_of_mem planned originalMem
  have now : (statuses run)[index]? = some .succeeded := by
    rw [statuses, List.getElem?_map, here, Option.map_some, succeeded]
  obtain ⟨deployed, seen⟩ := reached.seen run runMem index original found (by simp [pending]) now
  obtain ⟨request, called, service, environment, version⟩ := executed_of_succeeded planned
    unambiguous reached accounted originalMem (accounted.succeeded _ _ seen)
  refine ⟨request, called, ?_, ?_, ?_⟩
  · exact service.trans (congrArg ReleaseStep.service sameStep :)
  · exact environment.trans (congrArg (fun run => run.environment.text) outline :).symm
  · exact version.trans (congrArg (fun step => step.change.desiredVersion) sameStep :)

end Main

/-- Let the first attempt at an activity run while nothing fails. -/
def Workers.attempt (workers : Workers) (invocation : Activities.Invocation) : Workers where
  requested := workers.requested ++ [invocation]
  pool := workers.pool.play (Activities.cooperate ⟨"external", 1, 2⟩) 20 (invocation, 0)

/-- The activities succeed at their first attempt, and every verification passes. -/
def succeedsAtOnce : Strategy requests Workers
  | workers, .deploy request =>
    let next := workers.attempt (.deploy request)
    match next.pool.returned (.deploy request, 0) with
    | some (.ok result) => (.ok result, next)
    | _ => (.error ⟨"deployment failed"⟩, next)
  | workers, .rollback request =>
    (.error ⟨"rollback failed"⟩,
      { workers with requested := workers.requested ++ [.rollback request] })
  | workers, op => (smooth op, workers)

/-- Every attempt is one at a requested activity. -/
abbrev Workers.Orderly (workers : Workers) : Prop :=
  ∀ entry ∈ workers.pool.trace, entry.1.1 ∈ workers.requested

theorem serves_succeedsAtOnce (world : workers.World) (op : Op)
    (orderly : Workers.Orderly (succeedsAtOnce world op).2) :
    workers.answers world op (succeedsAtOnce world op).1 (succeedsAtOnce world op).2 := by
  have allowed : ∀ memory op, Activities.sharedStore.answers memory op
      (Activities.cooperate ⟨"external", 1, 2⟩ memory op).1
      (Activities.cooperate ⟨"external", 1, 2⟩ memory op).2 :=
    Activities.storeEffect_cooperate _
  cases op with
  | deploy request =>
    simp only [succeedsAtOnce] at orderly ⊢
    split
    · next result returned =>
      simp only [returned] at orderly
      exact ⟨rfl, Pool.steps_play allowed _ _ _, orderly, 0,
        Pool.processes_of_returned returned⟩
    · exact ⟨rfl, Pool.steps_play allowed _ _ _, by split at orderly <;> exact orderly, trivial⟩
  | rollback request => exact ⟨rfl, .refl, orderly, trivial⟩
  | persistRun => exact ⟨(List.append_nil _).symm, .refl, orderly, rfl⟩
  | _ => exact ⟨(List.append_nil _).symm, .refl, orderly, trivial⟩

/-- A release of two services into staging. -/
def twoServices (first second : Change) : ReleaseIntent :=
  { stagingRelease [] with changes := [first, second] }

/--
The outcome of a release of two services: whether it is orderly, the steps and the
calls of the executor.
-/
def releaseTwo (first second : Change) :
    Except GoError (Bool × Option (List (String × StepStatus)) × List DeployRequest) :=
  rehearseFrom default
    [Contract.stagingContract first.service [], Contract.stagingContract second.service []]
    (twoServices first second) fun plan =>
      let release := releaseWorkflow default .stored
        (plannedRun "run" 1 (twoServices first second) plan)
      let start := Workers.new ⟨"mock"⟩ Store.newMemory
      let played := play succeedsAtOnce 60 start release
      .ok (accepted (fun workers op => (succeedsAtOnce workers op).2.Orderly) succeedsAtOnce 60
        start release,
        ended (fun run => run.steps.map fun step => (step.service, step.status)) played.2.2,
        executed played.2.1.pool.trace)

/-- A release of two services which returned a run. -/
structure ReleasesTwo (first second : Change) (plan : ReleasePlan) (last : Workers)
    (run : ReleaseRun) : Prop where
  plans : ∃ planner, PlansFrom default
    [Contract.stagingContract first.service [], Contract.stagingContract second.service []]
    (twoServices first second) planner plan
  ran : ∃ events, Runs workers (Workers.new ⟨"mock"⟩ Store.newMemory)
    (releaseWorkflow default .stored (plannedRun "run" 1 (twoServices first second) plan)) events
    last (.pure (.ok run))

theorem exists_releasesTwo {steps : List (String × StepStatus)} {calls : List DeployRequest}
    (released : releaseTwo first second = .ok (true, some steps, calls)) :
    ∃ plan last run, ReleasesTwo first second plan last run ∧
      (run.steps.map fun step => (step.service, step.status)) = steps ∧
      executed last.pool.trace = calls := by
  obtain ⟨planner, plan, plans, returned⟩ := exists_of_rehearseFrom released
  simp only [Except.ok.injEq, Prod.mk.injEq] at returned
  obtain ⟨orderly, finished, called⟩ := returned
  obtain ⟨run, exited, shape⟩ := exists_of_ended finished
  have ran := runs_play_of_accepted (fun world op accepting =>
    serves_succeedsAtOnce world op (of_decide_eq_true accepting)) orderly
  exact ⟨plan, _, run, ⟨⟨planner, plans⟩, _, exited ▸ ran⟩, shape, called⟩

/-- The second service succeeds although only the first one was deployed. -/
theorem succeeded_without_deployment :
    let first : Change := { service := "a", desiredVersion := "b/c" }
    let second : Change := { service := "a/b", desiredVersion := "c" }
    ∃ plan last run step, ReleasesTwo first second plan last run ∧
      step ∈ run.steps ∧ step.status = .succeeded ∧ ¬Executed last.pool.trace run step ∧
      let started := plannedRun "run" 1 (twoServices first second) plan
      ¬started.steps.Pairwise fun left right =>
        (deployInput started left).idempotencyKey ≠ (deployInput started right).idempotencyKey := by
  intro first second
  obtain ⟨plan, last, run, releases, steps, called⟩ := exists_releasesTwo
    (show releaseTwo first second = .ok (true, some [("a", .succeeded), ("a/b", .succeeded)],
      [⟨"a", "staging", "b/c", "run/staging/a/b/c"⟩]) by decide +kernel)
  have listed : ("a/b", StepStatus.succeeded) ∈
      run.steps.map fun step => (step.service, step.status) := by
    rw [steps]
    simp
  obtain ⟨step, stepMem, fields⟩ := List.mem_map.mp listed
  obtain ⟨service, succeeded⟩ := Prod.mk.inj fields
  obtain ⟨planner, plans⟩ := releases.plans
  refine ⟨plan, last, run, step, releases, stepMem, succeeded, ?_, ?_⟩
  · rintro ⟨request, executed, same, -⟩
    rw [called, List.mem_singleton] at executed
    subst executed
    rw [service] at same
    revert same
    decide
  · intro started
    rw [← unambiguous_iff_keys plans.planned "run" 1]
    intro unambiguous
    have ambiguous : Ambiguous first second := ⟨"b", by decide, by decide⟩
    exact unambiguous first (by decide) second (by decide) ambiguous

/-- Two services without slashes are both deployed. -/
theorem deployed_of_succeeded_two_services :
    let first : Change := { service := "a", desiredVersion := "1" }
    let second : Change := { service := "b", desiredVersion := "2" }
    ∃ plan last run, ReleasesTwo first second plan last run ∧
      statuses run = [.succeeded, .succeeded] ∧
      ∀ step ∈ run.steps, Executed last.pool.trace run step := by
  intro first second
  obtain ⟨plan, last, run, releases, steps, -⟩ := exists_releasesTwo
    (show releaseTwo first second = .ok (true, some [("a", .succeeded), ("b", .succeeded)],
      [⟨"a", "staging", "1", "run/staging/a/1"⟩, ⟨"b", "staging", "2", "run/staging/b/2"⟩])
        by decide +kernel)
  have all : statuses run = [.succeeded, .succeeded] := by
    have seconds := congrArg (List.map Prod.snd) steps
    rw [List.map_map] at seconds
    exact seconds
  have plain : ∀ left ∈ (twoServices first second).changes, '/' ∉ left.desiredVersion.toList := by
    decide
  obtain ⟨planner, plans⟩ := releases.plans
  obtain ⟨events, ran⟩ := releases.ran
  refine ⟨plan, last, run, releases, all, fun step member => ?_⟩
  have succeeded : step.status = .succeeded := by
    have listed : step.status ∈ statuses run := List.mem_map_of_mem member
    rw [all] at listed
    simpa using listed
  exact (deployed_of_succeeded plans.planned).2 (fun left leftMem right _ ambiguous =>
    plain left leftMem (slash_mem_of_ambiguous ambiguous)) _ _ _ _ _ _ run rfl ran (.returns run)
    step member succeeded

end Themisy.Workflow.Release
