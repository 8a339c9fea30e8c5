import Themisy.Engine.Control
import Themisy.Interaction.Play

/-!
# Sessions on the synchronous engine

In a session calls follow each other on one store; a call may be lost half-way and
operations may fail before or after their effect. `Cancel`, `Pause` and `Resume` look
at the status of the run, but `DecideApproval` looks only at the approval, which the
others leave pending. A decision on it puts a cancelled or paused run back to work.

Every other call honours both statuses: so do all sessions without such decisions.
-/

namespace Themisy.Engine

open Domain Store Interaction

/-- How the store changes when a request is answered. -/
def StoreEffect (memory : Memory) : (op : Op) → op.Res → Memory → Prop
  | .newID kind, answer, next => (∃ bytes, answer = Application.newID kind bytes) ∧ next = memory
  | .createRun run, answer, next => Performs memory (memory.createRunAtomic run [] []) answer next
  | .getRun id, answer, next => Performs memory ((memory.getRun id).map (·, memory)) answer next
  | .updateRun run expectedVersion, answer, next =>
    Performs memory (((memory.updateRunAtomic run expectedVersion [] []).map Prod.snd).map ((), ·))
      answer next
  | .appendAudit event, answer, next =>
    Performs memory (.ok ((), memory.appendAudit event) : Except StoreError _) answer next
  | _, _, next => next = memory

/-- Calls on one store; the clock, the policy engine and the executor are arbitrary. -/
def oneStore : Machine requests where
  World := Memory
  answers := StoreEffect

def Stored (status : RunStatus) (memory : Memory) (id : String) : Prop :=
  (memory.runs.get? id).map ReleaseRun.status = some status

/-- Runs are stored under their own identifiers, which have no slash. -/
def Kept (memory : Memory) : Prop :=
  ∀ id run, memory.runs.get? id = some run → run.id = id ∧ '/' ∉ id.toList

variable {op : Op} {status : RunStatus} {act : Act}

section Effects

variable {memory next : Memory} {operation : Operation}

theorem legal_of_oneStore (memory : Memory) (op : Op) (answer : op.Res) (next : Memory)
    (effect : oneStore.answers memory op answer next) : Legal op answer := by
  cases op with
  | newID kind => exact effect.1
  | _ => trivial

theorem found_of_getRun {id : String} {run : ReleaseRun}
    (effect : StoreEffect memory (.getRun id) (.ok run) next) :
    memory.runs.get? id = some run := by
  cases effect with
  | returned eq =>
    unfold Memory.getRun at eq
    split at eq
    · next found =>
      cases eq
      exact found
    · cases eq

theorem storeEffect_cases {answer : op.Res} (effect : StoreEffect memory op answer next) :
    next.runs = memory.runs ∨
      (∃ run, op = .createRun run ∧ memory.runs.get? run.id = none ∧
        next.runs = memory.runs.set run.id run) ∨
      ∃ run version, op = .updateRun run version ∧ (memory.runs.get? run.id).isSome ∧
        next.runs = memory.runs.set run.id (run.advanced version) := by
  cases op with
  | createRun run =>
    rcases effect.eq_or with rfl | ⟨⟨answered, created⟩, eq⟩
    · exact Or.inl rfl
    · rcases Memory.createRunAtomic_cases eq with ⟨-, rfl, -⟩ | ⟨-, -, -, absent, rfl⟩
      · exact Or.inl rfl
      · exact Or.inr (Or.inl ⟨run, rfl, absent, by rw [Memory.runs_appendAtomic]; rfl⟩)
  | getRun id => exact Or.inl (congrArg Memory.runs effect.eq_of_read)
  | updateRun run version =>
    rcases effect.eq_or_of_write with rfl | eq
    · exact Or.inl rfl
    · cases result : memory.updateRunAtomic run version [] [] with
      | error error =>
        rw [result] at eq
        cases eq
      | ok updated =>
        rw [result] at eq
        cases eq
        obtain ⟨current, found, -⟩ := Memory.exists_of_updateRunAtomic result
        obtain ⟨same, after⟩ := Memory.eq_of_updateRunAtomic result
        refine Or.inr (Or.inr ⟨run, version, rfl, by rw [found]; rfl, ?_⟩)
        rw [after, Memory.runs_appendAtomic, same]
        rfl
  | appendAudit event =>
    rcases effect.eq_or with rfl | ⟨_, ⟨⟩⟩ <;> exact Or.inl rfl
  | newID kind => exact Or.inl (congrArg Memory.runs effect.2)
  | now | iterationOrder | evaluate | deploy | verify | rollback =>
    exact Or.inl (congrArg Memory.runs effect)

theorem absent_of_createRun {run answered : ReleaseRun}
    (effect : StoreEffect memory (.createRun run) (.ok (answered, true)) next) :
    memory.runs.get? run.id = none := by
  cases effect with
  | returned eq =>
    rcases Memory.createRunAtomic_cases eq with ⟨impossible, -⟩ | ⟨-, -, -, absent, -⟩
    · cases impossible
    · exact absent

end Effects

def Operation.imposes : Operation → Option RunStatus
  | cancel _ _ => some .cancelled
  | pause _ _ => some .paused
  | _ => none

/-- What holds while a call is carried out which began with the store `memory`. -/
structure Along (operation : Operation) (memory world : Memory) (history : History) :
    Prop where
  kept : Kept world
  start : history = [] → world = memory
  first : ∀ runID run rest, history = ⟨.getRun runID, .ok run⟩ :: rest →
    memory.runs.get? runID = some run
  reads : ∀ runID run, ⟨.getRun runID, .ok run⟩ ∈ history →
    run.id = runID ∧ '/' ∉ runID.toList
  created : ∀ run answer, ⟨.createRun run, .ok (answer, true)⟩ ∈ history →
    memory.runs.get? run.id = none ∧ '/' ∉ run.id.toList
  remains : ∀ id, (memory.runs.get? id).isSome → (world.runs.get? id).isSome
  changed : ∀ id status, Stored status world id →
    Stored status memory id ∨ (Act.update status).advances ∨ operation.imposes = some status

section Along

variable {operation : Operation} {memory world next : Memory} {history : History}
  {id : String}

theorem Stored.isSome (stored : Stored status memory id) : (memory.runs.get? id).isSome := by
  unfold Stored at stored
  cases found : memory.runs.get? id with
  | none =>
    rw [found] at stored
    cases stored
  | some run => rfl

theorem Stored.slash_notMem (stored : Stored status memory id) (kept : Kept memory) :
    '/' ∉ id.toList := by
  obtain ⟨run, found⟩ := Option.isSome_iff_exists.mp stored.isSome
  exact (kept id run found).2

theorem Operation.imposes_of_permits (permitted : operation.Permits history id (.update status)) :
    (Act.update status).advances ∨ operation.imposes = some status := by
  cases operation with
  | start request => exact Or.inl permitted.1
  | decideApproval runID approvalID actor roles approve =>
    obtain ⟨⟨first, rest, -, guarded⟩, -⟩ := permitted
    exact Or.inl guarded.1
  | cancel runID actor | pause runID actor =>
    obtain ⟨⟨first, rest, -, -, eq⟩, -⟩ := permitted
    cases eq
    exact Or.inr rfl
  | resume runID actor =>
    obtain ⟨⟨first, rest, -, guarded⟩, -⟩ := permitted
    exact Or.inl guarded.2

theorem Operation.eq_of_imposes (imposed : operation.imposes = some status)
    (permitted : operation.Permits history id act) : act = .update status := by
  cases operation with
  | cancel runID actor | pause runID actor =>
    cases imposed
    obtain ⟨⟨first, rest, -, -, eq⟩, -⟩ := permitted
    exact eq
  | start | decideApproval | resume => cases imposed

theorem along_nil (kept : Kept memory) : Along operation memory memory [] where
  kept := kept
  start _ := rfl
  first := by simp
  reads := by simp
  created := by simp
  remains _ stored := stored
  changed _ _ stored := Or.inl stored

theorem Kept.set (kept : Kept world) (run : ReleaseRun)
    (runs : next.runs = world.runs.set run.id run) (plain : '/' ∉ run.id.toList) : Kept next := by
  intro other stored found
  rw [runs, GoMap.get?_set] at found
  split at found
  · next same =>
    cases found
    rw [same]
    exact ⟨rfl, plain⟩
  · exact kept other stored found

theorem stored_of_set (run : ReleaseRun) (runs : next.runs = world.runs.set run.id run)
    (stored : Stored status next id) :
    run.id = id ∧ run.status = status ∨ Stored status world id := by
  unfold Stored at stored
  rw [runs, GoMap.get?_set] at stored
  split at stored
  · next same => exact Or.inl ⟨same.symm, Option.some.inj stored⟩
  · exact Or.inr stored

/-- Every permitted request keeps what holds along a call. -/
theorem Along.step (along : Along operation memory world history) {answer : op.Res}
    (permitted : Acting operation.Permits history op) (effect : StoreEffect world op answer next) :
    Along operation memory next (history ++ [⟨op, answer⟩]) := by
  have effects := storeEffect_cases effect
  constructor
  case kept =>
    rcases effects with same | ⟨run, rfl, -, runs⟩ | ⟨run, version, rfl, stored, runs⟩
    · intro id run found
      rw [same] at found
      exact along.kept id run found
    · obtain ⟨-, bytes, generated⟩ := permitted
      refine along.kept.set _ runs ?_
      rw [generated]
      exact Application.slash_notMem_newID_run bytes
    · obtain ⟨current, found⟩ := Option.isSome_iff_exists.mp stored
      exact along.kept.set (run.advanced version) runs
        (along.kept _ _ found).2
  case start => simp
  case first =>
    intro runID run rest eq
    cases history with
    | nil =>
      cases eq
      have found := found_of_getRun effect
      rw [along.start rfl] at found
      exact found
    | cons event earlier =>
      rw [List.cons_append, List.cons.injEq] at eq
      exact along.first runID run earlier (by rw [eq.1])
  case reads =>
    intro runID run member
    rcases List.mem_append.mp member with earlier | last
    · exact along.reads runID run earlier
    · cases List.mem_singleton.mp last
      exact along.kept runID run (found_of_getRun effect)
  case created =>
    intro run answered member
    rcases List.mem_append.mp member with earlier | last
    · exact along.created run answered earlier
    · cases List.mem_singleton.mp last
      obtain ⟨-, bytes, generated⟩ := permitted
      refine ⟨?_, by rw [generated]; exact Application.slash_notMem_newID_run bytes⟩
      have absent := absent_of_createRun effect
      by_contra stored
      have present := along.remains run.id (Option.isSome_iff_ne_none.mpr stored)
      rw [absent] at present
      cases present
  case remains =>
    intro id stored
    have present := along.remains id stored
    rcases effects with same | ⟨run, -, -, runs⟩ | ⟨run, version, -, -, runs⟩
    · rw [same]
      exact present
    · rw [runs, GoMap.get?_set]
      split
      · rfl
      · exact present
    · rw [runs, GoMap.get?_set]
      split
      · rfl
      · exact present
  case changed =>
    intro id status stored
    rcases effects with same | ⟨run, rfl, -, runs⟩ | ⟨run, version, rfl, -, runs⟩
    · unfold Stored at stored
      rw [same] at stored
      exact along.changed id status stored
    · rcases stored_of_set run runs stored with ⟨-, eq⟩ | before
      · rw [← eq, permitted.1]
        exact Or.inr (Or.inl rfl)
      · exact along.changed id status before
    · rcases stored_of_set (run.advanced version) runs stored with
        ⟨-, eq⟩ | before
      · rw [← eq]
        exact Or.inr (Operation.imposes_of_permits permitted)
      · exact along.changed id status before

theorem Along.slash_notMem (along : Along operation memory world history)
    (permitted : operation.Permits history id act) : '/' ∉ id.toList := by
  unfold Operation.Permits at permitted
  split at permitted
  · obtain ⟨-, run, answer, member, rfl⟩ := permitted
    exact (along.created run answer member).2
  · obtain ⟨-, read, member, rfl⟩ := permitted
    obtain ⟨same, plain⟩ := along.reads _ read member
    rw [same]
    exact plain

theorem eq_of_append_slash {first second left right : String} (firstPlain : '/' ∉ first.toList)
    (secondPlain : '/' ∉ second.toList) (eq : first ++ "/" ++ left = second ++ "/" ++ right) :
    first = second := by
  have lists : first.toList ++ '/' :: left.toList = second.toList ++ '/' :: right.toList := by
    simpa using congrArg String.toList eq
  rcases GoText.append_cons_eq_append_cons_iff.mp lists with ⟨same, -⟩ | ⟨middle, same, -⟩ |
    ⟨middle, same, -⟩
  · exact String.ext same
  · exact absurd (by rw [same]; simp) secondPlain
  · exact absurd (by rw [same]; simp) firstPlain

theorem Along.permits_of_deploysFor (along : Along operation memory world history)
    (acting : Acting operation.Permits history op) (plain : '/' ∉ id.toList)
    (deploys : DeploysFor id op) : operation.Permits history id .deploy := by
  cases op with
  | deploy request =>
    obtain ⟨rest, key⟩ := deploys
    obtain ⟨other, otherRest, otherKey, permitted⟩ := acting
    rw [key] at otherKey
    rw [eq_of_append_slash plain (along.slash_notMem permitted) otherKey]
    exact permitted
  | _ => cases deploys

/-- No decision is made on an open approval of a cancelled run, and none approves that of a
paused run. -/
def Respects (memory : Memory) : Operation → Prop
  | .decideApproval runID approvalID actor roles approve =>
    ∀ run ∈ memory.runs.get? runID, (run.status = .cancelled → ¬isOpen run approvalID actor) ∧
      (run.status = .paused → approve → ¬mayApprove run approvalID actor roles)
  | _ => True

section

variable (along : Along operation memory world history)

include along

/-- An operation finds the run as it was stored when the call began. -/
theorem Along.guard_of_permits
    (stored : Stored status memory id) (permitted : operation.Permits history id act) :
    ∃ first, operation.subject = some id ∧ memory.runs.get? id = some first ∧
      first.status = status ∧ operation.Guard first act := by
  unfold Operation.Permits at permitted
  split at permitted
  · obtain ⟨-, run, answer, member, rfl⟩ := permitted
    have present := stored.isSome
    rw [(along.created run answer member).1] at present
    cases present
  · next runID named =>
    obtain ⟨⟨first, rest, begins, guarded⟩, read, member, rfl⟩ := permitted
    rw [(along.reads runID read member).1] at stored ⊢
    have found := along.first runID first rest begins
    unfold Stored at stored
    rw [found] at stored
    exact ⟨first, named, found, Option.some.inj stored, guarded⟩

/-- A call changes nothing about a run which is cancelled when it begins. -/
theorem Along.not_permits_of_cancelled
    (respected : Respects memory operation) (stored : Stored .cancelled memory id) (act : Act) :
    ¬operation.Permits history id act := by
  intro permitted
  obtain ⟨first, named, found, status, guarded⟩ := along.guard_of_permits stored permitted
  cases operation with
  | start request => cases named
  | decideApproval runID approvalID actor roles approve =>
    cases named
    exact (respected first found).1 status guarded.2.1
  | cancel runID actor => exact guarded.1 status
  | pause runID actor =>
    rcases guarded.1 with running | waiting
    · rw [running] at status
      cases status
    · rw [waiting] at status
      cases status
  | resume runID actor =>
    rw [guarded.1] at status
    cases status

/-- A call other than its resumption deploys nothing for a run which is paused when it begins. -/
theorem Along.not_deploys_of_paused
    (respected : Respects memory operation) (stored : Stored .paused memory id)
    (other : ∀ actor, operation ≠ .resume id actor) :
    ¬operation.Permits history id .deploy := by
  intro permitted
  obtain ⟨first, named, found, status, guarded⟩ := along.guard_of_permits stored permitted
  cases operation with
  | start request => cases named
  | decideApproval runID approvalID actor roles approve =>
    cases named
    obtain ⟨approves, qualified⟩ := guarded.2.2 rfl
    exact (respected first found).2 status approves qualified
  | cancel runID actor | pause runID actor => cases guarded.2
  | resume runID actor =>
    cases named
    exact other actor rfl

end

end Along

/-- Calls one after the other, each of which may stop early. -/
inductive Session (engine : Engine) (permitted : Memory → Operation → Prop) :
    Memory → History → Memory → Prop where
  | nil (memory : Memory) : Session engine permitted memory [] memory
  | call {memory middle last : Memory} {operation : Operation} {events later : History}
      {rest : Prog requests (Except Failure Unit)} (allowed : permitted memory operation)
      (run : Runs oneStore memory (operation.program engine) events middle rest)
      (session : Session engine permitted middle later last) :
      Session engine permitted memory (events ++ later) last

section Sessions

variable {engine : Engine} {operation : Operation} {memory middle last : Memory}
  {before after : History} {stopped rest : Prog requests (Except Failure Unit)}
  {id : String}

theorem along_of_runs (kept : Kept memory)
    (run : Runs oneStore memory (operation.program engine) before middle stopped) :
    Along operation memory middle before := by
  have always : Always (S := requests) _ _ _ [] _ := program_restrained engine operation
  exact always.invariant (Along operation memory) legal_of_oneStore
    (fun _ _ _ _ _ along permitted effect => along.step permitted effect) run (along_nil kept)

/-- Every request which is answered later in a call is permitted by what was answered before. -/
theorem exists_along_of_mem (kept : Kept memory)
    (begun : Runs oneStore memory (operation.program engine) before middle stopped)
    (continued : Runs oneStore middle stopped after last rest) {event : Event requests}
    (member : event ∈ after) :
    ∃ world history, Along operation memory world history ∧
      Acting operation.Permits history event.1 := by
  obtain ⟨earlier, later, rfl⟩ := List.append_of_mem member
  have whole := begun.trans continued
  rw [← List.append_assoc] at whole
  obtain ⟨world, waiting, next, run, requested⟩ := whole.split
  refine ⟨world, _, along_of_runs kept run, ?_⟩
  have always : Always (S := requests) _ _ _ [] _ := program_restrained engine operation
  exact (always.of_runs legal_of_oneStore run).2 _ next requested

section

variable (kept : Kept memory)
  (respected : Respects memory operation)
  (begun : Runs oneStore memory (operation.program engine) before middle stopped)

include kept respected begun

/-- A cancelled run stays cancelled, and nothing is deployed for it any more. -/
theorem cancelled_of_runs (continued : Runs oneStore middle stopped after last rest)
    (stored : Stored .cancelled middle id) :
    Stored .cancelled last id ∧ ∀ event ∈ after, ¬DeploysFor id event.1 := by
  have along := along_of_runs kept begun
  -- the run was cancelled when the call began, or the call is its cancellation
  have origin : Stored .cancelled memory id ∨ operation.imposes = some .cancelled := by
    rcases along.changed id _ stored with initial | advances | imposed
    · exact Or.inl initial
    · cases advances
    · exact Or.inr imposed
  have only : ∀ world history act, Along operation memory world history →
      operation.Permits history id act → act = .update .cancelled := by
    intro world history act along permitted
    rcases origin with initial | imposed
    · exact absurd permitted (along.not_permits_of_cancelled respected initial act)
    · exact Operation.eq_of_imposes imposed permitted
  constructor
  · have always : Always (S := requests) _ _ _ before _ :=
      (program_restrained engine operation).after legal_of_oneStore begun
    have kept : Along operation memory last (before ++ after) ∧ Stored .cancelled last id := by
      refine always.invariant
        (fun world history => Along operation memory world history ∧ Stored .cancelled world id)
        legal_of_oneStore ?_ continued ⟨along, stored⟩
      rintro world history op answer next ⟨along, stored⟩ acting effect
      refine ⟨along.step acting effect, ?_⟩
      rcases storeEffect_cases effect with same | ⟨run, -, absent, runs⟩ |
        ⟨run, version, rfl, -, runs⟩
      · unfold Stored
        rw [same]
        exact stored
      · unfold Stored
        rw [runs, GoMap.get?_set]
        split
        · next same =>
          have present := stored.isSome
          rw [same, absent] at present
          cases present
        · exact stored
      · unfold Stored
        rw [runs, GoMap.get?_set]
        split
        · next same =>
          subst same
          exact congrArg some (Act.update.inj (only world history _ along acting))
        · exact stored
    exact kept.2
  · intro event member deploys
    obtain ⟨world, history, along, acting⟩ := exists_along_of_mem kept begun continued member
    have plain := stored.slash_notMem (along_of_runs kept begun).kept
    cases only world history _ along (along.permits_of_deploysFor acting plain deploys)

/-- A call other than its resumption deploys nothing for a run once it is paused. -/
theorem paused_of_runs
    (continued : Runs oneStore middle stopped after last rest) (stored : Stored .paused middle id)
    (other : ∀ actor, operation ≠ .resume id actor) :
    ∀ event ∈ after, ¬DeploysFor id event.1 := by
  intro event member deploys
  obtain ⟨world, history, along, acting⟩ := exists_along_of_mem kept begun continued member
  have plain := stored.slash_notMem (along_of_runs kept begun).kept
  have permitted := along.permits_of_deploysFor acting plain deploys
  rcases (along_of_runs kept begun).changed id _ stored with initial | advances | imposed
  · exact along.not_deploys_of_paused respected initial other permitted
  · cases advances
  · cases Operation.eq_of_imposes imposed permitted

end

variable {events : History}

theorem Session.kept {permitted : Memory → Operation → Prop}
    (session : Session engine permitted memory events last) (start : Kept memory) : Kept last := by
  induction session with
  | nil => exact start
  | call _ run _ ih => exact ih (along_of_runs start run).kept

theorem Session.cancelled (session : Session engine Respects memory events last)
    (kept : Kept memory) (stored : Stored .cancelled memory id) :
    Stored .cancelled last id ∧ ∀ event ∈ events, ¬DeploysFor id event.1 := by
  induction session with
  | nil => exact ⟨stored, by simp⟩
  | call respected run session ih =>
    obtain ⟨still, quiet⟩ := cancelled_of_runs kept respected (.refl _ _) run stored
    obtain ⟨final, quietLater⟩ := ih (along_of_runs kept run).kept still
    refine ⟨final, ?_⟩
    intro event member
    rcases List.mem_append.mp member with earlier | later
    · exact quiet event earlier
    · exact quietLater event later

theorem kept_newMemory : Kept newMemory := by
  intro id run found
  cases found

/-- In a session without decisions on approvals of cancelled runs and without approvals for
paused runs, a run which is stored as cancelled at some moment of a call stays cancelled and
nothing is deployed for it any more, and nothing is deployed for a run in a call after it was
stored as paused, unless the call resumes it. -/
theorem control_honoured {events later : History} {final : Memory}
    (session : Session engine Respects newMemory events memory)
    (respected : Respects memory operation)
    (begun : Runs oneStore memory (operation.program engine) before middle stopped)
    (continued : Runs oneStore middle stopped after last rest)
    (followed : Session engine Respects last later final) (id : String) :
    (Stored .cancelled middle id →
      Stored .cancelled last id ∧ Stored .cancelled final id ∧
        ∀ event ∈ after ++ later, ¬DeploysFor id event.1) ∧
    (Stored .paused middle id → (∀ actor, operation ≠ .resume id actor) →
      ∀ event ∈ after, ¬DeploysFor id event.1) := by
  have kept := session.kept kept_newMemory
  refine ⟨fun stored => ?_, paused_of_runs kept respected begun continued⟩
  obtain ⟨still, quiet⟩ := cancelled_of_runs kept respected begun continued stored
  have keptLast := (along_of_runs kept (begun.trans continued)).kept
  obtain ⟨atLast, quietLater⟩ := followed.cancelled keptLast still
  refine ⟨still, atLast, ?_⟩
  intro event member
  rcases List.mem_append.mp member with earlier | following
  · exact quiet event earlier
  · exact quietLater event following

end Sessions

/-- A store and an executor which never fail, and the fixed rules of the policy engine. -/
def serve : Strategy requests Memory
  | memory, .now => (1, memory)
  | memory, .newID kind => (Application.newID kind (List.replicate 12 0), memory)
  | memory, .iterationOrder => (.stored, memory)
  | memory, .createRun run => answerOf memory (memory.createRunAtomic run [] [])
  | memory, .getRun id => answerOf memory ((memory.getRun id).map (·, memory))
  | memory, .updateRun run expectedVersion => answerOf memory
      (((memory.updateRunAtomic run expectedVersion [] []).map Prod.snd).map ((), ·))
  | memory, .appendAudit event => (.ok (), memory.appendAudit event)
  | memory, .evaluate input =>
    (Policy.Engine.evaluate default ⟨some (Policy.builtinEvaluator default)⟩ 1 input, memory)
  | memory, .deploy _ => (.ok { externalID := "deployment" }, memory)
  | memory, .verify _ =>
    (.ok { (default : Workflow.VerificationResult) with healthy := true }, memory)
  | memory, .rollback deployment => (.ok deployment, memory)

theorem serve_answers (memory : Memory) (op : Op) :
    oneStore.answers memory op (serve memory op).1 (serve memory op).2 := by
  cases op with
  | newID kind => exact ⟨⟨_, rfl⟩, rfl⟩
  | createRun | getRun | updateRun => exact performs_answerOf _ _
  | appendAudit event => exact .returned rfl
  | now | iterationOrder | evaluate | deploy | verify | rollback => rfl

/-- The answered requests of some calls and the store after them. -/
def conduct (engine : Engine) : List Operation → Memory → History × Memory
  | [], memory => ([], memory)
  | operation :: rest, memory =>
    let played := play serve 40 memory (operation.program engine)
    let later := conduct engine rest played.2.1
    (played.1 ++ later.1, later.2)

theorem runs_serve (engine : Engine) (operation : Operation) (memory : Memory) :
    Runs oneStore memory (operation.program engine)
      (play serve 40 memory (operation.program engine)).1
      (play serve 40 memory (operation.program engine)).2.1
      (play serve 40 memory (operation.program engine)).2.2 :=
  @runs_play _ _ oneStore serve serve_answers 40 memory (operation.program engine)

theorem session_conduct {engine : Engine} {permitted : Memory → Operation → Prop}
    (operations : List Operation)
    (allowed : ∀ operation ∈ operations, ∀ memory, permitted memory operation) (memory : Memory) :
    Session engine permitted memory (conduct engine operations memory).1
      (conduct engine operations memory).2 := by
  induction operations generalizing memory with
  | nil => exact .nil memory
  | cons operation rest ih =>
    exact .call (allowed operation List.mem_cons_self memory) (runs_serve engine operation memory)
      (ih (fun other member => allowed other (List.mem_cons_of_mem _ member)) _)

/-- A request to release `api` of an agent which may deploy. -/
def deployRequest : ReleaseRequest :=
  ⟨"request", "1", "", .staging, "", "", "user", ⟨"agent", ["release:deploy"]⟩,
    [⟨"api", "1", true, true, true, ""⟩]⟩

/-- A cancelled release stays cancelled when it is paused and resumed. -/
theorem control_honoured_resumed :
    let id := "run_000000000000000000000000"
    ∃ planner events before later memory middle final rest,
      Planning.new default .stored Planning.catalog = .ok planner ∧
      Session ⟨default, planner⟩ Respects newMemory events memory ∧
      Runs oneStore memory ((Operation.cancel id "operator").program ⟨default, planner⟩) before
        middle rest ∧
      Stored .cancelled middle id ∧ Session ⟨default, planner⟩ Respects middle later final ∧
      Stored .cancelled final id ∧ ∀ event ∈ later, ¬DeploysFor id event.1 := by
  intro id
  have evaluated : (do
      let planner ← Planning.new default .stored Planning.catalog
      let engine : Engine := ⟨default, planner⟩
      let memory := (conduct engine [.start deployRequest] newMemory).2
      let middle := (play serve 40 memory ((Operation.cancel id "operator").program engine)).2.1
      return (middle.runs.get? id).map ReleaseRun.status) = Except.ok (some .cancelled) := by
    decide +kernel
  simp only [bind_eq_ok] at evaluated
  obtain ⟨planner, made, eq⟩ := evaluated
  have cancelled := Except.ok.inj eq
  have session : Session ⟨default, planner⟩ Respects newMemory _ _ :=
    session_conduct [.start deployRequest] (by simp [Respects]) newMemory
  have respected : ∀ memory, Respects memory (.cancel id "operator") := fun _ => trivial
  have begun := runs_serve ⟨default, planner⟩ (.cancel id "operator")
    (conduct ⟨default, planner⟩ [.start deployRequest] newMemory).2
  have followed : Session ⟨default, planner⟩ Respects _ _ _ :=
    session_conduct [.pause id "operator", .resume id "operator"] (by simp [Respects])
      (play serve 40 (conduct ⟨default, planner⟩ [.start deployRequest] newMemory).2
        ((Operation.cancel id "operator").program ⟨default, planner⟩)).2.1
  have honoured :=
    (control_honoured session (respected _) begun (.refl _ _) followed id).1 cancelled
  exact ⟨planner, _, _, _, _, _, _, _, made, session, begun, cancelled, followed, honoured.2.1,
    by simpa using honoured.2.2⟩

def deploymentKey : Event requests → Option String
  | ⟨.deploy request, _⟩ => some request.idempotencyKey
  | _ => none

theorem deploysFor_of_deploymentKey {event : Event requests} {id rest : String}
    (eq : deploymentKey event = some (id ++ "/" ++ rest)) : DeploysFor id event.1 := by
  unfold deploymentKey at eq
  split at eq
  · exact ⟨rest, Option.some.inj eq⟩
  · cases eq

/-- A release which needs an approval is stopped, and the approval is given afterwards: the
release is carried out, both after a cancellation and after a pause. -/
theorem approval_undoes_control :
    let id := "run_000000000000000000000000"
    let approve : Operation := .decideApproval id "approval_000000000000000000000000" "owner"
      ["service-owner", "sre"] true
    ∀ control ∈ [(Operation.cancel id "operator", RunStatus.cancelled),
        (Operation.pause id "operator", RunStatus.paused)],
      ∃ planner events later stopped final rest,
        Planning.new default .stored Planning.catalog = .ok planner ∧
        Session ⟨default, planner⟩ (fun _ _ => True) newMemory events stopped ∧
        Stored control.2 stopped id ∧
        Runs oneStore stopped (approve.program ⟨default, planner⟩) later final rest ∧
        (∃ event ∈ later, DeploysFor id event.1) ∧ Stored .succeeded final id := by
  intro id approve control listed
  have evaluated : (do
      let planner ← Planning.new default .stored Planning.catalog
      let engine : Engine := ⟨default, planner⟩
      let stopped := (conduct engine [.start deployRequest, control.1] newMemory).2
      let decided := play serve 40 stopped (approve.program engine)
      return ((stopped.runs.get? id).map ReleaseRun.status, decided.1.filterMap deploymentKey,
        (decided.2.1.runs.get? id).map ReleaseRun.status)) =
          Except.ok (some control.2, [id ++ "/" ++ "staging/api/1"], some .succeeded) := by
    revert control
    decide +kernel
  simp only [bind_eq_ok] at evaluated
  obtain ⟨planner, made, eq⟩ := evaluated
  simp only [pure, Except.pure, Except.ok.injEq, Prod.mk.injEq] at eq
  obtain ⟨stopped, keys, final⟩ := eq
  refine ⟨planner, _, _, _, _, _, made, session_conduct _ (fun _ _ _ => trivial) newMemory, stopped,
    runs_serve _ _ _, ?_, final⟩
  have member : id ++ "/" ++ "staging/api/1" ∈ List.filterMap deploymentKey _ :=
    keys ▸ List.mem_singleton_self _
  obtain ⟨event, eventMem, key⟩ := List.mem_filterMap.mp member
  exact ⟨event, eventMem, deploysFor_of_deploymentKey key⟩

end Themisy.Engine
