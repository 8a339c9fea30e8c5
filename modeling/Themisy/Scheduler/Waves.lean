import Themisy.Collections.Loop
import Themisy.Scheduler.Budget

/-!
# Waves of a release

This file embeds `internal/scheduler/waves.go`. `buildWaves` repeats one round until no
step is pending: it sorts the pending steps whose dependencies are complete by phase
and identifier, packs those of the smallest ready phase into a wave as far as the
budget allows, gives the reservations back, and marks the wave as completed.

Every round visits the map of pending steps in an unspecified order, an argument of
`buildWaves`. A round which continues removes a pending step, so the definition is
total.
-/

namespace Themisy.Scheduler

structure Wave where
  number : ℕ
  steps : List Step
  deriving DecidableEq

inductive WaveError where
  | limits (error : LimitsError)
  | missingID
  | duplicateStep (id : String)
  | dependencyCycle
  | limitsPreventDispatch
  deriving DecidableEq

def WaveError.message : WaveError → String
  | limits error => error.message
  | missingID => "scheduled step id is required"
  | duplicateStep id => "duplicate scheduled step " ++ GoText.quote id
  | dependencyCycle => "dependency cycle or unknown dependency in scheduling input"
  | limitsPreventDispatch => "configured limits prevent every ready step from dispatching"

def cloneStep (step : Step) : Step :=
  { step with
    failureDomains := sortStrings step.failureDomains
    dependencies := sortStrings step.dependencies }

def dependenciesComplete (step : Step) (completed : GoMap String Bool) : Bool :=
  step.dependencies.all fun dependency => completed.find dependency false

/-- The order in which ready steps are considered: by phase, then by identifier. -/
def DispatchedBefore (left right : Step) : Prop :=
  left.phase < right.phase ∨ left.phase = right.phase ∧ left.id ≤ right.id

instance : DecidableRel DispatchedBefore :=
  fun left right => inferInstanceAs (Decidable (left.phase < right.phase ∨ _))

/-- Register every step under its identifier, refusing empty and repeated ones. -/
def collect : List Step → GoMap String Step → Except WaveError (GoMap String Step)
  | [], pending => .ok pending
  | step :: rest, pending =>
    if step.id = "" then .error .missingID
    else
      match pending.get? step.id with
      | some _ => .error (.duplicateStep step.id)
      | none => collect rest (pending.set step.id (cloneStep step))

/-- What packing one wave has chosen, with the budget holding it. -/
structure Packing where
  budget : Budget
  steps : List Step
  reservations : List Reservation

/-- Take the ready steps of the smallest phase, skipping those the budget blocks. -/
def pack (minimumPhase : ℤ) : List Step → Budget → Packing
  | [], budget => ⟨budget, [], []⟩
  | step :: rest, budget =>
    if step.phase ≠ minimumPhase then ⟨budget, [], []⟩
    else
      let acquisition := budget.tryAcquire step
      let packing := pack minimumPhase rest acquisition.budget
      if acquisition.blocked ≠ [] then packing
      else
        { packing with
          steps := step :: packing.steps
          reservations := acquisition.reservation :: packing.reservations }

/-- The state of the loop of `BuildWaves`. -/
structure WaveState where
  pending : GoMap String Step
  completed : GoMap String Bool
  budget : Budget
  waves : List Wave

namespace WaveState

def ready (order : IterationOrder Step) (state : WaveState) : List Step :=
  ((order.arrange state.waves.length state.pending.values).filter fun step =>
    dependenciesComplete step state.completed).insertionSort DispatchedBefore

def advance (state : WaveState) (packing : Packing) : WaveState where
  pending := packing.steps.foldl (fun pending step => pending.delete step.id) state.pending
  completed := packing.steps.foldl (fun completed step => completed.set step.id true)
    state.completed
  budget := packing.reservations.foldl Budget.release packing.budget
  waves := state.waves ++ [⟨state.waves.length, packing.steps⟩]

def round (order : IterationOrder Step) (state : WaveState) :
    WaveState ⊕ Except WaveError (List Wave) :=
  if state.pending.entries = [] then .inr (.ok state.waves)
  else
    match state.ready order with
    | [] => .inr (.error .dependencyCycle)
    | first :: rest =>
      let packing := pack first.phase (first :: rest) state.budget
      if packing.steps = [] then .inr (.error .limitsPreventDispatch)
      else .inl (state.advance packing)

/-- Every pending step is registered under its own identifier. -/
def Keyed (pending : GoMap String Step) : Prop :=
  ∀ id step, pending.get? id = some step → step.id = id

theorem mem_ready {order : IterationOrder Step} {state : WaveState} {step : Step} :
    step ∈ state.ready order ↔
      step ∈ state.pending.values ∧ dependenciesComplete step state.completed = true := by
  unfold ready
  rw [(List.perm_insertionSort DispatchedBefore _).mem_iff, List.mem_filter,
    IterationOrder.mem_arrange]

end WaveState

theorem mem_of_mem_pack {minimumPhase : ℤ} {ready : List Step} {budget : Budget} {step : Step}
    (packed : step ∈ (pack minimumPhase ready budget).steps) : step ∈ ready := by
  induction ready generalizing budget with
  | nil => simp [pack] at packed
  | cons head rest ih =>
    simp only [pack] at packed
    split at packed
    · simp at packed
    · split at packed
      · exact List.mem_cons_of_mem _ (ih packed)
      · rcases List.mem_cons.mp packed with rfl | later
        · exact List.mem_cons_self
        · exact List.mem_cons_of_mem _ (ih later)

section Termination

theorem length_entries_foldl_delete_le (steps : List Step) (pending : GoMap String Step) :
    (steps.foldl (fun pending step => pending.delete step.id) pending).entries.length ≤
      pending.entries.length := by
  induction steps generalizing pending with
  | nil => exact le_refl _
  | cons step rest ih =>
    refine (ih (pending.delete step.id)).trans ?_
    exact (List.kerase_sublist step.id pending.entries).length_le

theorem get?_foldl_delete (steps : List Step) (pending : GoMap String Step) (id : String) :
    (steps.foldl (fun pending step => pending.delete step.id) pending).get? id =
      if id ∈ steps.map Step.id then none else pending.get? id := by
  induction steps generalizing pending with
  | nil => simp
  | cons step rest ih =>
    rw [List.foldl_cons, ih, GoMap.get?_delete]
    by_cases same : id = step.id <;> simp [same]

theorem collect_keyed {steps : List Step} {pending result : GoMap String Step}
    (keyed : WaveState.Keyed pending) (collected : collect steps pending = .ok result) :
    WaveState.Keyed result := by
  induction steps generalizing pending with
  | nil =>
    cases collected
    exact keyed
  | cons step rest ih =>
    simp only [collect] at collected
    split at collected
    · cases collected
    · split at collected
      · cases collected
      · refine ih ?_ collected
        intro id found stored
        rw [GoMap.get?_set] at stored
        split at stored
        · next same =>
          cases stored
          exact same.symm
        · exact keyed id found stored

theorem empty_keyed : WaveState.Keyed ∅ := by
  intro id step found
  simp at found

variable {order : IterationOrder Step} {state next : WaveState}

namespace WaveState

theorem round_cases (order : IterationOrder Step) (state : WaveState) :
    (state.pending.entries = [] ∧ state.round order = .inr (.ok state.waves)) ∨
      (state.pending.entries ≠ [] ∧ state.ready order = [] ∧
        state.round order = .inr (.error .dependencyCycle)) ∨
      ∃ first rest, state.ready order = first :: rest ∧
        ((pack first.phase (first :: rest) state.budget).steps = [] ∧
            state.round order = .inr (.error .limitsPreventDispatch) ∨
          (pack first.phase (first :: rest) state.budget).steps ≠ [] ∧
            state.round order =
              .inl (state.advance (pack first.phase (first :: rest) state.budget))) := by
  by_cases finished : state.pending.entries = []
  · exact Or.inl ⟨finished, by simp only [round, finished, if_true]⟩
  · right
    cases readySteps : state.ready order with
    | nil => exact Or.inl ⟨finished, rfl, by simp only [round, finished, if_false, readySteps]⟩
    | cons first rest =>
      refine Or.inr ⟨first, rest, rfl, ?_⟩
      by_cases empty : (pack first.phase (first :: rest) state.budget).steps = []
      · exact Or.inl ⟨empty, by simp only [round, finished, if_false, readySteps, empty, if_true]⟩
      · exact Or.inr ⟨empty, by simp only [round, finished, if_false, readySteps, empty]⟩

/-- A continuing round advances by a nonempty wave packed from the ready steps. -/
theorem round_eq_inl (continued : state.round order = .inl next) :
    ∃ first rest, state.ready order = first :: rest ∧
      (pack first.phase (first :: rest) state.budget).steps ≠ [] ∧
      next = state.advance (pack first.phase (first :: rest) state.budget) := by
  rcases state.round_cases order with ⟨-, left⟩ | ⟨-, -, left⟩ |
    ⟨first, rest, readySteps, ⟨-, left⟩ | ⟨nonempty, advanced⟩⟩
  · rw [left] at continued
    cases continued
  · rw [left] at continued
    cases continued
  · rw [left] at continued
    cases continued
  · rw [advanced] at continued
    exact ⟨first, rest, readySteps, nonempty, (Sum.inl.inj continued).symm⟩

/-- A continuing round keeps the registration and removes a pending step. -/
theorem round_continues (keyed : Keyed state.pending) (continued : state.round order = .inl next) :
    Keyed next.pending ∧ next.pending.entries.length < state.pending.entries.length := by
  obtain ⟨first, rest, readySteps, nonempty, rfl⟩ := round_eq_inl continued
  constructor
  · intro id step found
    simp only [advance, get?_foldl_delete] at found
    split at found
    · cases found
    · exact keyed id step found
  · simp only [advance]
    cases packed : (pack first.phase (first :: rest) state.budget).steps with
    | nil => exact absurd packed nonempty
    | cons chosen others =>
      have chosenReady : chosen ∈ state.ready order := by
        rw [readySteps]
        exact mem_of_mem_pack (by rw [packed]; exact List.mem_cons_self)
      obtain ⟨id, found⟩ := GoMap.mem_values_iff.mp (mem_ready.mp chosenReady).1
      rw [← keyed id chosen found] at found
      have shrinks := (GoMap.values_perm_delete found).length_eq
      have others := length_entries_foldl_delete_le others (state.pending.delete chosen.id)
      simp only [GoMap.values, List.length_map, List.length_cons] at shrinks
      simp only [List.foldl_cons]
      omega

theorem terminates (order : IterationOrder Step) (keyed : Keyed state.pending) :
    (Loop.run (round order) (state.pending.entries.length + 1) state).isSome := by
  exact Loop.isSome_run (fun state => Keyed state.pending)
    (fun state => state.pending.entries.length)
    (fun _ _ kept continued => round_continues kept continued) keyed

end WaveState

end Termination

def buildWaves (order : IterationOrder Step) (steps : List Step) (limits : Limits) :
    Except WaveError (List Wave) :=
  match newBudget limits with
  | .error error => .error (.limits error)
  | .ok budget =>
    match collected : collect steps ∅ with
    | .error error => .error error
    | .ok pending =>
      (Loop.run (WaveState.round order) (pending.entries.length + 1)
        ⟨pending, ∅, budget, []⟩).get
          (WaveState.terminates order (collect_keyed empty_keyed collected))

/-- A step of some service without dependencies. -/
def plainStep (id : String) : Step :=
  ⟨id, 0, "a", "staging", "eu", "main", "core", "low", "runner", [], []⟩

end Themisy.Scheduler
