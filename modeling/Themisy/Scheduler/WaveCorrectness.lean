import Themisy.Collections.Grouping
import Themisy.Graph.Acyclic
import Themisy.Scheduler.BudgetSafety
import Themisy.Scheduler.Waves

/-!
# Correctness of wave building

`buildWaves` succeeds exactly on accepted limits, distinct nonempty identifiers and an
acyclic dependency relation over the listed identifiers. Its waves then partition the
input, respect every dependency and every limit, and are maximal.

Packing one wave is a run of the budget ledger from an empty budget, and releasing its
reservations leaves the budget empty again. The outer loop keeps
`WaveState.Invariant`.
-/

namespace Themisy.Scheduler

variable {step : Step} {limits : Limits} {pending : GoMap String Step} {steps inputs : List Step}

namespace Budget

/-- The budget holds exactly the given steps, each of them once. -/
def Holds (budget : Budget) (steps : List Step) : Prop :=
  Counter.Counts budget.active (steps.flatMap keysFor)

theorem blockedKeys_ne_nil_mono {smaller larger : Budget}
    (limitsEq : smaller.limits = larger.limits)
    (grows : ∀ key, smaller.active.find key 0 ≤ larger.active.find key 0)
    (blocked : smaller.blockedKeys step ≠ []) : larger.blockedKeys step ≠ [] := by
  rw [blockedKeys_ne_nil_iff] at blocked ⊢
  obtain ⟨key, wanted, exhausted⟩ := blocked
  exact ⟨key, wanted, by rw [← limitsEq]; exact exhausted.trans (grows key)⟩

theorem blockedKeys_empty (valid : limits.Valid) (step : Step) :
    blockedKeys { limits } step = [] := by
  by_contra blocked
  obtain ⟨key, -, exhausted⟩ := (blockedKeys_ne_nil_iff _ step).mp blocked
  have := valid.limit_pos key
  simp only [GoMap.find_empty] at exhausted
  omega

theorem active_foldl_release {budget : Budget} {reservations : List Reservation}
    (counts : Counter.Counts budget.active (reservations.flatMap Reservation.keys)) :
    (reservations.foldl release budget).active = ∅ := by
  induction reservations generalizing budget with
  | nil => exact counts.eq_empty
  | cons reservation rest ih => exact ih counts.release

@[simp]
theorem limits_foldl_release (budget : Budget) (reservations : List Reservation) :
    (reservations.foldl release budget).limits = budget.limits := by
  induction reservations generalizing budget with
  | nil => rfl
  | cons reservation rest ih => exact ih _

end Budget

section Pack

variable {minimumPhase : ℤ} {ready : List Step} {budget : Budget} {outstanding : List Reservation}

theorem pack_steps_sublist : (pack minimumPhase ready budget).steps.Sublist ready := by
  induction ready generalizing budget with
  | nil => simp [pack]
  | cons step rest ih =>
    simp only [pack]
    split
    · exact List.nil_sublist _
    · split
      · exact ih.cons step
      · exact ih.cons_cons step

theorem pack_phase (packed : step ∈ (pack minimumPhase ready budget).steps) :
    step.phase = minimumPhase := by
  induction ready generalizing budget with
  | nil => simp [pack] at packed
  | cons head rest ih =>
    simp only [pack] at packed
    split at packed
    · simp at packed
    · next same =>
      split at packed
      · exact ih packed
      · rcases List.mem_cons.mp packed with rfl | later
        · exact not_not.mp same
        · exact ih later

theorem pack_reservations : (pack minimumPhase ready budget).reservations =
    (pack minimumPhase ready budget).steps.map fun step => ⟨step, keysFor step⟩ := by
  induction ready generalizing budget with
  | nil => simp [pack]
  | cons step rest ih =>
    simp only [pack]
    split
    · rfl
    · split
      · exact ih
      · next free =>
        have free' : budget.blockedKeys step = [] := by
          rw [← Budget.tryAcquire_blocked_eq]
          exact not_not.mp free
        simp only [List.map_cons, ih, Budget.tryAcquire_of_free free']

section

variable (consistent : Ledger.Consistent limits ⟨budget, outstanding⟩)

include consistent

/-- Packing is a run of the ledger: the chosen steps become outstanding. -/
theorem pack_consistent :
    Ledger.Consistent limits ⟨(pack minimumPhase ready budget).budget,
      (pack minimumPhase ready budget).reservations.reverse ++ outstanding⟩ := by
  induction ready generalizing budget outstanding with
  | nil => simpa [pack] using consistent
  | cons step rest ih =>
    have acquired := consistent.tryAcquire step
    simp only [Ledger.tryAcquire] at acquired
    simp only [pack]
    split
    · simpa using consistent
    · split
      · next blocked =>
        rw [if_neg blocked] at acquired
        exact ih acquired
      · next free =>
        rw [if_pos (not_not.mp free)] at acquired
        simpa using ih acquired

theorem pack_find_le (key : BudgetKey) :
    budget.active.find key 0 ≤ (pack minimumPhase ready budget).budget.active.find key 0 := by
  have packed : Ledger.Consistent limits ⟨(pack minimumPhase ready budget).budget, _⟩ :=
    pack_consistent consistent
  have before := consistent.counts.find_eq key
  have after := packed.counts.find_eq key
  simp only [Ledger.occurrences, List.flatMap_append, List.count_append] at before after
  omega

/-- A ready step of the smallest phase which is left out is blocked by the packed budget. -/
theorem pack_blocked (sorted : ready.Pairwise fun left right => left.phase ≤ right.phase)
    (least : ∀ step ∈ ready, minimumPhase ≤ step.phase) (candidate : step ∈ ready)
    (phase : step.phase = minimumPhase) (omitted : step ∉ (pack minimumPhase ready budget).steps) :
    (pack minimumPhase ready budget).budget.blockedKeys step ≠ [] := by
  induction ready generalizing budget outstanding with
  | nil => cases candidate
  | cons head rest ih =>
    have acquired := consistent.tryAcquire head
    simp only [Ledger.tryAcquire] at acquired
    have headLeast := least head List.mem_cons_self
    have restSorted := List.pairwise_cons.mp sorted
    have restLeast : ∀ step ∈ rest, minimumPhase ≤ step.phase :=
      fun step member => least step (List.mem_cons_of_mem _ member)
    simp only [pack] at omitted ⊢
    split
    · next different =>
      -- a larger phase at the head leaves no step of the smallest phase behind it
      rcases List.mem_cons.mp candidate with rfl | later
      · exact absurd phase different
      · have := restSorted.1 step later
        omega
    · next same =>
      rw [if_neg same] at omitted
      split
      · next blocked =>
        rw [if_pos blocked] at omitted
        rw [if_neg blocked] at acquired
        rcases List.mem_cons.mp candidate with rfl | later
        · rw [Budget.tryAcquire_blocked_eq] at blocked
          rw [Budget.tryAcquire_of_blocked blocked] at acquired ⊢
          refine Budget.blockedKeys_ne_nil_mono ?_ (pack_find_le acquired) blocked
          exact acquired.limits_eq.trans (pack_consistent acquired).limits_eq.symm
        · exact ih acquired restSorted.2 restLeast later omitted
      · next free =>
        rw [if_neg free] at omitted
        rw [if_pos (not_not.mp free)] at acquired
        simp only [List.mem_cons, not_or] at omitted
        rcases List.mem_cons.mp candidate with rfl | later
        · exact absurd rfl omitted.1
        · exact ih acquired restSorted.2 restLeast later omitted.2

end

theorem pack_holds (valid : limits.Valid) :
    (pack minimumPhase ready { limits }).budget.Holds
      (pack minimumPhase ready { limits }).steps := by
  have packed : Ledger.Consistent limits ⟨(pack minimumPhase ready { limits }).budget, _⟩ :=
    pack_consistent (Ledger.Consistent.start valid)
  refine packed.counts.perm ?_
  rw [Ledger.occurrences, List.append_nil, pack_reservations]
  refine ((List.reverse_perm _).flatMap_right Reservation.keys).trans ?_
  rw [List.flatMap_map]

theorem pack_limits (valid : limits.Valid) :
    (pack minimumPhase ready { limits }).budget.limits = limits :=
  (pack_consistent (Ledger.Consistent.start valid)).limits_eq

theorem pack_released (valid : limits.Valid) :
    (pack minimumPhase ready { limits }).reservations.foldl Budget.release
      (pack minimumPhase ready { limits }).budget = { limits } := by
  apply Budget.ext
  · rw [Budget.limits_foldl_release, pack_limits valid]
  · apply Budget.active_foldl_release
    rw [pack_reservations, List.flatMap_map]
    exact pack_holds valid

theorem pack_ne_nil (valid : limits.Valid) (first : Step) (rest : List Step) :
    (pack first.phase (first :: rest) { limits }).steps ≠ [] := by
  have free := Budget.blockedKeys_empty valid first
  simp [pack, Budget.tryAcquire_blocked_eq, free]

end Pack

theorem collect_eq_ok {result : GoMap String Step}
    (collected : collect steps pending = .ok result) :
    (∀ step ∈ steps, step.id ≠ "") ∧ (steps.map Step.id).Nodup ∧
      (∀ step ∈ steps, pending.get? step.id = none) ∧
      result.values.Perm (steps.map cloneStep ++ pending.values) := by
  induction steps generalizing pending with
  | nil =>
    cases collected
    simp
  | cons step rest ih =>
    simp only [collect] at collected
    split at collected
    · cases collected
    · next named =>
      split at collected
      · cases collected
      · next fresh =>
        obtain ⟨names, distinct, unused, values⟩ := ih collected
        have different : ∀ other ∈ rest, other.id ≠ step.id ∧
            pending.get? other.id = none := by
          intro other member
          have missing := unused other member
          rw [GoMap.get?_set] at missing
          split at missing
          · cases missing
          · next ne => exact ⟨ne, missing⟩
        refine ⟨?_, ?_, ?_, ?_⟩
        · intro other member
          rcases List.mem_cons.mp member with rfl | later
          · exact named
          · exact names other later
        · rw [List.map_cons, List.nodup_cons]
          refine ⟨?_, distinct⟩
          intro repeated
          obtain ⟨other, member, same⟩ := List.mem_map.mp repeated
          exact (different other member).1 same
        · intro other member
          rcases List.mem_cons.mp member with rfl | later
          · exact fresh
          · exact (different other later).2
        · rw [GoMap.values_set fresh] at values
          exact values.trans List.perm_middle

theorem exists_collect_eq_ok (named : ∀ step ∈ steps, step.id ≠ "")
    (distinct : (steps.map Step.id).Nodup) (unused : ∀ step ∈ steps, pending.get? step.id = none) :
    ∃ result, collect steps pending = .ok result := by
  induction steps generalizing pending with
  | nil => exact ⟨pending, rfl⟩
  | cons step rest ih =>
    rw [List.map_cons, List.nodup_cons] at distinct
    simp only [collect, named step List.mem_cons_self, if_false,
      unused step List.mem_cons_self]
    apply ih (fun other member => named other (List.mem_cons_of_mem _ member)) distinct.2
    intro other member
    have ne : other.id ≠ step.id := by
      intro same
      exact distinct.1 (List.mem_map.mpr ⟨other, member, same⟩)
    rw [GoMap.get?_set, if_neg ne]
    exact unused other (List.mem_cons_of_mem _ member)

def dispatched (waves : List Wave) : List Step :=
  waves.flatMap Wave.steps

/-- The waves release every dependency of the step. -/
def ReadyAfter (waves : List Wave) (step : Step) : Prop :=
  ∀ dependency ∈ step.dependencies, dependency ∈ (dispatched waves).map Step.id

/-- A wave is sound relative to the waves before it and the whole input. -/
structure WaveSound (limits : Limits) (inputs : List Step) (before : List Wave) (wave : Wave) :
    Prop where
  number : wave.number = before.length
  nonempty : wave.steps ≠ []
  ready : ∀ step ∈ wave.steps, ReadyAfter before step
  bounded : ∀ key, (wave.steps.countP (fun step => key ∈ keysFor step) : ℤ) ≤ limits.limit key
  leastPhase : ∀ chosen ∈ wave.steps, ∀ step ∈ inputs, step ∉ dispatched before →
    ReadyAfter before step → chosen.phase ≤ step.phase
  maximal : ∀ chosen ∈ wave.steps, ∀ step ∈ inputs, step ∉ dispatched before →
    step ∉ wave.steps → ReadyAfter before step → step.phase = chosen.phase →
    ∀ budget : Budget, budget.limits = limits → budget.Holds wave.steps →
      (budget.tryAcquire step).blocked ≠ []

instance : Std.Total DispatchedBefore where
  total left right := by
    unfold DispatchedBefore
    rcases lt_trichotomy left.phase right.phase with less | same | greater
    · exact Or.inl (Or.inl less)
    · rcases le_total left.id right.id with le | ge
      · exact Or.inl (Or.inr ⟨same, le⟩)
      · exact Or.inr (Or.inr ⟨same.symm, ge⟩)
    · exact Or.inr (Or.inl greater)

instance : IsTrans Step DispatchedBefore where
  trans first second third := by
    unfold DispatchedBefore
    rintro (less | ⟨same, le⟩) (less' | ⟨same', le'⟩)
    · exact Or.inl (less.trans less')
    · exact Or.inl (same' ▸ less)
    · exact Or.inl (same ▸ less')
    · exact Or.inr ⟨same.trans same', le.trans le'⟩

namespace WaveState

/-- What holds between two waves. -/
structure Invariant (limits : Limits) (inputs : List Step) (state : WaveState) : Prop where
  keyed : Keyed state.pending
  partition : (dispatched state.waves ++ state.pending.values).Perm inputs
  completed : ∀ id, state.completed.find id false = true ↔
    id ∈ (dispatched state.waves).map Step.id
  budget : state.budget = { limits }
  sound : ∀ before wave after, state.waves = before ++ wave :: after →
    WaveSound limits inputs before wave

theorem Keyed.values_map_id (keyed : Keyed pending) :
    pending.values.map Step.id = pending.keys := by
  simp only [GoMap.values, List.map_map]
  apply List.map_congr_left
  rintro ⟨id, step⟩ entry
  exact keyed id step (GoMap.mem_entries_iff.mp entry)

theorem Keyed.get?_of_mem_values (keyed : Keyed pending) (member : step ∈ pending.values) :
    pending.get? step.id = some step := by
  obtain ⟨id, found⟩ := GoMap.mem_values_iff.mp member
  rw [keyed id step found]
  exact found

theorem values_perm_foldl_delete (registered : ∀ step ∈ steps, pending.get? step.id = some step)
    (distinct : (steps.map Step.id).Nodup) :
    pending.values.Perm
      (steps ++ (steps.foldl (fun pending step => pending.delete step.id) pending).values) := by
  induction steps generalizing pending with
  | nil => exact List.Perm.refl _
  | cons step rest ih =>
    rw [List.map_cons, List.nodup_cons] at distinct
    refine (GoMap.values_perm_delete (registered step List.mem_cons_self)).trans ?_
    refine (ih ?_ distinct.2).cons step
    intro other member
    have ne : other.id ≠ step.id := by
      intro same
      exact distinct.1 (List.mem_map.mpr ⟨other, member, same⟩)
    rw [GoMap.get?_delete, if_neg ne]
    exact registered other (List.mem_cons_of_mem _ member)

theorem ready_sorted (order : IterationOrder Step) (state : WaveState) :
    (state.ready order).Pairwise DispatchedBefore :=
  List.pairwise_insertionSort DispatchedBefore _

theorem ready_phases_sorted (order : IterationOrder Step) (state : WaveState) :
    (state.ready order).Pairwise fun left right => left.phase ≤ right.phase := by
  refine (ready_sorted order state).imp ?_
  rintro left right (less | ⟨same, -⟩)
  · exact less.le
  · exact same.le

variable {rest : List Step} {first : Step}

namespace Invariant

variable {state : WaveState} {order : IterationOrder Step}

section

variable (invariant : Invariant limits inputs state)

include invariant

theorem dependenciesComplete_iff (step : Step) :
    dependenciesComplete step state.completed = true ↔ ReadyAfter state.waves step := by
  simp [dependenciesComplete, List.all_eq_true, invariant.completed, ReadyAfter]

theorem mem_ready_iff :
    step ∈ state.ready order ↔ step ∈ state.pending.values ∧ ReadyAfter state.waves step := by
  rw [mem_ready, invariant.dependenciesComplete_iff]

theorem mem_pending_of_not_dispatched
    (input : step ∈ inputs) (waiting : step ∉ dispatched state.waves) :
    step ∈ state.pending.values := by
  have member := invariant.partition.mem_iff.mpr input
  exact (List.mem_append.mp member).resolve_left waiting

theorem ready_distinct :
    ((state.ready order).map Step.id).Nodup := by
  have pendingDistinct : (state.pending.values.map Step.id).Nodup := by
    rw [invariant.keyed.values_map_id]
    exact state.pending.keys_nodup
  have arranged : ((order.arrange state.waves.length state.pending.values).map Step.id).Nodup :=
    ((order.perm _ _).map Step.id).nodup_iff.mpr pendingDistinct
  refine ((List.perm_insertionSort DispatchedBefore _).map Step.id).nodup_iff.mpr ?_
  exact arranged.sublist (List.filter_sublist.map Step.id)

/-- A wave packed from the ready steps is sound relative to the waves so far. -/
theorem packed_sound (valid : limits.Valid) (readySteps : state.ready order = first :: rest) :
    WaveSound limits inputs state.waves
      ⟨state.waves.length, (pack first.phase (first :: rest) state.budget).steps⟩ := by
  have sorted := ready_phases_sorted order state
  rw [readySteps] at sorted
  have least : ∀ step ∈ first :: rest, first.phase ≤ step.phase := by
    intro step member
    rcases List.mem_cons.mp member with rfl | later
    · exact le_refl _
    · exact (List.pairwise_cons.mp sorted).1 step later
  have readyOf : ∀ step ∈ inputs, step ∉ dispatched state.waves → ReadyAfter state.waves step →
      step ∈ first :: rest := by
    intro step input waiting prepared
    rw [← readySteps, invariant.mem_ready_iff]
    exact ⟨invariant.mem_pending_of_not_dispatched input waiting, prepared⟩
  rw [invariant.budget]
  refine ⟨rfl, pack_ne_nil valid first rest, ?_, ?_, ?_, ?_⟩
  · intro step member
    have candidate := mem_of_mem_pack member
    rw [← readySteps, invariant.mem_ready_iff] at candidate
    exact candidate.2
  · intro key
    have packed : Ledger.Consistent limits
        ⟨(pack first.phase (first :: rest) { limits }).budget, _⟩ :=
      pack_consistent (Ledger.Consistent.start valid)
    have bounded := packed.bounded key
    simpa [Ledger.holders, pack_reservations, List.countP_map, Function.comp_def] using bounded
  · intro chosen member step input waiting prepared
    rw [pack_phase member]
    exact least step (readyOf step input waiting prepared)
  · intro chosen member step input waiting omitted prepared samePhase budget limitsEq holds
    rw [pack_phase member] at samePhase
    have blocked := pack_blocked (Ledger.Consistent.start valid) sorted least
      (readyOf step input waiting prepared) samePhase omitted
    rw [Budget.tryAcquire_blocked_eq]
    refine Budget.blockedKeys_ne_nil_mono ((pack_limits valid).trans limitsEq.symm) ?_ blocked
    intro key
    rw [(pack_holds valid).find_eq key, holds.find_eq key]

theorem advance (valid : limits.Valid) (readySteps : state.ready order = first :: rest) :
    Invariant limits inputs (state.advance (pack first.phase (first :: rest) state.budget)) := by
  have sound := invariant.packed_sound valid readySteps
  have released : (pack first.phase (first :: rest) state.budget).reservations.foldl
      Budget.release (pack first.phase (first :: rest) state.budget).budget = { limits } := by
    rw [invariant.budget]
    exact pack_released valid
  generalize packingEq : pack first.phase (first :: rest) state.budget = packing at sound released
  have sublist : packing.steps.Sublist (state.ready order) := by
    rw [readySteps, ← packingEq]
    exact pack_steps_sublist
  have distinct : (packing.steps.map Step.id).Nodup :=
    invariant.ready_distinct.sublist (sublist.map Step.id)
  have registered : ∀ step ∈ packing.steps, state.pending.get? step.id = some step := by
    intro step member
    exact invariant.keyed.get?_of_mem_values (mem_ready.mp (sublist.subset member)).1
  constructor
  case keyed =>
    intro id step found
    simp only [WaveState.advance, get?_foldl_delete] at found
    split at found
    · cases found
    · exact invariant.keyed id step found
  case partition =>
    have split := values_perm_foldl_delete registered distinct
    simp only [WaveState.advance, dispatched, List.flatMap_append, List.flatMap_cons,
      List.flatMap_nil, List.append_nil, List.append_assoc]
    exact (split.symm.append_left _).trans invariant.partition
  case completed =>
    intro id
    simp only [WaveState.advance, GoMap.find_foldl_set_true Step.id, invariant.completed,
      dispatched, List.flatMap_append, List.flatMap_cons, List.flatMap_nil, List.append_nil,
      List.map_append, List.mem_append]
    exact or_comm
  case budget => exact released
  case sound =>
    intro before wave after waves
    simp only [WaveState.advance] at waves
    rcases List.eq_nil_or_concat after with rfl | ⟨init, last, rfl⟩
    · obtain ⟨rfl, lastEq⟩ := List.append_inj' waves rfl
      cases lastEq
      exact sound
    · rw [List.concat_eq_append, ← List.cons_append, ← List.append_assoc] at waves
      exact invariant.sound before wave init (List.append_inj' waves rfl).1

end

end Invariant

end WaveState

/-- The waves of a finished schedule: they partition the input and each of them is sound. -/
structure Schedule (limits : Limits) (inputs : List Step) (waves : List Wave) : Prop where
  partition : (dispatched waves).Perm inputs
  sound : ∀ before wave after, waves = before ++ wave :: after →
    WaveSound limits inputs before wave

/-- Every dependency is a step. -/
def Listed (steps : List Step) : Prop :=
  ∀ step ∈ steps, ∀ dependency ∈ step.dependencies, dependency ∈ steps.map Step.id

def Needs (steps : List Step) (id dependency : String) : Prop :=
  ∃ step ∈ steps, step.id = id ∧ dependency ∈ step.dependencies

/-- No dependency has a larger phase than the step which names it. -/
def Rising (steps : List Step) : Prop :=
  ∀ step ∈ steps, ∀ other ∈ steps, other.id ∈ step.dependencies → other.phase ≤ step.phase

/-- Every dependency has a smaller phase than the step which names it. -/
def Descending (steps : List Step) : Prop :=
  ∀ step ∈ steps, ∀ other ∈ steps, other.id ∈ step.dependencies → other.phase < step.phase

namespace WaveState

variable {order : IterationOrder Step} {state : WaveState}

theorem Invariant.ready_ne_nil (invariant : Invariant limits inputs state)
    (listed : Listed inputs) (acyclic : Acyclic (Needs inputs))
    (unfinished : state.pending.entries ≠ []) : state.ready order ≠ [] := by
  have nonempty : state.pending.values.map Step.id ≠ [] := by
    simpa [GoMap.values] using unfinished
  obtain ⟨id, idMem, minimal⟩ := acyclic.exists_minimal nonempty
  obtain ⟨step, pending, rfl⟩ := List.mem_map.mp idMem
  have input : step ∈ inputs :=
    invariant.partition.mem_iff.mp (List.mem_append_right _ pending)
  have prepared : ReadyAfter state.waves step := by
    intro dependency needed
    obtain ⟨other, otherInput, rfl⟩ := List.mem_map.mp (listed step input dependency needed)
    rcases List.mem_append.mp (invariant.partition.mem_iff.mpr otherInput) with done | waiting
    · exact List.mem_map_of_mem done
    · exact absurd ⟨step, input, rfl, needed⟩ (minimal _ (List.mem_map_of_mem waiting))
  exact List.ne_nil_of_mem (invariant.mem_ready_iff.mpr ⟨pending, prepared⟩)

/-- A loop which leaves has built a schedule or has met an impossible dependency relation. -/
theorem Invariant.round_eq_inr {result : Except WaveError (List Wave)}
    (invariant : Invariant limits inputs state) (valid : limits.Valid)
    (left : state.round order = .inr result) :
    (∃ waves, result = .ok waves ∧ Schedule limits inputs waves) ∨
      result = .error .dependencyCycle ∧ ¬(Listed inputs ∧ Acyclic (Needs inputs)) := by
  rcases state.round_cases order with ⟨finished, ok⟩ | ⟨unfinished, noneReady, failed⟩ |
    ⟨first, rest, readySteps, ⟨empty, -⟩ | ⟨-, continued⟩⟩
  · rw [ok] at left
    cases left
    have partition := invariant.partition
    rw [GoMap.values, finished, List.map_nil, List.append_nil] at partition
    exact Or.inl ⟨_, rfl, partition, invariant.sound⟩
  · rw [failed] at left
    cases left
    refine Or.inr ⟨rfl, ?_⟩
    rintro ⟨listed, acyclic⟩
    exact invariant.ready_ne_nil listed acyclic unfinished noneReady
  · rw [invariant.budget] at empty
    exact absurd empty (pack_ne_nil valid first rest)
  · rw [continued] at left
    cases left

end WaveState

@[simp]
theorem mem_dependencies_cloneStep {dependency : String} :
    dependency ∈ (cloneStep step).dependencies ↔ dependency ∈ step.dependencies :=
  mem_sortStrings

theorem map_id_cloneStep (steps : List Step) :
    (steps.map cloneStep).map Step.id = steps.map Step.id := by
  rw [List.map_map]
  rfl

theorem listed_cloneStep : Listed (steps.map cloneStep) ↔ Listed steps := by
  simp only [Listed, map_id_cloneStep, List.forall_mem_map, mem_dependencies_cloneStep]

theorem rising_cloneStep : Rising (steps.map cloneStep) ↔ Rising steps := by
  simp only [Rising, List.forall_mem_map, mem_dependencies_cloneStep]
  rfl

theorem descending_cloneStep : Descending (steps.map cloneStep) ↔ Descending steps := by
  simp only [Descending, List.forall_mem_map, mem_dependencies_cloneStep]
  rfl

theorem needs_cloneStep : Needs (steps.map cloneStep) = Needs steps := by
  funext id dependency
  simp [Needs, cloneStep, mem_sortStrings]

theorem run_eq_some_buildWaves (order : IterationOrder Step) {budget : Budget}
    (created : newBudget limits = .ok budget) (collected : collect steps ∅ = .ok pending) :
    Loop.run (WaveState.round order) (pending.entries.length + 1) ⟨pending, ∅, budget, []⟩ =
      some (buildWaves order steps limits) := by
  unfold buildWaves
  simp only [created]
  split
  · next error failed =>
    rw [collected] at failed
    cases failed
  · next found ok =>
    rw [collected] at ok
    cases ok
    exact (Option.some_get _).symm

theorem buildWaves_cases (order : IterationOrder Step) (valid : limits.Valid)
    (named : ∀ step ∈ steps, step.id ≠ "") (distinct : (steps.map Step.id).Nodup) :
    (∃ waves, buildWaves order steps limits = .ok waves ∧
      Schedule limits (steps.map cloneStep) waves) ∨
    buildWaves order steps limits = .error .dependencyCycle ∧
      ¬(Listed steps ∧ Acyclic (Needs steps)) := by
  have fresh : ∀ step ∈ steps, (∅ : GoMap String Step).get? step.id = none := by simp
  obtain ⟨pending, collected⟩ := exists_collect_eq_ok named distinct fresh
  have returned := run_eq_some_buildWaves order (newBudget_eq_ok_iff.mpr ⟨valid, rfl⟩) collected
  have start : WaveState.Invariant limits (steps.map cloneStep) ⟨pending, ∅, { limits }, []⟩ := by
    refine ⟨collect_keyed empty_keyed collected, ?_, by simp [dispatched], rfl, by simp⟩
    simpa [dispatched] using (collect_eq_ok collected).2.2.2
  rw [← listed_cloneStep, ← needs_cloneStep]
  refine Loop.run_sound (WaveState.Invariant limits (steps.map cloneStep)) _ ?_
    (fun state result invariant left => invariant.round_eq_inr valid left) start returned
  intro state next invariant continued
  obtain ⟨first, rest, readySteps, -, rfl⟩ := WaveState.round_eq_inl continued
  exact invariant.advance valid readySteps

theorem collect_ne_limitsPreventDispatch (steps : List Step) (pending : GoMap String Step) :
    collect steps pending ≠ .error .limitsPreventDispatch := by
  induction steps generalizing pending with
  | nil => simp [collect]
  | cons step rest ih =>
    simp only [collect]
    split
    · simp
    · split
      · simp
      · exact ih _

theorem buildWaves_accepted {order : IterationOrder Step}
    (passed : (∃ waves, buildWaves order steps limits = .ok waves) ∨
      buildWaves order steps limits = .error .limitsPreventDispatch) :
    limits.Valid ∧ (∀ step ∈ steps, step.id ≠ "") ∧ (steps.map Step.id).Nodup := by
  unfold buildWaves at passed
  split at passed
  · simp at passed
  · next budget created =>
    split at passed
    · next error failed =>
      simp only [reduceCtorEq, exists_false, false_or, Except.error.injEq] at passed
      rw [passed] at failed
      exact absurd failed (collect_ne_limitsPreventDispatch steps ∅)
    · next pending collected =>
      obtain ⟨named, distinct, -, -⟩ := collect_eq_ok collected
      exact ⟨(newBudget_eq_ok_iff.mp created).1, named, distinct⟩

namespace Schedule

variable {waves : List Wave}

theorem exists_split (schedule : Schedule limits inputs waves) (input : step ∈ inputs) :
    ∃ before wave after, waves = before ++ wave :: after ∧ step ∈ wave.steps := by
  obtain ⟨wave, waveMem, stepMem⟩ :=
    List.mem_flatMap.mp (schedule.partition.mem_iff.mpr input)
  obtain ⟨before, after, split⟩ := List.append_of_mem waveMem
  exact ⟨before, wave, after, split, stepMem⟩

theorem listed (schedule : Schedule limits inputs waves) : Listed inputs := by
  intro step input dependency needed
  obtain ⟨before, wave, after, rfl, stepMem⟩ := schedule.exists_split input
  have earlier := (schedule.sound before wave after rfl).ready step stepMem dependency needed
  rw [← (schedule.partition.map Step.id).mem_iff, dispatched, List.flatMap_append, List.map_append]
  exact List.mem_append_left _ earlier

/-- The position of the first wave with a step of the given identifier. -/
def waveIndex (waves : List Wave) (id : String) : ℕ :=
  waves.findIdx fun wave => id ∈ wave.steps.map Step.id

variable {before after : List Wave} {wave : Wave} {id : String}

section

variable (schedule : Schedule limits inputs waves) (distinct : (inputs.map Step.id).Nodup)

include schedule distinct

/-- Identifiers are distinct over all waves, so a step occurs in no wave before its own. -/
theorem waveIndex_eq (split : waves = before ++ wave :: after)
    (member : id ∈ wave.steps.map Step.id) : waveIndex waves id = before.length := by
  subst split
  have missing : (before.findIdx fun wave => id ∈ wave.steps.map Step.id) = before.length := by
    rw [List.findIdx_eq_length]
    intro other otherMem
    have disjoint := (schedule.partition.map Step.id).nodup_iff.mpr distinct
    rw [dispatched, List.flatMap_append, List.map_append, List.nodup_append] at disjoint
    simp only [decide_eq_false_iff_not]
    intro again
    refine disjoint.2.2 id ?_ id ?_ rfl
    · rw [List.map_flatMap]
      exact List.mem_flatMap.mpr ⟨other, otherMem, again⟩
    · rw [List.flatMap_cons, List.map_append]
      exact List.mem_append_left _ member
  simp only [waveIndex, List.findIdx_append, missing, lt_irrefl, if_false, List.findIdx_cons,
    member, decide_true, cond_true, zero_add]

theorem waveIndex_lt (split : waves = before ++ wave :: after)
    (earlier : id ∈ (dispatched before).map Step.id) (member : step ∈ wave.steps) :
    waveIndex waves id < waveIndex waves step.id := by
  rw [schedule.waveIndex_eq distinct split (List.mem_map_of_mem member)]
  subst split
  have found : (before.findIdx fun wave => id ∈ wave.steps.map Step.id) < before.length := by
    apply List.findIdx_lt_length_of_exists
    rw [dispatched, List.map_flatMap] at earlier
    obtain ⟨first, firstMem, idMem⟩ := List.mem_flatMap.mp earlier
    exact ⟨first, firstMem, decide_eq_true idMem⟩
  simp only [waveIndex, List.findIdx_append, found, if_true]

/-- Every input lies in exactly one wave, whose number is its position. -/
theorem exists_wave (input : step ∈ inputs) :
    ∃ wave ∈ waves, wave.number = waveIndex waves step.id ∧ step ∈ wave.steps ∧
      ∀ other ∈ waves, step.id ∈ other.steps.map Step.id ↔ other = wave := by
  obtain ⟨before, wave, after, split, member⟩ := schedule.exists_split input
  have position := schedule.waveIndex_eq distinct split (List.mem_map_of_mem member)
  refine ⟨wave, by simp [split], ?_, member, ?_⟩
  · rw [position]
    exact (schedule.sound before wave after split).number
  · intro other otherMem
    constructor
    · intro again
      obtain ⟨before', after', split'⟩ := List.append_of_mem otherMem
      have position' := schedule.waveIndex_eq distinct split' again
      obtain ⟨-, tails⟩ := List.append_inj (split'.symm.trans split) (position'.symm.trans position)
      exact (List.cons.inj tails).1
    · rintro rfl
      exact List.mem_map_of_mem member

theorem waveIndex_dependency_lt (input : step ∈ inputs) {dependency : String}
    (needed : dependency ∈ step.dependencies) :
    waveIndex waves dependency < waveIndex waves step.id := by
  obtain ⟨before, wave, after, split, member⟩ := schedule.exists_split input
  have earlier := (schedule.sound before wave after split).ready step member dependency needed
  exact schedule.waveIndex_lt distinct split earlier member

theorem acyclic : Acyclic (Needs inputs) := by
  apply acyclic_of_rank fun id => (waveIndex waves id : ℤ)
  rintro id dependency ⟨step, input, rfl, needed⟩
  exact Int.ofNat_lt.mpr (schedule.waveIndex_dependency_lt distinct input needed)

/-- Where no dependency has a larger phase, smaller phases lie in earlier waves. -/
theorem waveIndex_phase_lt (rising : Rising inputs)
    {earlier later : Step} (earlierInput : earlier ∈ inputs) (laterInput : later ∈ inputs)
    (phases : earlier.phase < later.phase) :
    waveIndex waves earlier.id < waveIndex waves later.id := by
  obtain ⟨before, wave, after, split, member⟩ := schedule.exists_split laterInput
  have done : earlier ∈ dispatched before := by
    by_contra waiting
    have nonempty : inputs.filter (fun step => step ∉ dispatched before) ≠ [] :=
      List.ne_nil_of_mem (List.mem_filter.mpr ⟨earlierInput, decide_eq_true waiting⟩)
    have phaseOrder : Acyclic fun step other : Step => other.phase < step.phase :=
      acyclic_of_rank Step.phase fun _ _ smaller => smaller
    obtain ⟨least, leastMem, minimal⟩ := phaseOrder.exists_minimal nonempty
    -- among the waiting steps of the smallest phase one is ready, so the wave has no larger phase
    have leastOnes : ((inputs.filter fun step => step ∉ dispatched before ∧
        step.phase = least.phase).map Step.id) ≠ [] := by
      refine List.ne_nil_of_mem (List.mem_map_of_mem (a := least) ?_)
      simpa using leastMem
    obtain ⟨id, idMem, ready⟩ := (schedule.acyclic distinct).exists_minimal leastOnes
    obtain ⟨first, firstMem, rfl⟩ := List.mem_map.mp idMem
    simp only [List.mem_filter, decide_eq_true_eq] at firstMem minimal
    obtain ⟨firstInput, firstWaiting, firstPhase⟩ := firstMem
    have prepared : ReadyAfter before first := by
      intro dependency needed
      obtain ⟨other, otherInput, rfl⟩ :=
        List.mem_map.mp (schedule.listed first firstInput dependency needed)
      by_contra undone
      have otherWaiting : other ∉ dispatched before :=
        fun otherDone => undone (List.mem_map_of_mem otherDone)
      have lower := rising first firstInput other otherInput needed
      have upper := minimal other ⟨otherInput, otherWaiting⟩
      refine ready other.id (List.mem_map_of_mem ?_) ⟨first, firstInput, rfl, needed⟩
      simp only [List.mem_filter, decide_eq_true_eq]
      exact ⟨otherInput, otherWaiting, by omega⟩
    have bound := (schedule.sound before wave after split).leastPhase later member first firstInput
      firstWaiting prepared
    have := minimal earlier ⟨earlierInput, waiting⟩
    omega
  exact schedule.waveIndex_lt distinct split (List.mem_map_of_mem done) member

/-- Phases are followed exactly when no dependency has a larger one. -/
theorem follows_phases_iff :
    (∀ earlier ∈ inputs, ∀ later ∈ inputs, earlier.phase < later.phase →
      waveIndex waves earlier.id < waveIndex waves later.id) ↔ Rising inputs := by
  constructor
  · intro follows step input other otherInput needed
    by_contra larger
    have before := schedule.waveIndex_dependency_lt distinct input needed
    have after := follows step input other otherInput (lt_of_not_ge larger)
    omega
  · intro rising earlier earlierInput later laterInput
    exact schedule.waveIndex_phase_lt distinct rising earlierInput laterInput

end

end Schedule

/--
`buildWaves` returns for every input. It succeeds exactly on accepted limits,
distinct nonempty identifiers, and dependencies which name listed steps without
a cycle. Its waves partition the steps and are sound, and it never reports that
the limits prevent every ready step from dispatching.
-/
theorem buildWaves_correct (order : IterationOrder Step) (steps : List Step) (limits : Limits) :
    ((∃ waves, buildWaves order steps limits = .ok waves) ↔
      limits.validate = .ok () ∧ (∀ step ∈ steps, step.id ≠ "") ∧ (steps.map Step.id).Nodup ∧
        Listed steps ∧ Acyclic (Needs steps)) ∧
    (∀ waves, buildWaves order steps limits = .ok waves →
      Schedule limits (steps.map cloneStep) waves) ∧
    buildWaves order steps limits ≠ .error .limitsPreventDispatch := by
  rw [Limits.validate_eq_ok_iff]
  have success : ∀ waves, buildWaves order steps limits = .ok waves →
      limits.Valid ∧ (∀ step ∈ steps, step.id ≠ "") ∧ (steps.map Step.id).Nodup ∧
        Schedule limits (steps.map cloneStep) waves := by
    intro waves ok
    obtain ⟨valid, named, distinct⟩ := buildWaves_accepted (.inl ⟨waves, ok⟩)
    refine ⟨valid, named, distinct, ?_⟩
    rcases buildWaves_cases order valid named distinct with ⟨built, eq, schedule⟩ | ⟨failed, -⟩
    · rw [eq] at ok
      cases ok
      exact schedule
    · rw [failed] at ok
      cases ok
  refine ⟨⟨?_, ?_⟩, fun waves ok => (success waves ok).2.2.2, ?_⟩
  · rintro ⟨waves, ok⟩
    obtain ⟨valid, named, distinct, schedule⟩ := success waves ok
    refine ⟨valid, named, distinct, listed_cloneStep.mp schedule.listed, ?_⟩
    rw [← needs_cloneStep]
    exact schedule.acyclic (by rwa [map_id_cloneStep])
  · rintro ⟨valid, named, distinct, possible⟩
    rcases buildWaves_cases order valid named distinct with ⟨waves, eq, -⟩ | ⟨-, impossible⟩
    · exact ⟨waves, eq⟩
    · exact absurd possible impossible
  · intro prevented
    obtain ⟨valid, named, distinct⟩ := buildWaves_accepted (.inr prevented)
    rcases buildWaves_cases order valid named distinct with ⟨waves, eq, -⟩ | ⟨failed, -⟩
    · rw [eq] at prevented
      cases prevented
    · rw [failed] at prevented
      cases prevented

/-- Two services of one phase which share a failure domain, one naming it twice. -/
theorem buildWaves_correct_shared_domain :
    let api : Step := { (default : Step) with id := "api", failureDomains := ["db", "db"] }
    let web : Step := { (default : Step) with id := "web", failureDomains := ["db"] }
    Schedule defaultLimits ([web, api].map cloneStep)
      [⟨0, [cloneStep api]⟩, ⟨1, [cloneStep web]⟩] :=
  (buildWaves_correct .stored _ defaultLimits).2.1 _ (by decide +kernel)

end Themisy.Scheduler
