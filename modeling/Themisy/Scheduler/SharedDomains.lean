import Themisy.Scheduler.TenantBudgets

/-!
# Steps which share a wave

Two steps which hold a key of limit one are never in one wave, and neither are steps of
different phases. Conversely, two steps of one phase without dependencies are in one wave
when nothing else is released and they have no failure domain in common, as far as the
default limits go.
-/

namespace Themisy.Scheduler

variable {limits : Limits} {inputs : List Step} {waves : List Wave} {wave : Wave}
  {first second : Step}

theorem two_le_countP {Item : Type} {holds : Item → Bool} {items : List Item} {one another : Item}
    (oneMem : one ∈ items) (anotherMem : another ∈ items) (distinct : one ≠ another)
    (oneHolds : holds one = true) (anotherHolds : holds another = true) :
    2 ≤ items.countP holds := by
  have sub : [one, another] ⊆ items.filter holds := by
    simp [oneMem, anotherMem, oneHolds, anotherHolds]
  have pair := (List.subperm_of_subset (by simpa using distinct) sub).length_le
  rwa [List.countP_eq_length_filter]

namespace Schedule

theorem sound_of_mem (schedule : Schedule limits inputs waves) (member : wave ∈ waves) :
    ∃ before, WaveSound limits inputs before wave := by
  obtain ⟨before, after, split⟩ := List.append_of_mem member
  exact ⟨before, schedule.sound before wave after split⟩

theorem not_together_of_key (schedule : Schedule limits inputs waves) (member : wave ∈ waves)
    (distinct : first ≠ second) {key : BudgetKey} (single : limits.limit key = 1)
    (held : key ∈ keysFor first) (needed : key ∈ keysFor second) :
    ¬(first ∈ wave.steps ∧ second ∈ wave.steps) := by
  rintro ⟨firstMem, secondMem⟩
  obtain ⟨before, sound⟩ := schedule.sound_of_mem member
  have bounded := sound.bounded key
  have several : 2 ≤ wave.steps.countP fun step => key ∈ keysFor step :=
    two_le_countP firstMem secondMem distinct (by simpa using held) (by simpa using needed)
  rw [single] at bounded
  omega

theorem phase_eq_of_together (schedule : Schedule limits inputs waves)
    (distinct : (inputs.map Step.id).Nodup) (rising : Rising inputs)
    (member : wave ∈ waves) (firstMem : first ∈ wave.steps) (secondMem : second ∈ wave.steps) :
    first.phase = second.phase := by
  obtain ⟨before, after, split⟩ := List.append_of_mem member
  have input : ∀ step ∈ wave.steps, step ∈ inputs := fun step stepMem =>
    schedule.partition.mem_iff.mp (List.mem_flatMap.mpr ⟨wave, member, stepMem⟩)
  have same : waveIndex waves first.id = waveIndex waves second.id := by
    rw [schedule.waveIndex_eq distinct split (List.mem_map_of_mem firstMem),
      schedule.waveIndex_eq distinct split (List.mem_map_of_mem secondMem)]
  rcases lt_trichotomy first.phase second.phase with less | eq | greater
  · have := schedule.waveIndex_phase_lt distinct rising (input _ firstMem)
      (input _ secondMem) less
    omega
  · exact eq
  · have := schedule.waveIndex_phase_lt distinct rising (input _ secondMem)
      (input _ firstMem) greater
    omega

end Schedule

variable {step : Step} {key : BudgetKey}

theorem Descending.dependencies_eq_nil (descending : Descending inputs) (listed : Listed inputs)
    {level : ℤ} (phases : ∀ step ∈ inputs, step.phase = level) (member : step ∈ inputs) :
    step.dependencies = [] := by
  refine List.eq_nil_iff_forall_not_mem.mpr fun dependency needed => ?_
  obtain ⟨other, otherMem, rfl⟩ := List.mem_map.mp (listed step member dependency needed)
  have smaller := descending step member other otherMem needed
  rw [phases step member, phases other otherMem] at smaller
  exact lt_irrefl _ smaller

/-- The keys of failure domains and services name what they are for. -/
theorem limitKey_of_mem_keysFor (held : key ∈ keysFor step) :
    (key.dimension = .failureDomain → key.limitKey ∈ step.failureDomains) ∧
      (key.dimension = .service → key.limitKey = step.id) := by
  rcases mem_keysFor.mp held with rfl | rfl | rfl | rfl | rfl | rfl | rfl | ⟨_, listed, rfl⟩
  all_goals simp
  exact listed

theorem count_keysFor_le (elsewhere : key.dimension ≠ .failureDomain) :
    (keysFor first).count key ≤ 7 := by
  have absent : key ∉ (sortStrings first.failureDomains).map fun failureDomain =>
      (⟨.failureDomain, effectiveTenant first ++ "/" ++ first.environment ++ "/" ++ failureDomain,
        failureDomain⟩ : BudgetKey) := by
    intro listed
    obtain ⟨failureDomain, -, rfl⟩ := List.mem_map.mp listed
    exact elsewhere rfl
  unfold keysFor
  rw [List.count_append, List.count_eq_zero.mpr absent]
  exact List.count_le_length

/-- Under the default limits one step blocks no other step without a common domain. -/
theorem not_blocked_of_apart (ids : first.id ≠ second.id)
    (apart : ∀ failureDomain ∈ first.failureDomains, failureDomain ∉ second.failureDomains)
    (needed : key ∈ keysFor second) :
    ((keysFor first).count key : ℤ) < defaultLimits.limit key := by
  have absent : key.dimension = .failureDomain ∨ key.dimension = .service →
      (keysFor first).count key = 0 := by
    intro dimension
    rw [List.count_eq_zero]
    intro held
    rcases dimension with domains | services
    · exact apart key.limitKey ((limitKey_of_mem_keysFor held).1 domains)
        ((limitKey_of_mem_keysFor needed).1 domains)
    · exact ids (((limitKey_of_mem_keysFor held).2 services).symm.trans
        ((limitKey_of_mem_keysFor needed).2 services))
  cases dimension : key.dimension with
  | failureDomain => simp [Limits.limit, dimension, absent (Or.inl dimension), defaultLimits]
  | service => simp [Limits.limit, dimension, absent (Or.inr dimension)]
  | _ =>
    have few : (keysFor first).count key ≤ 7 := count_keysFor_le (by simp [dimension])
    simp only [Limits.limit, dimension, configuredLimit, defaultLimits, GoMap.get?_empty]
    omega

/-- A first wave with one of two steps has the other one as well. -/
theorem WaveSound.mem_of_pair (sound : WaveSound defaultLimits inputs [] wave)
    (distinct : wave.steps.Nodup) (pair : ∀ step ∈ wave.steps, step = first ∨ step = second)
    (firstMem : first ∈ wave.steps) (secondInput : second ∈ inputs)
    (free : second.dependencies = []) (phases : second.phase = first.phase)
    (ids : first.id ≠ second.id)
    (apart : ∀ failureDomain ∈ first.failureDomains, failureDomain ∉ second.failureDomains) :
    second ∈ wave.steps := by
  by_contra missing
  have alone : wave.steps = [first] := by
    have perm : wave.steps.Perm [first] := by
      refine (List.perm_ext_iff_of_nodup distinct (List.nodup_singleton first)).mpr fun step => ?_
      rw [List.mem_singleton]
      refine ⟨fun stepMem => (pair step stepMem).resolve_right ?_, fun same => same ▸ firstMem⟩
      rintro rfl
      exact missing stepMem
    exact List.perm_singleton.mp perm
  let budget : Budget := { limits := defaultLimits, active := Counter.acquire ∅ (keysFor first) }
  have holds : budget.Holds wave.steps := by
    rw [alone]
    exact Counter.counts_empty.acquire (keysFor first)
  have blocked := sound.maximal first firstMem second secondInput List.not_mem_nil missing
    (by simp [ReadyAfter, free]) phases budget rfl holds
  rw [Budget.tryAcquire_blocked_eq, Budget.blockedKeys_ne_nil_iff] at blocked
  obtain ⟨key, needed, exhausted⟩ := blocked
  have counted : budget.active.find key 0 = (wave.steps.flatMap keysFor).count key :=
    Counter.Counts.find_eq holds key
  rw [alone, List.flatMap_singleton] at counted
  have room := not_blocked_of_apart ids apart needed
  rw [counted] at exhausted
  exact absurd exhausted (not_le.mpr room)

/-- Two steps of one phase, which nothing else is released with, are in one wave. -/
theorem Schedule.together_of_pair (schedule : Schedule defaultLimits inputs waves)
    (distinct : (inputs.map Step.id).Nodup) (descending : Descending inputs)
    (pair : ∀ step ∈ inputs, step = first ∨ step = second) (firstInput : first ∈ inputs)
    (secondInput : second ∈ inputs) (phases : first.phase = second.phase)
    (ids : first.id ≠ second.id)
    (apart : ∀ failureDomain ∈ first.failureDomains, failureDomain ∉ second.failureDomains) :
    ∃ wave ∈ waves, first ∈ wave.steps ∧ second ∈ wave.steps := by
  obtain ⟨before, wave, after, split, -⟩ := schedule.exists_split firstInput
  obtain ⟨wave, rest, rfl⟩ : ∃ wave rest, waves = wave :: rest := by
    cases before with
    | nil => exact ⟨wave, after, split⟩
    | cons head tail => exact ⟨head, tail ++ wave :: after, split⟩
  have sound := schedule.sound [] wave rest rfl
  have input : ∀ step ∈ wave.steps, step ∈ inputs := fun step stepMem =>
    schedule.partition.mem_iff.mp (List.mem_flatMap.mpr ⟨wave, List.mem_cons_self, stepMem⟩)
  have nodup : wave.steps.Nodup := by
    have all : (dispatched (wave :: rest)).Nodup :=
      schedule.partition.nodup_iff.mpr distinct.of_map
    rw [dispatched, List.flatMap_cons] at all
    exact all.of_append_left
  have members : ∀ step ∈ wave.steps, step = first ∨ step = second :=
    fun step stepMem => pair step (input step stepMem)
  have level : ∀ step ∈ inputs, step.phase = first.phase := by
    intro step stepMem
    rcases pair step stepMem with rfl | rfl
    · rfl
    · exact phases.symm
  have firstFree := descending.dependencies_eq_nil schedule.listed level firstInput
  have secondFree := descending.dependencies_eq_nil schedule.listed level secondInput
  refine ⟨wave, List.mem_cons_self, ?_⟩
  obtain ⟨chosen, chosenMem⟩ := List.exists_mem_of_ne_nil _ sound.nonempty
  rcases members chosen chosenMem with rfl | rfl
  · exact ⟨chosenMem, sound.mem_of_pair nodup members chosenMem secondInput secondFree
      phases.symm ids apart⟩
  · refine ⟨sound.mem_of_pair nodup (fun step stepMem => (members step stepMem).symm) chosenMem
      firstInput firstFree phases ids.symm ?_, chosenMem⟩
    exact fun failureDomain listed again => apart failureDomain again listed

end Themisy.Scheduler
