import Themisy.Collections.Rearrangement
import Themisy.Scheduler.WaveCorrectness

/-!
# Waves do not depend on the order of their input

The steps of `buildWaves` are cloned with sorted lists and kept in a map, so all
that an arrangement of the input decides is the order in which the map is filled
and visited. The ready steps are sorted by phase and identifier, and identifiers
are distinct; so two loops over maps with the same lookups pack the same waves,
round after round.
-/

namespace Themisy.Scheduler

/-- The same step, with its failure domains and its dependencies in some other order. -/
structure Step.Reordered (first second : Step) : Prop where
  fields : { second with
    failureDomains := first.failureDomains, dependencies := first.dependencies } = first
  failureDomains : first.failureDomains.Perm second.failureDomains
  dependencies : first.dependencies.Perm second.dependencies

theorem Step.Reordered.cloneStep_eq {first second : Step} (reordered : first.Reordered second) :
    cloneStep first = cloneStep second := by
  rw [← reordered.fields]
  simp only [cloneStep, sortStrings_eq_of_perm reordered.failureDomains,
    sortStrings_eq_of_perm reordered.dependencies]

namespace WaveState

/-- Two states of the loop which differ only in how their maps are arranged. -/
structure Alike (first second : WaveState) : Prop where
  keyed : Keyed first.pending
  pending : ∀ id, first.pending.get? id = second.pending.get? id
  completed : ∀ id, first.completed.find id false = second.completed.find id false
  budget : first.budget = second.budget
  waves : first.waves = second.waves

variable {first second : WaveState}

theorem Alike.values_perm (alike : Alike first second) :
    first.pending.values.Perm second.pending.values := by
  unfold GoMap.values
  exact (GoMap.entries_perm_of_get?_eq alike.pending).map _

theorem Keyed.eq_of_id_eq {pending : GoMap String Step} (keyed : Keyed pending) {left right : Step}
    (leftMem : left ∈ pending.values) (rightMem : right ∈ pending.values)
    (same : left.id = right.id) : left = right := by
  have found := keyed.get?_of_mem_values leftMem
  rw [same, keyed.get?_of_mem_values rightMem] at found
  exact (Option.some.inj found).symm

theorem Alike.ready_eq (alike : Alike first second) (order other : IterationOrder Step) :
    first.ready order = second.ready other := by
  have complete : ∀ step, dependenciesComplete step first.completed =
      dependenciesComplete step second.completed := by
    intro step
    simp only [dependenciesComplete, alike.completed]
  have perm : (first.ready order).Perm (second.ready other) := by
    refine (List.perm_insertionSort _ _).trans (.trans ?_ (List.perm_insertionSort _ _).symm)
    simp only [complete]
    refine List.Perm.filter _ ?_
    exact (order.perm _ _).trans (alike.values_perm.trans (other.perm _ _).symm)
  refine perm.eq_of_pairwise ?_ (ready_sorted order first) (ready_sorted other second)
  intro left right leftMem rightMem before after
  apply alike.keyed.eq_of_id_eq (mem_ready.mp leftMem).1
  · exact (mem_ready.mp (perm.mem_iff.mpr rightMem)).1
  · unfold DispatchedBefore at before after
    rcases before with less | ⟨same, le⟩ <;> rcases after with less' | ⟨same', le'⟩
    · omega
    · omega
    · omega
    · exact le_antisymm le le'

theorem Alike.advance (alike : Alike first second) (packing : Packing) :
    Alike (first.advance packing) (second.advance packing) := by
  refine ⟨?_, ?_, ?_, rfl, by simp only [WaveState.advance, alike.waves]⟩
  · intro id step found
    simp only [WaveState.advance, get?_foldl_delete] at found
    split at found
    · cases found
    · exact alike.keyed id step found
  · intro id
    simp only [WaveState.advance, get?_foldl_delete, alike.pending]
  · intro id
    rw [Bool.eq_iff_iff]
    simp only [WaveState.advance, GoMap.find_foldl_set_true Step.id, alike.completed]

/-- Alike states leave the loop together, or continue alike. -/
theorem Alike.round (alike : Alike first second) (order other : IterationOrder Step) :
    (∃ result, first.round order = .inr result ∧ second.round other = .inr result) ∨
      ∃ next after, first.round order = .inl next ∧ second.round other = .inl after ∧
        Alike next after := by
  have empty : first.pending.entries = [] ↔ second.pending.entries = [] := by
    have perm := GoMap.entries_perm_of_get?_eq alike.pending
    constructor
    · intro nil
      rw [nil] at perm
      exact perm.symm.eq_nil
    · intro nil
      rw [nil] at perm
      exact perm.eq_nil
  have ready := alike.ready_eq order other
  unfold WaveState.round
  by_cases finished : first.pending.entries = []
  · left
    rw [if_pos finished, if_pos (empty.mp finished), alike.waves]
    exact ⟨_, rfl, rfl⟩
  rw [if_neg finished, if_neg (fun nil => finished (empty.mpr nil)), ready, alike.budget]
  cases second.ready other with
  | nil => exact Or.inl ⟨_, rfl, rfl⟩
  | cons head rest =>
    by_cases blocked : (pack head.phase (head :: rest) second.budget).steps = []
    · left
      simp only [if_pos blocked]
      exact ⟨_, rfl, rfl⟩
    · right
      simp only [if_neg blocked]
      exact ⟨_, _, rfl, rfl, alike.advance _⟩

end WaveState

variable {steps : List Step}

theorem get?_collect {pending : GoMap String Step} (collected : collect steps ∅ = .ok pending)
    (id : String) (step : Step) :
    pending.get? id = some step ↔ step ∈ steps.map cloneStep ∧ step.id = id := by
  have keyed := collect_keyed empty_keyed collected
  have values : pending.values.Perm (steps.map cloneStep) := by
    simpa using (collect_eq_ok collected).2.2.2
  rw [← values.mem_iff]
  constructor
  · intro found
    exact ⟨GoMap.mem_values_iff.mpr ⟨id, found⟩, keyed id step found⟩
  · rintro ⟨member, rfl⟩
    exact keyed.get?_of_mem_values member

theorem exists_collect_iff :
    (∃ pending, collect steps ∅ = .ok pending) ↔
      (∀ step ∈ steps.map cloneStep, step.id ≠ "") ∧ ((steps.map cloneStep).map Step.id).Nodup := by
  rw [map_id_cloneStep]
  constructor
  · rintro ⟨pending, collected⟩
    obtain ⟨named, distinct, -, -⟩ := collect_eq_ok collected
    refine ⟨?_, distinct⟩
    intro cloned member
    obtain ⟨step, stepMem, rfl⟩ := List.mem_map.mp member
    exact named step stepMem
  · rintro ⟨named, distinct⟩
    refine exists_collect_eq_ok ?_ distinct (fun _ _ => rfl)
    intro step member
    exact named (cloneStep step) (List.mem_map_of_mem member)

/--
`buildWaves` returns the same waves for every arrangement of the same steps and
every order in which the map of pending steps is visited, or fails for all of them.
-/
theorem buildWaves_independent_of_order (limits : Limits) (steps others : List Step)
    (rearranged : Rearranged Step.Reordered steps others) (order again : IterationOrder Step) :
    (∃ waves, buildWaves order steps limits = .ok waves ∧
      buildWaves again others limits = .ok waves) ∨
    ∃ error failure, buildWaves order steps limits = .error error ∧
      buildWaves again others limits = .error failure := by
  have perm := rearranged.map_perm cloneStep fun _ _ => Step.Reordered.cloneStep_eq
  have both : (∃ pending, collect steps ∅ = .ok pending) ↔
      ∃ pending, collect others ∅ = .ok pending := by
    rw [exists_collect_iff, exists_collect_iff, (perm.map Step.id).nodup_iff]
    simp only [perm.mem_iff]
  cases created : newBudget limits with
  | error error =>
    refine Or.inr ⟨.limits error, .limits error, ?_, ?_⟩
    all_goals simp only [buildWaves, created]
  | ok budget =>
    by_cases named : ∃ pending, collect steps ∅ = .ok pending
    · obtain ⟨pending, collected⟩ := named
      obtain ⟨filled, collectedToo⟩ := both.mp ⟨pending, collected⟩
      have start : WaveState.Alike ⟨pending, ∅, budget, []⟩ ⟨filled, ∅, budget, []⟩ := by
        refine ⟨collect_keyed empty_keyed collected, ?_, fun _ => rfl, rfl, rfl⟩
        intro id
        apply Option.ext
        intro step
        rw [get?_collect collected, get?_collect collectedToo, perm.mem_iff]
      have size := start.values_perm.length_eq
      have returned := run_eq_some_buildWaves order created collected
      have returnedToo := run_eq_some_buildWaves again created collectedToo
      simp only [GoMap.values, List.length_map] at size
      rw [Loop.run_eq_of_related WaveState.Alike
        (fun _ _ alike => alike.round order again) _ start, size, returnedToo] at returned
      rw [← Option.some.inj returned]
      cases buildWaves again others limits with
      | error error => exact Or.inr ⟨error, error, rfl, rfl⟩
      | ok waves => exact Or.inl ⟨waves, rfl, rfl⟩
    · right
      have fails : ∀ (order : IterationOrder Step) (steps : List Step),
          (¬∃ pending, collect steps ∅ = .ok pending) →
          ∃ error, buildWaves order steps limits = .error error := by
        intro order steps refused
        unfold buildWaves
        simp only [created]
        split
        · next error _ => exact ⟨error, rfl⟩
        · next pending collected => exact absurd ⟨pending, collected⟩ refused
      obtain ⟨error, failed⟩ := fails order steps named
      obtain ⟨failure, failedToo⟩ := fails again others (fun passed => named (both.mpr passed))
      exact ⟨error, failure, failed, failedToo⟩

/-- Two steps in either order form the same two waves, because they share a failure domain. -/
theorem buildWaves_independent_of_order_swapped :
    let api := { plainStep "api" with failureDomains := ["db", "queue"] }
    let web := { plainStep "web" with failureDomains := ["db"] }
    Rearranged Step.Reordered [api, web] [web, { api with failureDomains := ["queue", "db"] }] ∧
      ∃ waves, waves.length = 2 ∧ buildWaves .stored [api, web] defaultLimits = .ok waves ∧
        buildWaves .stored [web, { api with failureDomains := ["queue", "db"] }] defaultLimits =
          .ok waves := by
  intro api web
  have rearranged : Rearranged Step.Reordered [api, web]
      [web, { api with failureDomains := ["queue", "db"] }] := by
    refine ⟨[web, api], .swap _ _ _, ?_⟩
    exact .cons ⟨rfl, .refl _, .refl _⟩ (.cons ⟨rfl, .swap _ _ _, .refl _⟩ .nil)
  refine ⟨rearranged, ?_⟩
  have evaluated : (buildWaves .stored [api, web] defaultLimits).toOption.map List.length =
      some 2 := by
    decide +kernel
  rcases buildWaves_independent_of_order defaultLimits _ _ rearranged .stored .stored with
    ⟨waves, built, builtToo⟩ | ⟨error, -, failed, -⟩
  · rw [built] at evaluated
    exact ⟨waves, by simpa [Except.toOption] using evaluated, built, builtToo⟩
  · rw [failed] at evaluated
    cases evaluated

end Themisy.Scheduler
