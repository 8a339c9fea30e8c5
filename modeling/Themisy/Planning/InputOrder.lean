import Themisy.Collections.Rearrangement
import Themisy.Planning.Agreement

/-!
# Plans do not depend on the order of their inputs

The contracts, the profiles and the changes of an intent are sets which happen to be
written as lists, and so are the dependencies, checks and capabilities inside the
documents. Whatever their order, and whatever the order in which the maps are visited,
the constructor and the planner fail together or return the same plan.
-/

namespace Themisy.Planning

open Domain Contract

section Documents

variable {digest : Digest} {contracts contractsAgain : List ServiceContract}
  {profiles profilesAgain : List ReleaseProfile}

theorem Ready.reordered {first second : ReleaseProfile} (ready : Ready digest first)
    (reordered : first.Reordered second) : Ready digest second := by
  have rest := reordered.rest
  simp only [ReleaseProfile.mk.injEq, true_and] at rest
  refine ⟨reordered.validate ready.valid, ?_⟩
  rw [ReleaseProfile.hash, ← reordered.canonical_eq, ← ReleaseProfile.hash,
    ← rest.2.2.2.2.2.2.2]
  exact ready.unchanged

theorem Served.rearranged {environment other : EnvironmentContract}
    (rearranged : Rearranged ReleaseProfile.Reordered profiles profilesAgain)
    (distinct : (profiles.map ReleaseProfile.name).Nodup)
    (distinctAgain : (profilesAgain.map ReleaseProfile.name).Nodup)
    (reordered : environment.Reordered other)
    (served : Served (storedProfiles digest profiles).byName environment) :
    Served (storedProfiles digest profilesAgain).byName other := by
  obtain ⟨_, found, offered⟩ := served
  obtain ⟨profile, member, named, rfl⟩ :=
    ((tabulates_storedProfiles digest distinct).1 _ _).mp found
  obtain ⟨profileAgain, memberAgain, same⟩ := rearranged.forth member
  have stored := (tabulates_storedProfiles digest distinctAgain).1.eq_some memberAgain
  rw [← same.name_eq, named, reordered.releaseProfile] at stored
  refine ⟨_, stored, fun capability required => ?_⟩
  exact reordered.capabilities.mem_iff.mp
    (offered capability (same.requiredCapabilities.mem_iff.mpr required))

theorem Admissible.rearranged {first second : ServiceContract}
    (rearranged : Rearranged ReleaseProfile.Reordered profiles profilesAgain)
    (distinct : (profiles.map ReleaseProfile.name).Nodup)
    (distinctAgain : (profilesAgain.map ReleaseProfile.name).Nodup)
    (reordered : first.Reordered second)
    (admissible : Admissible digest (storedProfiles digest profiles).byName first) :
    Admissible digest (storedProfiles digest profilesAgain).byName second := by
  have rest := reordered.rest
  simp only [ServiceContract.mk.injEq, true_and] at rest
  refine ⟨reordered.validate _ _ admissible.valid, ?_, ?_⟩
  · rw [ServiceContract.hash, ← reordered.canonical_eq, ← ServiceContract.hash,
      ← rest.2.2.2.2.2.2.2.2.2.2.2]
    exact admissible.unchanged
  · intro name environment found
    rcases reordered.environment_cases name with ⟨-, absent⟩ | ⟨before, _, stored, again, same⟩
    · rw [absent] at found
      cases found
    · rw [again] at found
      cases found
      exact (admissible.served name before stored).rearranged rearranged distinct distinctAgain same

theorem Accepted.rearranged (accepted : Accepted digest contracts profiles)
    (contractsRearranged : Rearranged ServiceContract.Reordered contracts contractsAgain)
    (profilesRearranged : Rearranged ReleaseProfile.Reordered profiles profilesAgain) :
    Accepted digest contractsAgain profilesAgain := by
  have back := contractsRearranged.symm fun _ _ => ServiceContract.Reordered.symm
  have profilesBack := profilesRearranged.symm fun _ _ => ReleaseProfile.Reordered.symm
  have names := contractsRearranged.map_perm ServiceContract.name
    fun _ _ => ServiceContract.Reordered.name_eq
  have profileNames := profilesRearranged.map_perm ReleaseProfile.name
    fun _ _ => ReleaseProfile.Reordered.name_eq
  have profilesDistinct := profileNames.nodup_iff.mp accepted.profilesDistinct
  refine ⟨⟨?nonempty, ?ready, ?profilesDistinct, ?admissible, ?distinct, ?known⟩, ?acyclic⟩
  case nonempty =>
    intro empty
    subst empty
    exact accepted.nonempty (List.map_eq_nil_iff.mp names.eq_nil)
  case ready =>
    intro profile member
    obtain ⟨other, otherMem, same⟩ := profilesBack.forth member
    exact (accepted.ready other otherMem).reordered same.symm
  case profilesDistinct => exact profilesDistinct
  case admissible =>
    intro contract member
    obtain ⟨other, otherMem, same⟩ := back.forth member
    exact (accepted.admissible other otherMem).rearranged profilesRearranged
      accepted.profilesDistinct profilesDistinct same.symm
  case distinct => exact names.nodup_iff.mp accepted.distinct
  case known =>
    intro contract member dependency declared
    obtain ⟨other, otherMem, same⟩ := back.forth member
    rw [← names.mem_iff]
    exact accepted.known other otherMem dependency (same.dependencies.mem_iff.mp declared)
  case acyclic =>
    intro name cycle
    refine accepted.acyclic name (Relation.TransGen.mono ?_ _ _ cycle)
    rintro name needed ⟨contract, member, named, ordering⟩
    obtain ⟨other, otherMem, same⟩ := back.forth member
    refine ⟨other, otherMem, same.name_eq.symm.trans named, ?_⟩
    exact (mem_orderingDependencies_of_canonical_eq same.canonical_eq).mp ordering

theorem covered_contracts
    (rearranged : Rearranged ServiceContract.Reordered contracts contractsAgain) :
    Covered ServiceContract.name ServiceContract.canonical contracts contractsAgain := by
  intro contract member
  obtain ⟨other, otherMem, same⟩ := rearranged.forth member
  exact ⟨other, otherMem, same.name_eq.symm, same.canonical_eq.symm⟩

theorem covered_profiles (rearranged : Rearranged ReleaseProfile.Reordered profiles profilesAgain) :
    Covered ReleaseProfile.name ReleaseProfile.canonical profiles profilesAgain := by
  intro profile member
  obtain ⟨other, otherMem, same⟩ := rearranged.forth member
  exact ⟨other, otherMem, same.name_eq.symm, same.canonical_eq.symm⟩

theorem agrees_of_rearranged {options : Options} {phase phaseAgain : String → ℤ}
    {planner other : Planner} (composed : Composed digest contracts profiles options phase planner)
    (composedAgain : Composed digest contractsAgain profilesAgain options phaseAgain other)
    (contractsRearranged : Rearranged ServiceContract.Reordered contracts contractsAgain)
    (profilesRearranged : Rearranged ReleaseProfile.Reordered profiles profilesAgain) :
    planner.Agrees other := by
  have forth := covered_contracts contractsRearranged
  have back := covered_contracts
    (contractsRearranged.symm fun _ _ => ServiceContract.Reordered.symm)
  have profilesForth := covered_profiles profilesRearranged
  have profilesBack := covered_profiles
    (profilesRearranged.symm fun _ _ => ReleaseProfile.Reordered.symm)
  have contractHashes := forth.eq back composed.contractHashes composedAgain.contractHashes
    fun _ _ _ _ _ encoded => congrArg digest.hashValue encoded
  have profileHashes := profilesForth.eq profilesBack composed.profileHashes
    composedAgain.profileHashes fun _ _ _ _ _ encoded => congrArg digest.hashValue encoded
  refine composed.agrees composedAgain forth back profilesForth profilesBack ?_ ?_ ?_
  · rw [composed.settings, composedAgain.settings]
    simp only [newPlanner, Json.ofMap_congr fun name =>
        congrArg (Option.map Json.text) (congrFun contractHashes name),
      Json.ofMap_congr fun name =>
        congrArg (Option.map Json.text) (congrFun profileHashes name)]
  · rw [composed.settings, composedAgain.settings]
    rfl
  · rw [composed.settings, composedAgain.settings]
    rfl

end Documents

/-- What two attempts to plan the same release have in common. -/
def SameOutcome (first second : Except GoError ReleasePlan) : Prop :=
  (∃ error errorAgain, first = .error error ∧ second = .error errorAgain) ∨
    ∃ plan planAgain, first = .ok plan ∧ second = .ok planAgain ∧
      planAgain.planHash = plan.planHash ∧ planAgain.id = plan.id ∧
      planAgain.phases = plan.phases

theorem Planner.Agrees.sameOutcome {first second : Planner} (agrees : first.Agrees second)
    {intent other : ReleaseIntent} (permuted : Permuted intent other) (digest : Digest)
    (order orderAgain : IterationOrder String) (now later : Time) :
    SameOutcome (first.planIntent digest order now intent)
      (second.planIntent digest orderAgain later other) := by
  cases planned : first.planIntent digest order now intent with
  | ok plan =>
    obtain ⟨planAgain, plannedAgain, phases, hash, id⟩ :=
      agrees.planIntent digest order orderAgain permuted later planned
    exact Or.inr ⟨plan, planAgain, rfl, plannedAgain, hash, id, phases⟩
  | error error =>
    cases plannedAgain : second.planIntent digest orderAgain later other with
    | error errorAgain => exact Or.inl ⟨error, errorAgain, rfl, rfl⟩
    | ok planAgain =>
      obtain ⟨_, succeeded, -⟩ := agrees.symm.planIntent digest orderAgain order permuted.symm
        now plannedAgain
      rw [planned] at succeeded
      cases succeeded

/--
Whatever the order of the contracts, of the profiles, of the changes and of the lists
inside the documents, and whatever the order in which the maps are visited, the
constructor fails twice, or it succeeds twice and the planners fail together or return
plans with the same hash, the same identity and the same phases.
-/
theorem plans_independent_of_input_order (digest : Digest) (options : Options)
    (contracts contractsAgain : List ServiceContract)
    (profiles profilesAgain : List ReleaseProfile) (intent intentAgain : ReleaseIntent)
    (contractsRearranged : Rearranged ServiceContract.Reordered contracts contractsAgain)
    (profilesRearranged : Rearranged ReleaseProfile.Reordered profiles profilesAgain)
    (permuted : Permuted intent intentAgain) (orders ordersAgain : Orders)
    (order orderAgain : IterationOrder String) (now later : Time) :
    (∃ error errorAgain,
        newFromContracts digest orders contracts profiles options = .error error ∧
        newFromContracts digest ordersAgain contractsAgain profilesAgain options =
          .error errorAgain) ∨
      ∃ planner plannerAgain,
        newFromContracts digest orders contracts profiles options = .ok planner ∧
        newFromContracts digest ordersAgain contractsAgain profilesAgain options =
          .ok plannerAgain ∧
        SameOutcome (planner.planIntent digest order now intent)
          (plannerAgain.planIntent digest orderAgain later intentAgain) := by
  have accepted := exists_newFromContracts_iff digest orders contracts profiles options
  have acceptedAgain := exists_newFromContracts_iff digest ordersAgain contractsAgain
    profilesAgain options
  cases built : newFromContracts digest orders contracts profiles options with
  | ok planner =>
    have rearranged := (accepted.mp ⟨planner, built⟩).rearranged contractsRearranged
      profilesRearranged
    obtain ⟨plannerAgain, builtAgain⟩ := acceptedAgain.mpr rearranged
    obtain ⟨phase, composed⟩ := composed_of_newFromContracts built
    obtain ⟨phaseAgain, composedAgain⟩ := composed_of_newFromContracts builtAgain
    have agrees := agrees_of_rearranged composed composedAgain contractsRearranged
      profilesRearranged
    exact Or.inr ⟨planner, plannerAgain, rfl, builtAgain,
      agrees.sameOutcome permuted digest order orderAgain now later⟩
  | error error =>
    cases builtAgain :
        newFromContracts digest ordersAgain contractsAgain profilesAgain options with
    | error errorAgain => exact Or.inl ⟨error, errorAgain, rfl, rfl⟩
    | ok plannerAgain =>
      have rearranged := (acceptedAgain.mp ⟨plannerAgain, builtAgain⟩).rearranged
        (contractsRearranged.symm fun _ _ => ServiceContract.Reordered.symm)
        (profilesRearranged.symm fun _ _ => ReleaseProfile.Reordered.symm)
      obtain ⟨planner, succeeded⟩ := accepted.mpr rearranged
      rw [built] at succeeded
      cases succeeded

/-- Two contracts, the dependencies of one of them, and the changes in reverse order. -/
theorem plans_independent_of_input_order_reversed :
    let api := stagingContract "api" []
    let needsApi : Dependency := { service := "api", type := .rolloutOrder }
    let sharesDatabase : Dependency := { resource := "db", type := .sharedFailureDomain }
    ∃ planner plannerAgain plan planAgain,
      PlansFrom default [api, stagingContract "web" [needsApi, sharesDatabase]]
        (stagingRelease ["api", "web"]) planner plan ∧
      PlansFrom default [stagingContract "web" [sharesDatabase, needsApi], api]
        (stagingRelease ["web", "api"]) plannerAgain planAgain ∧
      planAgain.planHash = plan.planHash ∧ planAgain.id = plan.id ∧
      planAgain.phases = plan.phases ∧
      plan.steps.map (fun step => (step.service, step.phase)) = [("api", 0), ("web", 1)] := by
  intro api needsApi sharesDatabase
  have reordered : (stagingContract "web" [needsApi, sharesDatabase]).Reordered
      (stagingContract "web" [sharesDatabase, needsApi]) :=
    ⟨rfl, (ServiceContract.Reordered.refl api).environments, .swap _ _ _, .refl _⟩
  obtain ⟨planner, plan, plans, phases⟩ := exists_of_rehearseFrom (show rehearseFrom default
    [api, stagingContract "web" [needsApi, sharesDatabase]] (stagingRelease ["api", "web"])
      (fun plan => .ok (plan.steps.map fun step => (step.service, step.phase))) =
        .ok [("api", 0), ("web", 1)] by decide +kernel)
  have outcome := plans_independent_of_input_order default {}
    [api, stagingContract "web" [needsApi, sharesDatabase]]
    [stagingContract "web" [sharesDatabase, needsApi], api] [standardProfile] [standardProfile]
    (stagingRelease ["api", "web"]) (stagingRelease ["web", "api"])
    ⟨_, .swap _ _ _, .cons reordered (.cons (.refl api) .nil)⟩
    ⟨_, .refl _, .cons ⟨rfl, .refl _⟩ .nil⟩ ⟨rfl, .swap _ _ _⟩
    ⟨.stored, .stored⟩ ⟨.stored, .stored⟩ .stored .stored 1 1
  rw [plans.built] at outcome
  rcases outcome with ⟨_, -, failed, -⟩ | ⟨_, plannerAgain, made, builtAgain, same⟩
  · cases failed
  cases made
  rw [plans.planned] at same
  rcases same with ⟨_, -, failed, -⟩ | ⟨_, planAgain, made, plannedAgain, same⟩
  · cases failed
  cases made
  exact ⟨planner, plannerAgain, plan, planAgain, plans, ⟨builtAgain, plannedAgain⟩, same.1,
    same.2.1, same.2.2, Except.ok.inj phases⟩

end Themisy.Planning
