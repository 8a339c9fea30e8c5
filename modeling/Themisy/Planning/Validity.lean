import Themisy.Planning.Agreement
import Themisy.Store.Plans

/-!
# A valid plan is reproducible and untampered

`validatePlan` compares the hashes which a plan has pinned with those of a planner.
They determine every input on which plans depend, so a planner which finds a plan
valid would plan the same release, and a plan with changed content and an old hash is
refused. Both hold for a plan which was stored and read back.

The encodings of the documents and plans in question are assumed to have different
digests.
-/

namespace Themisy.Planning

open Domain Contract Json

def hashedContent (plan : ReleasePlan) : Json :=
  .object (field "api_version" (.text plan.apiVersion) ++
    field "release_version" (.text plan.releaseVersion) ++
    field "environment" (.text plan.environment.text) ++
    field "phases" (ofSlice PlanPhase.toJson plan.phases) ++
    field "contract_hashes" (ofMap Json.text plan.contractHashes) ++
    field "profile_hashes" (ofMap Json.text plan.profileHashes) ++
    field "context_snapshot_ref" (.text plan.contextSnapshotRef) ++
    field "policy_hash" (.text plan.policyHash) ++
    field "evidence_hash" (.text plan.evidenceHash))

theorem planHash_eq_hashValue (digest : Digest) (plan : ReleasePlan) :
    planHash digest plan = digest.hashValue (hashedContent plan) := rfl

/-- Two plans which agree in all hashed fields. -/
structure SameContent (first second : ReleasePlan) : Prop where
  apiVersion : first.apiVersion = second.apiVersion
  releaseVersion : first.releaseVersion = second.releaseVersion
  environment : first.environment = second.environment
  phases : first.phases = second.phases
  contractHashes : ∀ name, first.contractHashes.get? name = second.contractHashes.get? name
  profileHashes : ∀ name, first.profileHashes.get? name = second.profileHashes.get? name
  contextSnapshotRef : first.contextSnapshotRef = second.contextSnapshotRef
  policyHash : first.policyHash = second.policyHash
  evidenceHash : first.evidenceHash = second.evidenceHash

variable {second first : ReleasePlan}

theorem SameContent.hashedContent_eq (same : SameContent first second) :
    hashedContent first = hashedContent second := by
  have contracts : ofMap Json.text first.contractHashes = ofMap Json.text second.contractHashes :=
    ofMap_congr fun name => congrArg _ (same.contractHashes name)
  have profiles : ofMap Json.text first.profileHashes = ofMap Json.text second.profileHashes :=
    ofMap_congr fun name => congrArg _ (same.profileHashes name)
  simp only [hashedContent, same.apiVersion, same.releaseVersion, same.environment, same.phases,
    contracts, profiles, same.contextSnapshotRef, same.policyHash, same.evidenceHash]

/-- The hashed encoding determines all hashed fields. -/
theorem sameContent_of_hashedContent_eq (same : hashedContent first = hashedContent second) :
    SameContent first second := by
  have member := fun name => congrArg (lookup name) same
  simp only [hashedContent, lookup_append, lookup_field] at member
  have texts : ∀ {left right : String}, some (Json.text left) = some (Json.text right) →
      left = right := fun eq => Json.text.inj (Option.some.inj eq)
  have maps : ∀ {left right : GoMap String String},
      some (ofMap Json.text left) = some (ofMap Json.text right) →
        ∀ name, left.get? name = right.get? name := by
    intro left right eq name
    have encoded := congrArg (lookup name) (Option.some.inj eq)
    rw [lookup_ofMap, lookup_ofMap] at encoded
    exact Option.map_injective (fun _ _ => Json.text.inj) encoded
  constructor
  case apiVersion => exact texts (by simpa using member "api_version")
  case releaseVersion => exact texts (by simpa using member "release_version")
  case environment =>
    have text : first.environment.text = second.environment.text :=
      texts (by simpa using member "environment")
    rw [← Environment.ofText_text first.environment, text, Environment.ofText_text]
  case phases =>
    have phases : some (ofSlice PlanPhase.toJson first.phases) =
        some (ofSlice PlanPhase.toJson second.phases) := by simpa using member "phases"
    rw [← readItems_ofSlice PlanPhase.ofJson_toJson first.phases, phases,
      readItems_ofSlice PlanPhase.ofJson_toJson]
  case contractHashes => exact maps (by simpa using member "contract_hashes")
  case profileHashes => exact maps (by simpa using member "profile_hashes")
  case contextSnapshotRef => exact texts (by simpa using member "context_snapshot_ref")
  case policyHash => exact texts (by simpa using member "policy_hash")
  case evidenceHash => exact texts (by simpa using member "evidence_hash")

namespace Planner

/-- `maps.Equal` compares the lookups of two maps. -/
theorem mapsEqual_iff {left right : GoMap String String} :
    mapsEqual left right = true ↔ ∀ name, left.get? name = right.get? name := by
  simp only [mapsEqual, decide_eq_true_eq, List.all_eq_true]
  constructor
  · rintro ⟨length, entries⟩
    have found : ∀ name value, left.get? name = some value → right.get? name = some value :=
      fun name value here => entries _ (GoMap.mem_entries_iff.mpr here)
    have subset : left.keys ⊆ right.keys := by
      intro name member
      obtain ⟨value, here⟩ := Option.isSome_iff_exists.mp (GoMap.isSome_get?_iff.mpr member)
      exact GoMap.isSome_get?_iff.mp (Option.isSome_iff_exists.mpr ⟨value, found name value here⟩)
    have perm : left.keys.Perm right.keys :=
      (List.subperm_of_subset left.keys_nodup subset).perm_of_length_le length.ge
    intro name
    cases here : left.get? name with
    | some value => exact (found name value here).symm
    | none =>
      have absent : name ∉ right.keys := fun member =>
        AList.lookup_eq_none.mp here (perm.mem_iff.mpr member)
      exact (AList.lookup_eq_none.mpr absent).symm
  · intro same
    have keys : left.keys.Perm right.keys := by
      refine (List.perm_ext_iff_of_nodup left.keys_nodup right.keys_nodup).mpr fun name => ?_
      have here : (left.get? name).isSome ↔ (right.get? name).isSome := by rw [same]
      rwa [GoMap.isSome_get?_iff, GoMap.isSome_get?_iff] at here
    refine ⟨keys.length_eq, fun entry member => ?_⟩
    rw [← same]
    exact GoMap.mem_entries_iff.mp member

variable {digest : Digest} {planner : Planner} {order : IterationOrder String}
  {created : Time} {intent : ReleaseIntent} {plan stored : ReleasePlan}

/-- A plan which carries its own hash, and the basis of the planner. -/
structure Sealed (digest : Digest) (planner : Planner) (plan : ReleasePlan) : Prop where
  hash : plan.hash = plan.planHash
  planHash : plan.planHash = Planning.planHash digest plan
  contractHashes : ∀ name, plan.contractHashes.get? name = planner.contractHashes.get? name
  profileHashes : ∀ name, plan.profileHashes.get? name = planner.profileHashes.get? name
  contextSnapshotRef : plan.contextSnapshotRef = planner.contextSnapshotRef
  policyHash : plan.policyHash = planner.policyHash
  evidenceHash : plan.evidenceHash = planner.evidenceHash

theorem sealed_of_planIntent (planned : planner.planIntent digest order created intent = .ok plan) :
    Sealed digest planner plan := by
  obtain ⟨changes, -, -, rfl⟩ := exists_changes_of_planIntent planned
  exact ⟨rfl, rfl, fun _ => rfl, fun _ => rfl, rfl, rfl, rfl⟩

theorem sameContent_of_alike (alike : stored.Alike plan) : SameContent stored plan := by
  have rest := alike.rest
  simp only [ReleasePlan.mk.injEq, true_and] at rest
  obtain ⟨version, -, release, environment, phases, -, -, context, policy, evidence, -⟩ := rest
  exact ⟨version, release, environment, phases, alike.contractHashes, alike.profileHashes, context,
    policy, evidence⟩

theorem Sealed.alike (pinned : Sealed digest planner plan) (alike : stored.Alike plan) :
    Sealed digest planner stored := by
  have content := sameContent_of_alike alike
  have rest := alike.rest
  simp only [ReleasePlan.mk.injEq, true_and] at rest
  obtain ⟨-, -, -, -, -, hash, planHash, -⟩ := rest
  refine ⟨?_, ?_, fun name => (content.contractHashes name).trans (pinned.contractHashes name),
    fun name => (content.profileHashes name).trans (pinned.profileHashes name),
    content.contextSnapshotRef.trans pinned.contextSnapshotRef,
    content.policyHash.trans pinned.policyHash, content.evidenceHash.trans pinned.evidenceHash⟩
  · rw [hash, planHash, pinned.hash]
  · rw [planHash, pinned.planHash, planHash_eq_hashValue, planHash_eq_hashValue,
      content.hashedContent_eq]

theorem hashValue_ne_empty (digest : Digest) (value : Json) : digest.hashValue value ≠ "" := by
  intro empty
  have characters := congrArg String.toList empty
  simp [Digest.hashValue] at characters

/-- A sealed plan is valid for the planners with the same basis, until it expires. -/
theorem Sealed.validatePlan_iff (pinned : Sealed digest planner plan) (other : Planner)
    (now : Time) :
    other.validatePlan digest plan now = .ok () ↔
      planner.SameBasis other ∧ plan.expiresAt ≠ 0 ∧ now < plan.expiresAt := by
  have nonempty : plan.planHash ≠ "" := by
    rw [pinned.planHash]
    exact hashValue_ne_empty digest _
  have consistent : plan.planHash ≠ "" ∧ plan.hash ≠ "" ∧ plan.planHash = plan.hash ∧
      plan.planHash = Planning.planHash digest plan :=
    ⟨nonempty, pinned.hash ▸ nonempty, pinned.hash.symm, pinned.planHash⟩
  simp only [validatePlan, bind_eq_ok, require_eq_ok, exists_const, mapsEqual_iff,
    pinned.contractHashes, pinned.profileHashes, pinned.contextSnapshotRef, pinned.policyHash,
    pinned.evidenceHash]
  constructor
  · rintro ⟨-, unexpired, contracts, profiles, context, policy, evidence⟩
    exact ⟨⟨contracts, profiles, context, policy, evidence⟩, unexpired⟩
  · rintro ⟨basis, unexpired⟩
    exact ⟨consistent, unexpired, basis.contractHashes, basis.profileHashes,
      basis.contextSnapshotRef, basis.policyHash, basis.evidenceHash⟩

end Planner

section Collisions

variable {digest : Digest} {values : Set Json}

theorem covered_of_hashes {Document : Type} {name : Document → String}
    {canonical : Document → Json} (collisionFree : Set.InjOn digest.hex values)
    {first second : List Document} (firstMem : ∀ document ∈ first, canonical document ∈ values)
    (secondMem : ∀ document ∈ second, canonical document ∈ values)
    {lookup again : String → Option String}
    (tabulates : Tabulates lookup first name fun document => digest.hashValue (canonical document))
    (tabulated : Tabulates again second name fun document => digest.hashValue (canonical document))
    (same : ∀ query, lookup query = again query) : Covered name canonical first second := by
  intro document member
  have found := tabulates.eq_some member
  rw [same] at found
  obtain ⟨other, otherMem, named, hash⟩ := (tabulated _ _).mp found
  exact ⟨other, otherMem, named,
    (Digest.hashValue_eq_iff collisionFree (secondMem other otherMem)
      (firstMem document member)).mp hash⟩

theorem Composed.agrees_of_sameBasis {contracts contractsAgain : List ServiceContract}
    {profiles profilesAgain : List ReleaseProfile} {options optionsAgain : Options}
    {phase phaseAgain : String → ℤ} {planner other : Planner}
    (collisionFree : Set.InjOn digest.hex values)
    (composed : Composed digest contracts profiles options phase planner)
    (composedAgain : Composed digest contractsAgain profilesAgain optionsAgain phaseAgain other)
    (contractsMem : ∀ contract ∈ contracts ++ contractsAgain, contract.canonical ∈ values)
    (profilesMem : ∀ profile ∈ profiles ++ profilesAgain, profile.canonical ∈ values)
    (basis : planner.SameBasis other) : planner.Agrees other := by
  rw [List.forall_mem_append] at contractsMem profilesMem
  refine composed.agrees composedAgain ?_ ?_ ?_ ?_ basis.contextSnapshotRef basis.policyHash
    basis.evidenceHash
  · exact covered_of_hashes collisionFree contractsMem.1 contractsMem.2 composed.contractHashes
      composedAgain.contractHashes basis.contractHashes
  · exact covered_of_hashes collisionFree contractsMem.2 contractsMem.1
      composedAgain.contractHashes composed.contractHashes fun name =>
        (basis.contractHashes name).symm
  · exact covered_of_hashes collisionFree profilesMem.1 profilesMem.2 composed.profileHashes
      composedAgain.profileHashes basis.profileHashes
  · exact covered_of_hashes collisionFree profilesMem.2 profilesMem.1 composedAgain.profileHashes
      composed.profileHashes fun name => (basis.profileHashes name).symm

end Collisions

/--
For two planners built from any documents and every plan of the first one, as returned
or after it was stored and read back: the second planner finds the plan valid exactly
when both have the same basis and the plan has not expired. It then plans the same
release with the same hash. A plan which differs in a hashed field and keeps the hashes
is refused. Plans with times in the years 0 to 9999 can be stored and read back.
-/
theorem valid_plan_reproducible (digest : Digest) (values : Set Json)
    (collisionFree : Set.InjOn digest.hex values) (orders ordersAgain : Orders)
    (contracts contractsAgain : List ServiceContract)
    (profiles profilesAgain : List ReleaseProfile) (options optionsAgain : Options)
    (planner other : Planner)
    (built : newFromContracts digest orders contracts profiles options = .ok planner)
    (builtAgain :
      newFromContracts digest ordersAgain contractsAgain profilesAgain optionsAgain = .ok other)
    (contractsMem : ∀ contract ∈ contracts ++ contractsAgain, contract.canonical ∈ values)
    (profilesMem : ∀ profile ∈ profiles ++ profilesAgain, profile.canonical ∈ values)
    (order : IterationOrder String) (created : Time) (intent : ReleaseIntent) (plan : ReleasePlan)
    (planned : planner.planIntent digest order created intent = .ok plan) (now : Time) :
    (∀ stored, stored = plan ∨ Store.Memory.RoundTrip plan stored →
      (other.validatePlan digest stored now = .ok () ↔
        planner.SameBasis other ∧ plan.expiresAt ≠ 0 ∧ now < plan.expiresAt) ∧
      (other.validatePlan digest stored now = .ok () → ∀ orderAgain later, ∃ replanned,
        other.planIntent digest orderAgain later intent = .ok replanned ∧
          replanned.planHash = stored.planHash) ∧
      ∀ tampered, hashedContent stored ∈ values → hashedContent tampered ∈ values →
        ¬SameContent tampered stored → tampered.hash = stored.hash →
        tampered.planHash = stored.planHash →
        other.validatePlan digest tampered now ≠ .ok ()) ∧
    (ReleasePlan.Writable plan.createdAt → ReleasePlan.Writable plan.expiresAt →
      ∃ stored, Store.Memory.RoundTrip plan stored) := by
  have pinned := Planner.sealed_of_planIntent planned
  refine ⟨fun stored copied => ?_, Store.Memory.exists_roundTrip⟩
  have alike : stored.Alike plan := by
    rcases copied with rfl | copied
    · exact ⟨rfl, fun _ => rfl, fun _ => rfl⟩
    · exact copied.alike
  have rest := alike.rest
  simp only [ReleasePlan.mk.injEq, true_and] at rest
  obtain ⟨-, -, -, -, -, -, planHash, -, -, -, -, expires⟩ := rest
  have valid := (pinned.alike alike).validatePlan_iff other now
  rw [expires] at valid
  refine ⟨valid, fun accepted orderAgain later => ?_,
    fun tampered storedMem tamperedMem differs _ sameHash accepted => ?_⟩
  · obtain ⟨phase, composed⟩ := composed_of_newFromContracts built
    obtain ⟨phaseAgain, composedAgain⟩ := composed_of_newFromContracts builtAgain
    have agrees := composed.agrees_of_sameBasis collisionFree composedAgain contractsMem
      profilesMem (valid.mp accepted).1
    obtain ⟨replanned, succeeded, -, hash, -⟩ :=
      agrees.planIntent digest order orderAgain (.refl intent) later planned
    exact ⟨replanned, succeeded, hash.trans planHash.symm⟩
  · simp only [Planner.validatePlan, bind_eq_ok, require_eq_ok, exists_const] at accepted
    obtain ⟨⟨-, -, -, own⟩, -⟩ := accepted
    rw [sameHash, (pinned.alike alike).planHash, planHash_eq_hashValue,
      planHash_eq_hashValue] at own
    refine differs (sameContent_of_hashedContent_eq ?_)
    exact (Digest.hashValue_eq_iff collisionFree tamperedMem storedMem).mp own.symm

/-- What tells documents and the versions of plans apart, for the tests. -/
def label (value : Json) : Char :=
  if lookup "kind" value = some (.text "ServiceContract") then 'a'
  else if lookup "kind" value = some (.text "ReleaseProfile") then 'b'
  else if lookup "release_version" value = some (.text "1") then 'c'
  else 'd'

def labelDigest : Digest where
  hex value := String.ofList (List.replicate 64 (label value))
  length_hex value := by simp

theorem label_eq_of_hex_eq {first second : Json}
    (same : labelDigest.hex first = labelDigest.hex second) : label first = label second := by
  have characters := congrArg String.toList same
  simpa [labelDigest] using characters

theorem label_hashedContent (plan : ReleasePlan) :
    label (hashedContent plan) = if plan.releaseVersion = "1" then 'c' else 'd' := by
  simp [label, hashedContent]

/-- A stored plan which is valid, and which is refused after its release version was changed. -/
theorem valid_plan_reproducible_stored :
    let contract := stagingContract "api" []
    ∃ planner plan stored,
      PlansFrom labelDigest [contract] (stagingRelease ["api"]) planner plan ∧
      Store.Memory.RoundTrip plan stored ∧
      planner.validatePlan labelDigest stored 2 = .ok () ∧
      (∃ replanned, planner.planIntent labelDigest .stored 3 (stagingRelease ["api"]) =
        .ok replanned ∧ replanned.planHash = stored.planHash) ∧
      planner.validatePlan labelDigest { stored with releaseVersion := "2" } 2 ≠ .ok () := by
  intro contract
  obtain ⟨planner, plan, plans, fields⟩ := exists_of_rehearseFrom (show rehearseFrom labelDigest
    [contract] (stagingRelease ["api"]) (fun plan =>
      .ok (plan.releaseVersion, plan.createdAt, plan.expiresAt)) =
        .ok ("1", 1, 900000000001) by decide +kernel)
  obtain ⟨version, created, expires⟩ :
      plan.releaseVersion = "1" ∧ plan.createdAt = 1 ∧ plan.expiresAt = 900000000001 := by
    simpa using Except.ok.inj fields
  obtain ⟨stored, copied⟩ : ∃ stored, Store.Memory.RoundTrip plan stored := by
    apply Store.Memory.exists_roundTrip
    · rw [created]
      decide
    · rw [expires]
      decide
  let tampered : ReleasePlan := { stored with releaseVersion := "2" }
  let values : Set Json := { contract.canonical, standardProfile.canonical,
    hashedContent stored, hashedContent tampered }
  have labelContract : label contract.canonical = 'a' := by decide +kernel
  have labelProfile : label standardProfile.canonical = 'b' := by decide +kernel
  have sameVersion : stored.releaseVersion = "1" :=
    (Planner.sameContent_of_alike copied.alike).releaseVersion.trans version
  have labelStored : label (hashedContent stored) = 'c' := by
    rw [label_hashedContent, sameVersion, if_pos rfl]
  have labelTampered : label (hashedContent tampered) = 'd' := label_hashedContent tampered
  have collisionFree : Set.InjOn labelDigest.hex values := by
    intro first firstMem second secondMem same
    have labels := label_eq_of_hex_eq same
    simp only [values, Set.mem_insert_iff, Set.mem_singleton_iff] at firstMem secondMem
    rcases firstMem with rfl | rfl | rfl | rfl <;> rcases secondMem with rfl | rfl | rfl | rfl <;>
      simp_all
  have valid := (valid_plan_reproducible labelDigest values collisionFree ⟨.stored, .stored⟩
    ⟨.stored, .stored⟩ _ _ _ _ {} {} planner planner plans.built plans.built (by simp [values])
    (by simp [values]) .stored 1 _ plan plans.planned 2).1 stored (Or.inr copied)
  have accepted := valid.1.mpr ⟨⟨fun _ => rfl, fun _ => rfl, rfl, rfl, rfl⟩,
    by rw [expires]; decide, by rw [expires]; decide⟩
  refine ⟨planner, plan, stored, plans, copied, accepted, valid.2.1 accepted .stored 3,
    valid.2.2 tampered (by simp [values]) (by simp [values]) ?_ rfl rfl⟩
  intro same
  have versions : "2" = stored.releaseVersion := same.releaseVersion
  rw [sameVersion] at versions
  exact absurd versions (by decide)

end Themisy.Planning
