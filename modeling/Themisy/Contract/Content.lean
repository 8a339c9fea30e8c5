import Themisy.Contract.ServiceContract
import Themisy.Domain.Encodings

/-!
# What the content hashes determine

The planner reads a part of a contract and of a profile: their planned content. The
canonical encodings determine it, and they do not depend on the order of the
dependencies, checks and capabilities. Nor does validation.
-/

namespace Themisy.Contract

open Domain Json

/-- What the planner reads of an environment. -/
structure PlannedEnvironment where
  releaseProfile : String
  runnerGroup : String

/-- What the planner reads of a contract, apart from its name and hash. -/
structure PlannedContract where
  owner : String
  riskTier : String
  dependencies : List Dependency
  environments : String → Option PlannedEnvironment

def ServiceContract.planned (contract : ServiceContract) : PlannedContract where
  owner := contract.owner
  riskTier := contract.riskTier
  dependencies := sortedDependencies contract.dependencies
  environments name := (contract.environments.get? name).map fun environment =>
    ⟨environment.releaseProfile, environment.runnerGroup⟩

/-- The services which have to be released before, with repetitions. -/
def ServiceContract.orderingDependencies (contract : ServiceContract) : List String :=
  (contract.dependencies.filter Dependency.ordersOn).map Dependency.service

variable {contract : ServiceContract} {second first : EnvironmentContract}

variable {name field : String} {code : ReasonCode}

theorem ServiceContract.mem_orderingDependencies_iff :
    name ∈ contract.orderingDependencies ↔
      name ∈ (contract.planned.dependencies.filter Dependency.ordersOn).map Dependency.service :=
  (((List.perm_insertionSort _ contract.dependencies).filter _).map _).symm.mem_iff

/-- What the planner reads of a profile, apart from its name and hash. -/
structure PlannedProfile where
  requiredCapabilities : List Capability
  verificationRequired : Bool
  observationWindow : String
  rollbackMode : String

def ReleaseProfile.planned (profile : ReleaseProfile) : PlannedProfile where
  requiredCapabilities := sortedCapabilities profile.requiredCapabilities
  verificationRequired := profile.verificationRequired
  observationWindow := profile.observationWindow
  rollbackMode := profile.rollbackMode

def member (name : String) (value : Json) : Json :=
  (lookup name value).getD .null

/-- The planned content of a contract, read from its canonical encoding. -/
def PlannedContract.ofJson (value : Json) : PlannedContract where
  owner := readText (lookup "owner" (member "metadata" value))
  riskTier := readText (lookup "riskTier" (member "metadata" value))
  dependencies := readItems Dependency.ofJson (lookup "dependencies" value)
  environments name := (lookup name (member "environments" value)).map fun environment =>
    ⟨readText (lookup "releaseProfile" environment), readText (lookup "runnerGroup" environment)⟩

theorem PlannedContract.ofJson_canonical (contract : ServiceContract) :
    PlannedContract.ofJson contract.canonical = contract.planned := by
  simp [PlannedContract.ofJson, ServiceContract.canonical, ServiceContract.planned, member,
    lookup_ofMap, readItems_optional Dependency.ofJson_toJson, Option.map_map, Function.comp_def,
    EnvironmentContract.toJson]

def PlannedProfile.ofJson (value : Json) : PlannedProfile where
  requiredCapabilities := readItems Capability.ofJson
    (lookup "requiredCapabilities" (member "spec" value))
  verificationRequired := readBool (lookup "required" (member "verification" (member "spec" value)))
  observationWindow :=
    readText (lookup "observationWindow" (member "verification" (member "spec" value)))
  rollbackMode := readText (lookup "mode" (member "rollback" (member "spec" value)))

theorem PlannedProfile.ofJson_canonical (profile : ReleaseProfile) :
    PlannedProfile.ofJson profile.canonical = profile.planned := by
  simp [PlannedProfile.ofJson, ReleaseProfile.canonical, ReleaseProfile.planned, member,
    readItems_ofSlice Capability.ofJson_toJson]

theorem ReleaseProfile.planned_eq_of_canonical_eq {first second : ReleaseProfile}
    (same : first.canonical = second.canonical) : first.planned = second.planned := by
  rw [← PlannedProfile.ofJson_canonical, same, PlannedProfile.ofJson_canonical]

section Sorted

theorem sortedCapabilities_eq_of_perm {first second : List Capability}
    (perm : first.Perm second) : sortedCapabilities first = sortedCapabilities second :=
  insertionSort_eq_of_perm Capability.text perm fun left _ right _ same => by
    rw [← Capability.ofText_text left, same, Capability.ofText_text]

theorem sortedDependencies_eq_of_perm {first second : List Dependency}
    (perm : first.Perm second) : sortedDependencies first = sortedDependencies second := by
  refine insertionSort_eq_of_perm Dependency.sortKey perm fun left _ right _ same => ?_
  simp only [Dependency.sortKey, List.cons.injEq, and_true] at same
  obtain ⟨type, service, resource, condition, constraint⟩ := same
  have sameType : left.type = right.type := by
    rw [← DependencyType.ofText_text left.type, type, DependencyType.ofText_text]
  cases left
  cases right
  simp_all

theorem sortedChecks_eq_of_perm {first second : List VerificationCheck}
    (perm : first.Perm second) : sortedChecks first = sortedChecks second := by
  refine insertionSort_eq_of_perm
    (fun check : VerificationCheck => [check.type, check.check, check.threshold]) perm
    fun left _ right _ same => ?_
  cases left
  cases right
  simp_all

end Sorted

structure EnvironmentContract.Reordered (first second : EnvironmentContract) : Prop where
  releaseProfile : first.releaseProfile = second.releaseProfile
  runnerGroup : first.runnerGroup = second.runnerGroup
  capabilities : first.capabilities.Perm second.capabilities

/-- A contract with its dependencies, checks and capabilities in another order. -/
structure ServiceContract.Reordered (first second : ServiceContract) : Prop where
  rest : { first with environments := ∅, dependencies := [], checks := [] } =
    { second with environments := ∅, dependencies := [], checks := [] }
  environments : ∀ name, Option.Rel EnvironmentContract.Reordered
    (first.environments.get? name) (second.environments.get? name)
  dependencies : first.dependencies.Perm second.dependencies
  checks : first.checks.Perm second.checks

structure ReleaseProfile.Reordered (first second : ReleaseProfile) : Prop where
  rest : { first with requiredCapabilities := [] } = { second with requiredCapabilities := [] }
  requiredCapabilities : first.requiredCapabilities.Perm second.requiredCapabilities

theorem EnvironmentContract.Reordered.symm (reordered : first.Reordered second) :
    second.Reordered first :=
  ⟨reordered.releaseProfile.symm, reordered.runnerGroup.symm, reordered.capabilities.symm⟩

theorem EnvironmentContract.Reordered.refl (environment : EnvironmentContract) :
    environment.Reordered environment :=
  ⟨rfl, rfl, List.Perm.refl _⟩

theorem EnvironmentContract.Reordered.toJson_eq (reordered : first.Reordered second) :
    first.toJson = second.toJson := by
  rw [EnvironmentContract.toJson, EnvironmentContract.toJson, reordered.releaseProfile,
    reordered.runnerGroup, sortedCapabilities_eq_of_perm reordered.capabilities]

namespace ServiceContract.Reordered

variable {first second : ServiceContract}

theorem refl (contract : ServiceContract) : contract.Reordered contract := by
  refine ⟨rfl, fun name => ?_, List.Perm.refl _, List.Perm.refl _⟩
  cases contract.environments.get? name with
  | none => exact .none
  | some environment => exact .some (EnvironmentContract.Reordered.refl environment)

section

variable (reordered : first.Reordered second)

include reordered

theorem environment_cases (name : String) :
    first.environments.get? name = none ∧ second.environments.get? name = none ∨
      ∃ environment other, first.environments.get? name = some environment ∧
        second.environments.get? name = some other ∧ environment.Reordered other := by
  have related := reordered.environments name
  generalize first.environments.get? name = found at related
  generalize second.environments.get? name = again at related
  cases related with
  | none => exact Or.inl ⟨rfl, rfl⟩
  | some same => exact Or.inr ⟨_, _, rfl, rfl, same⟩

theorem symm : second.Reordered first := by
  refine ⟨reordered.rest.symm, fun name => ?_, reordered.dependencies.symm,
    reordered.checks.symm⟩
  rcases reordered.environment_cases name with ⟨missing, absent⟩ | ⟨_, _, found, again, same⟩
  · rw [missing, absent]
    exact .none
  · rw [found, again]
    exact .some same.symm

theorem name_eq : first.name = second.name := by
  have rest := reordered.rest
  simp only [ServiceContract.mk.injEq, true_and] at rest
  exact rest.2.2.1

theorem canonical_eq : first.canonical = second.canonical := by
  have rest := reordered.rest
  simp only [ServiceContract.mk.injEq, true_and] at rest
  have environments : Json.ofMap EnvironmentContract.toJson first.environments =
      Json.ofMap EnvironmentContract.toJson second.environments := by
    refine ofMap_congr fun name => ?_
    rcases reordered.environment_cases name with ⟨missing, absent⟩ | ⟨_, _, found, again, same⟩
    · rw [missing, absent]
    · rw [found, again]
      exact congrArg some same.toJson_eq
  simp only [canonical, rest, environments, sortedDependencies_eq_of_perm reordered.dependencies,
    sortedChecks_eq_of_perm reordered.checks]

end

end ServiceContract.Reordered

namespace ReleaseProfile.Reordered

variable {first second : ReleaseProfile}

theorem name_eq (reordered : first.Reordered second) : first.name = second.name := by
  have rest := reordered.rest
  simp only [ReleaseProfile.mk.injEq, true_and] at rest
  exact rest.2.2.1

theorem symm (reordered : first.Reordered second) : second.Reordered first :=
  ⟨reordered.rest.symm, reordered.requiredCapabilities.symm⟩

theorem canonical_eq (reordered : first.Reordered second) : first.canonical = second.canonical := by
  have rest := reordered.rest
  simp only [ReleaseProfile.mk.injEq, true_and] at rest
  simp only [canonical, rest, sortedCapabilities_eq_of_perm reordered.requiredCapabilities]

end ReleaseProfile.Reordered

theorem validateCapabilities_eq_ok_iff {capabilities seen : List Capability} :
    validateCapabilities code field capabilities seen = .ok () ↔
      (∀ capability ∈ capabilities, capability.valid = true) ∧ capabilities.Nodup ∧
        ∀ capability ∈ capabilities, capability ∉ seen := by
  induction capabilities generalizing seen with
  | nil => simp [validateCapabilities]
  | cons capability rest ih =>
    simp only [validateCapabilities, bind_eq_ok, require_eq_ok, exists_const, ih,
      List.nodup_cons, List.mem_cons, not_or]
    grind

theorem validateCapabilities_of_perm {first second : List Capability} (perm : first.Perm second)
    (valid : validateCapabilities code field first [] = .ok ()) :
    validateCapabilities code field second [] = .ok () := by
  rw [validateCapabilities_eq_ok_iff] at valid ⊢
  refine ⟨fun capability member => valid.1 capability (perm.mem_iff.mpr member),
    perm.nodup_iff.mp valid.2.1, by simp⟩

/-- A check of the items of a list which ignores their places. -/
theorem forall_mem_zipIdx_of_perm {Item : Type} (check : Item → ℕ → Except GoError Unit)
    (placeless : ∀ item index other, check item index = .ok () → check item other = .ok ())
    {first second : List Item} (perm : first.Perm second)
    (passed : ∀ entry ∈ first.zipIdx, check entry.1 entry.2 = .ok ()) :
    ∀ entry ∈ second.zipIdx, check entry.1 entry.2 = .ok () := by
  rintro ⟨item, index⟩ entry
  have member := perm.mem_iff.mpr (List.fst_mem_of_mem_zipIdx entry)
  rw [← List.zipIdx_map_fst 0 first] at member
  obtain ⟨⟨_, place⟩, found, rfl⟩ := List.mem_map.mp member
  exact placeless _ place index (passed _ found)

theorem ReleaseProfile.Reordered.validate {first second : ReleaseProfile}
    (reordered : first.Reordered second) (valid : first.validate = .ok ()) :
    second.validate = .ok () := by
  have rest := reordered.rest
  simp only [ReleaseProfile.mk.injEq, true_and] at rest
  simp only [ReleaseProfile.validate, bind_eq_ok, require_eq_ok, exists_const, rest] at valid ⊢
  obtain ⟨version, kind, named, some, _, capabilities, others⟩ := valid
  refine ⟨version, kind, named, ?_, (), ?_, others⟩
  · exact fun empty => some (reordered.requiredCapabilities.trans (.of_eq empty)).eq_nil
  · exact validateCapabilities_of_perm reordered.requiredCapabilities capabilities

theorem EnvironmentContract.Reordered.validateEnvironment (reordered : first.Reordered second)
    (valid : ServiceContract.validateEnvironment ⟨name, first⟩ = .ok ()) :
    ServiceContract.validateEnvironment ⟨name, second⟩ = .ok () := by
  simp only [ServiceContract.validateEnvironment, bind_eq_ok, require_eq_ok, exists_const,
    reordered.releaseProfile, reordered.runnerGroup] at valid ⊢
  obtain ⟨supported, profiled, grouped, some, capabilities⟩ := valid
  refine ⟨supported, profiled, grouped, ?_, ?_⟩
  · exact fun empty => some (reordered.capabilities.trans (.of_eq empty)).eq_nil
  · exact validateCapabilities_of_perm reordered.capabilities capabilities

namespace ServiceContract

variable {order : IterationOrder EnvironmentEntry}

theorem forall_mem_arrange {statement : ℕ} {holds : EnvironmentEntry → Prop} :
    (∀ entry ∈ order.arrange statement contract.environments.entries, holds entry) ↔
      ∀ name environment, contract.environments.get? name = some environment →
        holds ⟨name, environment⟩ := by
  simp only [order.mem_arrange]
  constructor
  · exact fun all name environment found => all _ (GoMap.mem_entries_iff.mpr found)
  · exact fun all entry member => all _ _ (GoMap.mem_entries_iff.mp member)

theorem Reordered.validate {first second : ServiceContract} (reordered : first.Reordered second)
    (order again : IterationOrder EnvironmentEntry) (valid : first.validate order = .ok ()) :
    second.validate again = .ok () := by
  have rest := reordered.rest
  simp only [ServiceContract.mk.injEq, true_and] at rest
  simp only [ServiceContract.validate, bind_eq_ok, require_eq_ok, exists_const, rest, forM_eq_ok,
    forall_mem_arrange] at valid ⊢
  obtain ⟨version, kind, named, owned, stored, tiered, declared, environments, dependencies,
    profiled, _, window, checks, others⟩ := valid
  refine ⟨version, kind, named, owned, stored, tiered, ?_, ?_, ?_, ?_, (), window, ?_, others⟩
  · obtain ⟨⟨name, environment⟩, entry⟩ := List.exists_mem_of_ne_nil _ declared
    rcases reordered.environment_cases name with ⟨missing, -⟩ | ⟨_, _, -, found, -⟩
    · rw [GoMap.mem_entries_iff.mp entry] at missing
      cases missing
    · exact List.ne_nil_of_mem (GoMap.mem_entries_iff.mpr found)
  · intro name environment found
    rcases reordered.environment_cases name with ⟨-, absent⟩ | ⟨before, other, first, again, same⟩
    · rw [absent] at found
      cases found
    · rw [again] at found
      cases found
      exact same.validateEnvironment (environments name before first)
  · exact forall_mem_zipIdx_of_perm validateDependency (fun _ _ _ passed => by
      simpa [validateDependency, bind_eq_ok, require_eq_ok] using passed)
      reordered.dependencies dependencies
  · rw [not_or, not_or] at profiled ⊢
    refine ⟨profiled.1, profiled.2.1, fun empty => profiled.2.2 ?_⟩
    exact (reordered.checks.trans (.of_eq empty)).eq_nil
  · exact forall_mem_zipIdx_of_perm validateCheck (fun _ _ _ passed => by
      simpa [validateCheck, require_eq_ok] using passed) reordered.checks checks

theorem supported_of_validate (valid : contract.validate order = .ok ())
    {environment : Environment} {declaration : EnvironmentContract}
    (declared : contract.environments.get? environment.text = some declaration) :
    environment = .staging ∨ environment = .production := by
  simp only [ServiceContract.validate, bind_eq_ok, require_eq_ok, exists_const, forM_eq_ok,
    forall_mem_arrange] at valid
  obtain ⟨-, -, -, -, -, -, -, environments, -⟩ := valid
  have accepted := environments _ _ declared
  simp only [validateEnvironment, bind_eq_ok, require_eq_ok, exists_const] at accepted
  refine accepted.1.imp (fun same => ?_) fun same => ?_ <;>
    rw [← Environment.ofText_text environment, same, Environment.ofText_text]

/-- The order in which the environments are visited does not decide validity. -/
theorem validate_eq_ok_iff (order again : IterationOrder EnvironmentEntry) :
    contract.validate order = .ok () ↔ contract.validate again = .ok () :=
  ⟨(Reordered.refl contract).validate order again, (Reordered.refl contract).validate again order⟩

end ServiceContract

end Themisy.Contract
