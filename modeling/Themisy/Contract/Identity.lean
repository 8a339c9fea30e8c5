import Themisy.Contract.Content

/-!
# Content hashes identify content

The canonical encodings of two contracts are equal exactly when the contracts are,
up to their recorded hashes and the order of dependencies, checks and capabilities;
and likewise for profiles. Every comparison which sorts a list looks at all fields of
its items, so a sorted list is one for all orders; and every field is read back from
the encoding, so nothing else is forgotten.

The path from which a document was loaded is not a part of the model.
-/

namespace Themisy.Contract

open Domain Json

/-- The same contract up to its recorded hash and the order of its lists. -/
def ServiceContract.SameContent (first second : ServiceContract) : Prop :=
  { first with contentHash := "" }.Reordered { second with contentHash := "" }

/-- The same profile up to its recorded hash and the order of its capabilities. -/
def ReleaseProfile.SameContent (first second : ReleaseProfile) : Prop :=
  { first with contentHash := "" }.Reordered { second with contentHash := "" }

theorem Capability.toJson_injective : Function.Injective Capability.toJson :=
  Function.LeftInverse.injective Capability.ofJson_toJson

theorem VerificationCheck.toJson_injective : Function.Injective VerificationCheck.toJson := by
  intro first second same
  have read := fun name => congrArg (fun value => readText (lookup name value)) same
  have type := read "type"
  have threshold := read "threshold"
  have check := read "check"
  simp [toJson] at type threshold check
  cases first
  cases second
  simp_all

section Permutations

variable {Item Key : Type} [LinearOrder Key] {key : Item → Key}
  [DecidableRel fun left right : Item => key left ≤ key right]

theorem perm_of_insertionSort_eq {first second : List Item}
    (same : (first.insertionSort fun left right => key left ≤ key right) =
      second.insertionSort fun left right => key left ≤ key right) : first.Perm second :=
  (List.perm_insertionSort _ first).symm.trans (same ▸ List.perm_insertionSort _ second)

end Permutations

theorem EnvironmentContract.reordered_of_toJson_eq {first second : EnvironmentContract}
    (same : first.toJson = second.toJson) : first.Reordered second := by
  simp only [toJson, Json.field, List.cons_append, List.nil_append, Json.object.injEq,
    List.cons.injEq, Prod.mk.injEq, Json.text.injEq, true_and, and_true] at same
  exact ⟨same.1, same.2.1,
    perm_of_insertionSort_eq (ofSlice_inj Capability.toJson_injective same.2.2)⟩

/-- The environments of two contracts are written alike when they are reordered. -/
theorem environments_of_ofMap_eq {first second : GoMap String EnvironmentContract}
    (same : Json.ofMap EnvironmentContract.toJson first =
      Json.ofMap EnvironmentContract.toJson second) (name : String) :
    Option.Rel EnvironmentContract.Reordered (first.get? name) (second.get? name) := by
  have found := congrArg (lookup name) same
  rw [lookup_ofMap, lookup_ofMap] at found
  cases here : first.get? name <;> cases there : second.get? name <;>
    simp only [here, there, Option.map_none, Option.map_some, reduceCtorEq, Option.some.injEq]
      at found
  · exact .none
  · exact .some (EnvironmentContract.reordered_of_toJson_eq found)

variable {second first : ServiceContract}

theorem ServiceContract.sameContent_of_canonical_eq (same : first.canonical = second.canonical) :
    first.SameContent second := by
  have read := fun name => congrArg (lookup name) same
  simp only [canonical, lookup_append, lookup_field, lookup_optionalSlice] at read
  have version := read "apiVersion"
  have kind := read "kind"
  have metadata := read "metadata"
  have environments := read "environments"
  have dependencies := congrArg (readItems Dependency.ofJson) (read "dependencies")
  have verification := read "verification"
  have rollback := read "rollback"
  clear read
  simp only [String.reduceEq, ↓reduceIte, true_and, false_and, Option.or_none, Option.none_or,
    Option.some.injEq, text.injEq, object.injEq, Json.field, List.cons_append, List.nil_append,
    List.cons.injEq, Prod.mk.injEq, and_true, ne_eq, ite_not,
    readItems_optional Dependency.ofJson_toJson]
    at version kind metadata environments dependencies verification rollback
  obtain ⟨profile, window, checks⟩ := verification
  refine ⟨?_, environments_of_ofMap_eq environments, perm_of_insertionSort_eq dependencies,
    perm_of_insertionSort_eq (ofSlice_inj VerificationCheck.toJson_injective checks)⟩
  simp [version, kind, metadata, profile, window, rollback]

theorem ReleaseProfile.sameContent_of_canonical_eq {first second : ReleaseProfile}
    (same : first.canonical = second.canonical) : first.SameContent second := by
  simp only [canonical, Json.field, List.cons_append, List.nil_append, object.injEq,
    List.cons.injEq, Prod.mk.injEq, text.injEq, bool.injEq, true_and, and_true] at same
  obtain ⟨version, kind, name, capabilities, strategy, ⟨required, window⟩, mode⟩ := same
  refine ⟨?_, perm_of_insertionSort_eq (ofSlice_inj Capability.toJson_injective capabilities)⟩
  simp [version, kind, name, strategy, required, window, mode]

/-- The canonical encoding leaves the recorded hash out, so that it is the one of both. -/
theorem ServiceContract.canonical_eq_iff :
    first.canonical = second.canonical ↔ first.SameContent second :=
  ⟨sameContent_of_canonical_eq, fun same => same.canonical_eq⟩

theorem ReleaseProfile.canonical_eq_iff {first second : ReleaseProfile} :
    first.canonical = second.canonical ↔ first.SameContent second :=
  ⟨sameContent_of_canonical_eq, fun same => same.canonical_eq⟩

/-- Contracts, and profiles, have the same hash exactly when they have the same content.
The digest is assumed to have no collision among the documents in question. -/
theorem hashes_identify_content (digest : Digest) (documents : Set Json)
    (collisionFree : Set.InjOn digest.hex documents) :
    (∀ first second : ServiceContract,
      first.canonical ∈ documents → second.canonical ∈ documents →
        (first.hash digest = second.hash digest ↔ first.SameContent second)) ∧
    ∀ first second : ReleaseProfile,
      first.canonical ∈ documents → second.canonical ∈ documents →
        (first.hash digest = second.hash digest ↔ first.SameContent second) := by
  constructor
  · intro first second firstMem secondMem
    exact (Digest.hashValue_eq_iff collisionFree firstMem secondMem).trans
      ServiceContract.canonical_eq_iff
  · intro first second firstMem secondMem
    exact (Digest.hashValue_eq_iff collisionFree firstMem secondMem).trans
      ReleaseProfile.canonical_eq_iff

/-- The order of the dependencies does not change a hash, and the owner does. -/
theorem hashes_identify_content_owner :
    let contract := stagingContract "api"
      [{ service := "db", type := .rolloutOrder }, { service := "cache", type := .rolloutOrder }]
    let digest := Digest.telling contract.canonical { contract with owner := "other" }.canonical
    let reordered : ServiceContract :=
      { contract with dependencies := contract.dependencies.reverse, contentHash := "hash" }
    contract.hash digest = reordered.hash digest ∧
    contract.hash digest ≠ { contract with owner := "other" }.hash digest := by
  intro contract digest reordered
  let changed : ServiceContract := { contract with owner := "other" }
  have distinct : contract.canonical ≠ changed.canonical := by decide +kernel
  have collisionFree : Set.InjOn digest.hex {contract.canonical, changed.canonical} :=
    Digest.telling_injOn distinct
  have identified := (hashes_identify_content digest _ collisionFree).1
  constructor
  · have same : contract.canonical = reordered.canonical := by decide +kernel
    exact (identified contract reordered (by simp) (by simp [← same])).mpr
      (ServiceContract.canonical_eq_iff.mp same)
  · rw [ne_eq, identified contract changed (by simp) (by simp)]
    intro same
    exact distinct same.canonical_eq

end Themisy.Contract
