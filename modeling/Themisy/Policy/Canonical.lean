import Themisy.Policy.Bundle

/-!
# Canonical bundles

The hash and the payload of a bundle are computed after its modules were sorted by layer
and name. Nothing forbids two modules of one layer and name, and their order is left to
the order of the bundle. Apart from such modules the order does not matter. The payload
contains every module, so a signature determines what was signed in any case.
-/

namespace Themisy.Policy

open Domain Protocol Grant Json

namespace Bundle

/-- A bundle with its modules and input versions in another order. -/
structure Reordered (first second : Bundle) : Prop where
  rest : { first with compatibility := [], modules := [] } =
    { second with compatibility := [], modules := [] }
  compatibility : first.compatibility.Perm second.compatibility
  modules : first.modules.Perm second.modules

/-- Two modules of one layer and name are the same module. -/
def Unambiguous (bundle : Bundle) : Prop :=
  ∀ left ∈ bundle.modules, ∀ right ∈ bundle.modules,
    left.layer = right.layer → left.name = right.name → left = right

/-- What a signature promises of a bundle. -/
structure SameContent (first second : Bundle) : Prop where
  version : first.version = second.version
  issuer : first.issuer = second.issuer
  issuedAt : first.issuedAt = second.issuedAt
  expiresAt : first.expiresAt = second.expiresAt
  compatibility : first.compatibility.Perm second.compatibility
  modules : first.modules.Perm second.modules

end Bundle

theorem Layer.text_injective : Function.Injective Layer.text := by
  intro first second same
  cases first <;> cases second <;> grind [Layer.text]

def Module.sortKey (module : Module) : List String :=
  [module.layer.text, module.name]

theorem moduleLess_iff (left right : Module) :
    moduleLess left right = true ↔ left.sortKey < right.sortKey := by
  unfold moduleLess Module.sortKey
  split
  · next same => simp [same, List.cons_lt_cons_iff]
  · next different =>
    simp [List.cons_lt_cons_iff, Layer.text_injective.ne different]

variable {sort : SliceSort} {digest : Digest} {first second bundle : Bundle}

theorem normalizedBundle_eq_of_reordered (reordered : first.Reordered second)
    (unambiguous : second.Unambiguous) :
    normalizedBundle sort first = normalizedBundle sort second := by
  have modules :
      sort.arrange moduleLess second.modules = sort.arrange moduleLess first.modules := by
    refine sort.arrange_eq_of_perm moduleLess_iff reordered.modules.symm ?_
    intro left leftMem right rightMem same
    simp only [Module.sortKey, List.cons.injEq, and_true] at same
    exact unambiguous left leftMem right rightMem (Layer.text_injective same.1) same.2
  have rest := reordered.rest
  simp only [Bundle.mk.injEq, true_and] at rest
  simp only [normalizedBundle, modules, sortStrings_eq_of_perm reordered.compatibility, rest]

theorem Module.toJson_injective : Function.Injective Module.toJson := by
  intro left right same
  cases left
  cases right
  simp_all [toJson, Json.field, Layer.text_injective.eq_iff]

theorem Bundle.marshal_inj {value : Json} (encoded : first.marshal = .ok value)
    (again : second.marshal = .ok value) : first = second := by
  simp only [marshal, bind_eq_ok, ZonedTime.marshal_eq_ok] at encoded again
  obtain ⟨_, ⟨-, rfl⟩, _, ⟨-, rfl⟩, written⟩ := encoded
  obtain ⟨_, ⟨-, rfl⟩, _, ⟨-, rfl⟩, writtenAgain⟩ := again
  have same := (Except.ok.inj written).trans (Except.ok.inj writtenAgain).symm
  simp only [Json.field, List.cons_append, List.nil_append, object.injEq, List.cons.injEq,
    Prod.mk.injEq, text.injEq, time.injEq, true_and, and_true, Signature.toJson] at same
  obtain ⟨version, issuer, compatibility, issued, expires, modules, hash, signature⟩ := same
  have sameCompatibility := ofSlice_inj (fun _ _ => Json.text.inj) compatibility
  have sameModules := ofSlice_inj Module.toJson_injective modules
  obtain ⟨_, _, _, ⟨_, _⟩, ⟨_, _⟩, _, _, ⟨_, _, _⟩⟩ := first
  obtain ⟨_, _, _, ⟨_, _⟩, ⟨_, _⟩, _, _, ⟨_, _, _⟩⟩ := second
  simp_all

variable {payload : Json}

/-- One payload is that of one bundle, up to the signature and the orders. -/
theorem normalizedBundle_eq_of_payload_eq
    (encoded : canonicalBundlePayload sort first = .ok payload)
    (again : canonicalBundlePayload sort second = .ok payload) :
    { normalizedBundle sort first with signature := {} } =
      { normalizedBundle sort second with signature := {} } := by
  simp only [canonicalBundlePayload, bind_eq_ok, require_eq_ok, exists_const] at encoded again
  exact Bundle.marshal_inj encoded.2 again.2

theorem sameContent_of_payload_eq (encoded : canonicalBundlePayload sort first = .ok payload)
    (again : canonicalBundlePayload sort second = .ok payload) : first.SameContent second := by
  have same := normalizedBundle_eq_of_payload_eq encoded again
  simp only [normalizedBundle, Bundle.mk.injEq, and_true] at same
  obtain ⟨version, issuer, compatibility, issued, expires, modules, -⟩ := same
  refine ⟨version, issuer, issued, expires, ?_, ?_⟩
  · exact (sortStrings_perm _).symm.trans (compatibility ▸ sortStrings_perm _)
  · refine (sort.perm moduleLess _).symm.trans ?_
    rw [modules]
    exact sort.perm _ _

def Bundle.Admissible (bundle : Bundle) (issuer : String) (now : Time) : Prop :=
  (bundle.issuer = issuer ∧ bundle.signature.algorithm = algorithmEd25519) ∧
    inputVersionV1Alpha1 ∈ bundle.compatibility ∧ bundle.issuedAt.instant ≤ now ∧
      now < bundle.expiresAt.instant ∧ validLayers bundle.modules = true

section Verification

variable {scheme : SignatureScheme} {issuer : String} {keys : Option (BundleKeyResolver scheme)}
  {now : Time}

theorem verifyBundle_eq_ok_iff : verifyBundle sort digest bundle issuer keys now = .ok () ↔
    bundle.Admissible issuer now ∧ calculateBundleHash sort digest bundle = .ok bundle.hash ∧
      ∃ resolvePolicyKey ∈ keys, ∃ payload, canonicalBundlePayload sort bundle = .ok payload ∧
        verifyBundleSignature resolvePolicyKey issuer bundle.signature payload = .ok () := by
  unfold Bundle.Admissible verifyBundle
  cases keys with
  | none => simp [bind_eq_ok]
  | some resolvePolicyKey =>
    simp only [bind_eq_ok, require_eq_ok, exists_const, mapError_eq_ok, Option.mem_some_iff,
      exists_eq_left']
    constructor
    · rintro ⟨owned, valid, hash, hashed, rfl, signed⟩
      exact ⟨⟨owned, valid⟩, hashed, signed⟩
    · rintro ⟨⟨owned, valid⟩, hashed, signed⟩
      exact ⟨owned, valid, _, hashed, rfl, signed⟩

variable {payload : Json}

theorem exists_verify_of_verifyBundleSignature {resolvePolicyKey : BundleKeyResolver scheme}
    {signature : Signature}
    (verified : verifyBundleSignature resolvePolicyKey issuer signature payload = .ok ()) :
    ∃ key, ∃ value ∈ scheme.decode signature.value, scheme.verify key payload value = true := by
  simp only [verifyBundleSignature, bind_eq_ok, require_eq_ok] at verified
  obtain ⟨key, -, value, decoded, accepted⟩ := verified
  exact ⟨key, value, decoded, accepted⟩

theorem validLayers_eq_of_perm {modules others : List Module} (perm : modules.Perm others) :
    validLayers modules = validLayers others := by
  unfold validLayers
  rw [perm.all_eq, perm.any_eq]

theorem Bundle.Reordered.admissible (reordered : first.Reordered second)
    (admissible : second.Admissible issuer now) : first.Admissible issuer now := by
  have rest := reordered.rest
  simp only [Bundle.mk.injEq, true_and] at rest
  simpa only [Admissible, rest, reordered.compatibility.mem_iff,
    validLayers_eq_of_perm reordered.modules] using admissible

/-- The same hash, payload and verdict for all orders of a bundle. -/
def OrderIrrelevant (sort : SliceSort) (digest : Digest) (bundle : Bundle) (issuer : String)
    (keys : Option (BundleKeyResolver scheme)) (now : Time) : Prop :=
  ∀ other : Bundle, other.Reordered bundle →
    calculateBundleHash sort digest other = calculateBundleHash sort digest bundle ∧
    canonicalBundlePayload sort other = canonicalBundlePayload sort bundle ∧
    verifyBundle sort digest other issuer keys now = .ok ()

theorem orderIrrelevant_of_unambiguous
    (accepted : verifyBundle sort digest bundle issuer keys now = .ok ())
    (unambiguous : bundle.Unambiguous) :
    OrderIrrelevant sort digest bundle issuer keys now := by
  intro other reordered
  have normalized : normalizedBundle sort other = normalizedBundle sort bundle :=
    normalizedBundle_eq_of_reordered reordered unambiguous
  have hash : calculateBundleHash sort digest other = calculateBundleHash sort digest bundle := by
    unfold calculateBundleHash
    rw [normalized]
  have payload : canonicalBundlePayload sort other = canonicalBundlePayload sort bundle := by
    unfold canonicalBundlePayload
    rw [normalized]
  refine ⟨hash, payload, ?_⟩
  have rest := reordered.rest
  simp only [Bundle.mk.injEq, true_and] at rest
  obtain ⟨admissible, hashed, signed⟩ := verifyBundle_eq_ok_iff.mp accepted
  refine verifyBundle_eq_ok_iff.mpr ⟨reordered.admissible admissible, ?_, ?_⟩
  · rw [hash, hashed, rest.2.2.2.2.1]
  · rw [payload, rest.2.2.2.2.2]
    exact signed

/-- Exchanging two modules of one layer and name changes the payload. -/
theorem unambiguous_of_payload_eq (encoded : canonicalBundlePayload sort bundle = .ok payload)
    (same : ∀ other : Bundle, other.Reordered bundle →
      canonicalBundlePayload sort other = canonicalBundlePayload sort bundle) :
    bundle.Unambiguous := by
  intro left leftMem right rightMem layer name
  by_contra distinct
  have alike : left.sortKey = right.sortKey := by
    unfold Module.sortKey
    rw [layer, name]
  obtain ⟨modules, perm, changed⟩ :=
    sort.exists_perm_arrange_ne moduleLess_iff leftMem rightMem alike distinct
  have reordered : { bundle with modules }.Reordered bundle := ⟨rfl, .refl _, perm⟩
  have normalized := normalizedBundle_eq_of_payload_eq
    ((same _ reordered).trans encoded) encoded
  exact changed (Bundle.mk.inj normalized).2.2.2.2.2.1

end Verification

/-- The order of a verified bundle does not matter exactly when no two different modules of it
have one layer and name. And what a signature verifies has one content. -/
theorem bundle_order_irrelevant_iff {scheme : SignatureScheme} (binding : scheme.Binding)
    (sort : SliceSort) (digest : Digest) (bundle : Bundle) (issuer : String)
    (keys : Option (BundleKeyResolver scheme)) (now : Time)
    (accepted : verifyBundle sort digest bundle issuer keys now = .ok ()) :
    (OrderIrrelevant sort digest bundle issuer keys now ↔ bundle.Unambiguous) ∧
    ∀ (other : Bundle) (otherIssuer : String) (otherKeys : Option (BundleKeyResolver scheme))
      (later : Time), verifyBundle sort digest other otherIssuer otherKeys later = .ok () →
      scheme.decode other.signature.value = scheme.decode bundle.signature.value →
        other.SameContent bundle := by
  obtain ⟨-, -, resolvePolicyKey, -, payload, encoded, signed⟩ := verifyBundle_eq_ok_iff.mp accepted
  refine ⟨⟨fun irrelevant => ?_, orderIrrelevant_of_unambiguous accepted⟩, ?_⟩
  · exact unambiguous_of_payload_eq encoded fun other reordered => (irrelevant other reordered).2.1
  · intro other otherIssuer otherKeys later acceptedOther sameBytes
    obtain ⟨-, -, resolveOther, -, content, encodedOther, signedOther⟩ :=
      verifyBundle_eq_ok_iff.mp acceptedOther
    obtain ⟨key, value, decoded, verified⟩ := exists_verify_of_verifyBundleSignature signed
    obtain ⟨otherKey, otherValue, decodedOther, verifiedOther⟩ :=
      exists_verify_of_verifyBundleSignature signedOther
    rw [sameBytes] at decodedOther
    cases Option.mem_unique decoded decodedOther
    cases binding otherKey key content payload value verifiedOther verified
    exact sameContent_of_payload_eq encodedOther encoded

def signedKeys (payload : Json) : Option (BundleKeyResolver (.signing payload)) :=
  some fun _ _ => .ok ()

def teamModules (digest : Digest) (sources : List (String × String)) : Bundle :=
  let bundle : Bundle := {
    version := "bundle-1"
    issuer := "customer-policy"
    compatibility := [inputVersionV1Alpha1]
    issuedAt := { instant := 1 }
    expiresAt := { instant := 3 }
    modules := ⟨"main.rego", .platform, "package main"⟩ ::
      sources.map fun source => ⟨source.1, .team, source.2⟩
    signature := { algorithm := algorithmEd25519 } }
  { bundle with hash := ((calculateBundleHash .insertion digest bundle).toOption.getD "") }

/-- Two modules of a team with different names may be listed in either order. -/
theorem bundle_order_irrelevant_named : ∃ payload,
    let bundle := teamModules default [("a.rego", "deny all"), ("b.rego", "deny some")]
    verifyBundle .insertion default bundle "customer-policy" (signedKeys payload) 2 = .ok () ∧
    OrderIrrelevant .insertion default bundle "customer-policy" (signedKeys payload) 2 := by
  let bundle := teamModules default [("a.rego", "deny all"), ("b.rego", "deny some")]
  obtain ⟨payload, encoded⟩ : ∃ payload, canonicalBundlePayload .insertion bundle = .ok payload :=
    ⟨_, rfl⟩
  have accepted : verifyBundle .insertion default bundle "customer-policy" (signedKeys payload) 2 =
      .ok () := by
    refine verifyBundle_eq_ok_iff.mpr ⟨?_, ?_, _, rfl, payload, encoded, ?_⟩
    · unfold Bundle.Admissible
      decide +kernel
    · decide +kernel
    · simp [verifyBundleSignature, SignatureScheme.signing, bind_eq_ok]
  refine ⟨payload, accepted, (bundle_order_irrelevant_iff
    (SignatureScheme.signing_binding payload) .insertion default bundle "customer-policy"
    (signedKeys payload) 2 accepted).1.mpr ?_⟩
  unfold Bundle.Unambiguous
  decide +kernel

/-- A digest which tells the encodings of bundles apart by their last module. -/
def lastModuleDigest : Digest where
  hex value := String.ofList (List.replicate 64
    (if lookup "modules" value = some (ofSlice Module.toJson
        [⟨"main.rego", .platform, "package main"⟩, ⟨"team.rego", .team, "deny some"⟩,
          ⟨"team.rego", .team, "deny all"⟩]) then 'b' else 'a'))
  length_hex value := by simp

/-- Two modules of a team with one name: the bundle is accepted in the order in which it was
signed, and refused in the other order, in which it has another hash. -/
theorem same_name_modules_depend_on_order : ∃ payload,
    let bundle := teamModules lastModuleDigest
      [("team.rego", "deny all"), ("team.rego", "deny some")]
    let other := { bundle with modules := bundle.modules.reverse }
    verifyBundle .insertion lastModuleDigest bundle "customer-policy" (signedKeys payload) 2 =
      .ok () ∧
    other.Reordered bundle ∧
    calculateBundleHash .insertion lastModuleDigest other ≠
      calculateBundleHash .insertion lastModuleDigest bundle ∧
    canonicalBundlePayload .insertion other ≠ canonicalBundlePayload .insertion bundle ∧
    verifyBundle .insertion lastModuleDigest other "customer-policy" (signedKeys payload) 2 ≠
      .ok () := by
  let bundle := teamModules lastModuleDigest
    [("team.rego", "deny all"), ("team.rego", "deny some")]
  obtain ⟨payload, encoded⟩ : ∃ payload, canonicalBundlePayload .insertion bundle = .ok payload :=
    ⟨_, rfl⟩
  refine ⟨payload, verifyBundle_eq_ok_iff.mpr ⟨?_, ?_, _, rfl, payload, encoded, ?_⟩,
    ⟨rfl, .refl _, List.reverse_perm _⟩, ?_, ?_, ?_⟩
  · unfold Bundle.Admissible
    decide +kernel
  · decide +kernel
  · simp [verifyBundleSignature, SignatureScheme.signing, bind_eq_ok]
  · decide +kernel
  · decide +kernel
  · rw [ne_eq, verifyBundle_eq_ok_iff]
    rintro ⟨-, hashed, -⟩
    revert hashed
    decide +kernel

end Themisy.Policy
