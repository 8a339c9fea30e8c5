import Themisy.Collections.SliceSort
import Themisy.Grant.Verifier
import Themisy.Policy.Input

/-!
# Policy bundles

This file embeds `internal/policy/bundle.go`: a bundle of policy modules in four
layers, its hash, and its verification. Signing is left out.
-/

namespace Themisy.Policy

open Domain Protocol Grant

/-- The layers of a bundle, and any other text. -/
inductive Layer where
  | platform
  | environment
  | team
  | service
  | other (text : String)
      (unlisted : text ∉ ["platform_mandatory", "environment", "team", "service"])
  deriving DecidableEq

def Layer.text : Layer → String
  | platform => "platform_mandatory"
  | environment => "environment"
  | team => "team"
  | service => "service"
  | other text _ => text

structure Module where
  name : String
  layer : Layer
  source : String
  deriving DecidableEq

/-- A policy bundle, with its signature. -/
structure Bundle where
  version : String
  issuer : String
  compatibility : List String
  issuedAt : ZonedTime
  expiresAt : ZonedTime
  modules : List Module
  hash : String := ""
  signature : Signature := {}
  deriving DecidableEq

def invalidBundle : GoError :=
  .plain "INVALID_POLICY_BUNDLE"

/-- The comparison by which the modules of a bundle are sorted. -/
def moduleLess (left right : Module) : Bool :=
  if left.layer = right.layer then left.name < right.name
  else left.layer.text < right.layer.text

/-- The modules are sorted by `sort.Slice`, which leaves open the order of modules with one
layer and name. -/
def normalizedBundle (sort : SliceSort) (bundle : Bundle) : Bundle :=
  { bundle with
    compatibility := sortStrings bundle.compatibility
    modules := sort.arrange moduleLess bundle.modules }

def Module.toJson (module : Module) : Json :=
  .object (Json.field "name" (.text module.name) ++
    Json.field "layer" (.text module.layer.text) ++
    Json.field "source" (.text module.source))

def Bundle.marshal (bundle : Bundle) : Except GoError Json := do
  let issuedAt ← bundle.issuedAt.marshal
  let expiresAt ← bundle.expiresAt.marshal
  return .object (Json.field "version" (.text bundle.version) ++
    Json.field "issuer" (.text bundle.issuer) ++
    Json.field "compatibility" (Json.ofSlice Json.text bundle.compatibility) ++
    Json.field "issued_at" issuedAt ++
    Json.field "expires_at" expiresAt ++
    Json.field "modules" (Json.ofSlice Module.toJson bundle.modules) ++
    Json.field "hash" (.text bundle.hash) ++
    Json.field "signature" bundle.signature.toJson)

def calculateBundleHash (sort : SliceSort) (digest : Digest) (bundle : Bundle) :
    Except GoError String := do
  let payload ← { normalizedBundle sort bundle with hash := "", signature := {} }.marshal
  return digest.hashValue payload

def canonicalBundlePayload (sort : SliceSort) (bundle : Bundle) : Except GoError Json := do
  let copy := { normalizedBundle sort bundle with signature := {} }
  require (¬(copy.version = "" ∨ copy.issuer = "" ∨ copy.hash = "" ∨ copy.issuedAt.instant = 0 ∨
    ¬copy.issuedAt.instant < copy.expiresAt.instant ∨ copy.modules = [])) invalidBundle
  copy.marshal

/-- The checks of one module; the layer must be one of the four. -/
def validModule (module : Module) : Bool :=
  match module.layer with
  | .other _ _ => false
  | _ => module.name ≠ "" ∧ module.source ≠ ""

def validLayers (modules : List Module) : Bool :=
  modules.all validModule && modules.any fun module => module.layer = .platform

abbrev BundleKeyResolver (scheme : SignatureScheme) :=
  String → String → Except GoError scheme.PublicKey

def verifyBundleSignature {scheme : SignatureScheme} (resolvePolicyKey : BundleKeyResolver scheme)
    (issuer : String) (signature : Signature) (payload : Json) : Except GoError Unit := do
  let key ← (resolvePolicyKey issuer signature.keyID).mapError fun _ => invalidBundle
  require (∃ value ∈ scheme.decode signature.value, scheme.verify key payload value = true)
    invalidBundle

def verifyBundle {scheme : SignatureScheme} (sort : SliceSort) (digest : Digest) (bundle : Bundle)
    (issuer : String) (keys : Option (BundleKeyResolver scheme)) (now : Time) :
    Except GoError Unit := do
  require (bundle.issuer = issuer ∧ bundle.signature.algorithm = algorithmEd25519) invalidBundle
  match keys with
  | none => .error invalidBundle
  | some resolvePolicyKey =>
    require (inputVersionV1Alpha1 ∈ bundle.compatibility ∧ bundle.issuedAt.instant ≤ now ∧
      now < bundle.expiresAt.instant ∧ validLayers bundle.modules) invalidBundle
    let expected ← (calculateBundleHash sort digest bundle).mapError fun _ => invalidBundle
    require (expected = bundle.hash) invalidBundle
    let payload ← (canonicalBundlePayload sort bundle).mapError fun _ => invalidBundle
    verifyBundleSignature resolvePolicyKey issuer bundle.signature payload

end Themisy.Policy
