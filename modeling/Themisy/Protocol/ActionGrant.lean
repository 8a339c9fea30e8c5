import Themisy.Domain.Reason
import Themisy.Domain.Types

/-!
# Action grants

This file embeds `pkg/protocol`: the grant which authorizes one write of a
runner, the checks of its shape, and the canonical payload over which it is
signed and hashed. Encoding and decoding for transport are left out.

The required fields are collected in a Go map, so which of several blank fields
is reported depends on the order in which the map is visited.
-/

namespace Themisy.Protocol

open Domain GoText

def versionV1Alpha1 : String := "themisy.protocol/v1alpha1"

def validateVersion (version : String) : Except GoError Unit :=
  require (version = versionV1Alpha1) (.plain ("UNSUPPORTED_PROTOCOL_VERSION: " ++ quote version))

inductive Capability where
  | deploy
  | rollback
  | other (text : String) (unlisted : text ∉ ["release.deploy", "release.rollback"])
  deriving DecidableEq

def Capability.text : Capability → String
  | deploy => "release.deploy"
  | rollback => "release.rollback"
  | other text _ => text

def Capability.ofText (text : String) : Capability :=
  if deploys : text = "release.deploy" then deploy
  else if rollsBack : text = "release.rollback" then rollback
  else other text (by simp [deploys, rollsBack])

@[simp]
theorem Capability.ofText_text (capability : Capability) : ofText capability.text = capability := by
  cases capability with
  | deploy | rollback => simp [text, ofText]
  | other text unlisted =>
    simp only [List.mem_cons, List.not_mem_nil, or_false, not_or] at unlisted
    simp [Capability.text, ofText, unlisted]

theorem Capability.text_injective : Function.Injective text :=
  Function.LeftInverse.injective ofText_text

structure Action where
  capability : Capability
  artifactDigest : String
  externalExecutionID : String := ""
  deriving DecidableEq

structure Target where
  service : String
  environment : String
  deriving DecidableEq

structure Signature where
  algorithm : String := ""
  keyID : String := ""
  value : String := ""
  deriving DecidableEq

/-- A time together with the zone in which it is written, in minutes east of UTC. -/
structure ZonedTime where
  instant : Time
  zone : ℤ := 0
  deriving DecidableEq

/-- A signed grant of one action on one target. -/
structure ActionGrant where
  protocolVersion : String
  grantID : String
  issuer : String
  tenantID : String
  runnerGroup : String
  runID : String
  stepID : String
  subjectType : String
  userSubject : String
  userIdentityProof : String
  agentID : String
  delegationRef : String
  target : Target
  action : Action
  risk : String
  planHash : String
  contractHash : String
  profileHash : String
  policyHash : String
  policyInputHash : String
  evidenceHash : String
  approvalProofs : List String
  idempotencyKey : String
  nonce : String
  issuedAt : ZonedTime
  expiresAt : ZonedTime
  signature : Signature
  deriving DecidableEq

inductive ResultStatus where
  | succeeded
  | rejected
  | unknown
  | reconciliation
  deriving DecidableEq

/-- The `Result` of a runner; a field which is left out has its zero value. -/
structure Result where
  protocolVersion : String := ""
  grantID : String := ""
  runID : String := ""
  stepID : String := ""
  /-- The empty status of a record without a result is `none`. -/
  status : Option ResultStatus := none
  reasonCode : String := ""
  externalExecutionID : String := ""
  completedAt : Time := 0
  signature : Signature := {}
  deriving DecidableEq

def isHexDigit (character : Char) : Bool :=
  ('0' ≤ character ∧ character ≤ '9') ∨ ('a' ≤ character ∧ character ≤ 'f') ∨
    ('A' ≤ character ∧ character ≤ 'F')

/-- A text of the form `sha256:` and 64 hexadecimal digits. -/
def isDigest (value : String) : Bool :=
  "sha256:".toList <+: value.toList ∧ value.toList.length = 71 ∧
    (value.toList.drop 7).all isHexDigit

/-- Fail on the first blank field. -/
def requireFields (fields : List (String × String)) : Except GoError Unit :=
  match fields.find? fun field => isBlank field.2 with
  | some field => .error (.plain ("INVALID_ACTION_GRANT: " ++ field.1 ++ " is required"))
  | none => .ok ()

/-- Fail on the first field which is not a digest. -/
def requireDigests (fields : List (String × String)) : Except GoError Unit :=
  match fields.find? fun field => ¬isDigest field.2 with
  | some field =>
    .error (.plain ("INVALID_ACTION_GRANT: " ++ field.1 ++ " must be a sha256 digest"))
  | none => .ok ()

namespace ActionGrant

variable (grant : ActionGrant)

/-- The entries of the map `required`. -/
def requiredFields : List (String × String) :=
  [("grant_id", grant.grantID), ("issuer", grant.issuer), ("tenant_id", grant.tenantID),
    ("runner_group", grant.runnerGroup), ("run_id", grant.runID), ("step_id", grant.stepID),
    ("subject_type", grant.subjectType), ("user_subject", grant.userSubject),
    ("user_identity_proof", grant.userIdentityProof), ("agent_id", grant.agentID),
    ("delegation_ref", grant.delegationRef), ("target.service", grant.target.service),
    ("target.environment", grant.target.environment),
    ("action.capability", grant.action.capability.text),
    ("action.artifact_digest", grant.action.artifactDigest), ("risk", grant.risk),
    ("plan_hash", grant.planHash), ("contract_hash", grant.contractHash),
    ("profile_hash", grant.profileHash), ("policy_hash", grant.policyHash),
    ("policy_input_hash", grant.policyInputHash), ("evidence_hash", grant.evidenceHash),
    ("idempotency_key", grant.idempotencyKey), ("nonce", grant.nonce)]

def digestFields : List (String × String) :=
  [("artifact_digest", grant.action.artifactDigest), ("plan_hash", grant.planHash),
    ("contract_hash", grant.contractHash), ("profile_hash", grant.profileHash),
    ("policy_hash", grant.policyHash), ("policy_input_hash", grant.policyInputHash),
    ("evidence_hash", grant.evidenceHash)]

/-- The copy which is signed: without signature, and with sorted approval proofs. -/
def signingCopy : ActionGrant :=
  { grant with signature := {}, approvalProofs := sortStrings grant.approvalProofs }

end ActionGrant

def validateAction (action : Action) : Except GoError Unit :=
  match action.capability with
  | .deploy => require (action.externalExecutionID = "")
      (.plain "INVALID_ACTION_GRANT: deploy cannot name an external execution")
  | .rollback => require (isBlank action.externalExecutionID = false)
      (.plain "INVALID_ACTION_GRANT: rollback requires external_execution_id")
  | .other text _ =>
    .error (.plain ("INVALID_ACTION_GRANT: unsupported capability " ++ quote text))

def validateGrantShape (order : IterationOrder (String × String)) (grant : ActionGrant) :
    Except GoError Unit := do
  validateVersion grant.protocolVersion
  requireFields (order.arrange 0 grant.requiredFields)
  require (grant.subjectType = "user" ∨ grant.subjectType = "ci")
    (.plain "INVALID_ACTION_GRANT: subject_type must be user or ci")
  require (grant.issuedAt.instant ≠ 0 ∧ grant.expiresAt.instant ≠ 0 ∧
      grant.issuedAt.instant < grant.expiresAt.instant)
    (.plain "INVALID_ACTION_GRANT: valid issued_at and expires_at are required")
  requireDigests grant.digestFields
  validateAction grant.action

/-- The local date lies in the years from 0 to 9999, and the zone is less than a day from UTC. -/
def ZonedTime.Encodable (time : ZonedTime) : Prop :=
  let civil := time.instant + time.zone * (60 * 10 ^ 9)
  (-366 * (86400 * 10 ^ 9) ≤ civil ∧ civil < 3652059 * (86400 * 10 ^ 9)) ∧
    -1440 < time.zone ∧ time.zone < 1440

/-- `MarshalJSON` of a time, which is limited to the years from 0 to 9999 of its zone. -/
def ZonedTime.marshal (time : ZonedTime) : Except GoError Json := do
  let civil := time.instant + time.zone * (60 * 10 ^ 9)
  require (-366 * (86400 * 10 ^ 9) ≤ civil ∧ civil < 3652059 * (86400 * 10 ^ 9))
    (.plain ("json: error calling MarshalJSON for type time.Time: " ++
      "Time.MarshalJSON: year outside of range [0,9999]"))
  require (-1440 < time.zone ∧ time.zone < 1440)
    (.plain ("json: error calling MarshalJSON for type time.Time: " ++
      "Time.MarshalJSON: timezone hour outside of range [0,23]"))
  return .time time.instant time.zone

theorem ZonedTime.marshal_eq_ok {time : ZonedTime} {value : Json} :
    time.marshal = .ok value ↔ time.Encodable ∧ value = .time time.instant time.zone := by
  simp only [marshal, bind_eq_ok, require_eq_ok, exists_const, Encodable, and_assoc]
  exact and_congr_right fun _ => and_congr_right fun _ => and_congr_right fun _ =>
    and_congr_right fun _ => ⟨fun eq => (Except.ok.inj eq).symm, fun eq => congrArg _ eq.symm⟩

def Signature.toJson (signature : Signature) : Json :=
  .object (Json.field "algorithm" (.text signature.algorithm) ++
    Json.field "key_id" (.text signature.keyID) ++ Json.field "value" (.text signature.value))

def Target.toJson (target : Target) : Json :=
  .object (Json.field "service" (.text target.service) ++
    Json.field "environment" (.text target.environment))

def Action.toJson (action : Action) : Json :=
  .object (Json.field "capability" (.text action.capability.text) ++
    Json.field "artifact_digest" (.text action.artifactDigest) ++
    Json.optionalText "external_execution_id" action.externalExecutionID)

def ActionGrant.marshal (grant : ActionGrant) : Except GoError Json := do
  let issuedAt ← grant.issuedAt.marshal
  let expiresAt ← grant.expiresAt.marshal
  return .object (Json.field "protocol_version" (.text grant.protocolVersion) ++
    Json.field "grant_id" (.text grant.grantID) ++
    Json.field "issuer" (.text grant.issuer) ++
    Json.field "tenant_id" (.text grant.tenantID) ++
    Json.field "runner_group" (.text grant.runnerGroup) ++
    Json.field "run_id" (.text grant.runID) ++
    Json.field "step_id" (.text grant.stepID) ++
    Json.field "subject_type" (.text grant.subjectType) ++
    Json.field "user_subject" (.text grant.userSubject) ++
    Json.field "user_identity_proof" (.text grant.userIdentityProof) ++
    Json.field "agent_id" (.text grant.agentID) ++
    Json.field "delegation_ref" (.text grant.delegationRef) ++
    Json.field "target" grant.target.toJson ++
    Json.field "action" grant.action.toJson ++
    Json.field "risk" (.text grant.risk) ++
    Json.field "plan_hash" (.text grant.planHash) ++
    Json.field "contract_hash" (.text grant.contractHash) ++
    Json.field "profile_hash" (.text grant.profileHash) ++
    Json.field "policy_hash" (.text grant.policyHash) ++
    Json.field "policy_input_hash" (.text grant.policyInputHash) ++
    Json.field "evidence_hash" (.text grant.evidenceHash) ++
    Json.field "approval_proofs" (Json.ofSlice Json.text grant.approvalProofs) ++
    Json.field "idempotency_key" (.text grant.idempotencyKey) ++
    Json.field "nonce" (.text grant.nonce) ++
    Json.field "issued_at" issuedAt ++
    Json.field "expires_at" expiresAt ++
    Json.field "signature" grant.signature.toJson)

def canonicalGrantPayload (order : IterationOrder (String × String)) (grant : ActionGrant) :
    Except GoError Json := do
  validateGrantShape order grant.signingCopy
  grant.signingCopy.marshal

def grantHash (digest : Digest) (order : IterationOrder (String × String)) (grant : ActionGrant) :
    Except GoError String := do
  let payload ← canonicalGrantPayload order grant
  return digest.hashValue payload

/-- The digest in the grant of the package's tests. -/
def fixtureDigest : String :=
  "sha256:aaaaaaaaaaaaaaaaaaaaaaaaaaaaaaaaaaaaaaaaaaaaaaaaaaaaaaaaaaaaaaaa"

/-- The grant of the package's tests, issued on 20 August 2026 for five minutes. -/
def protocolFixture : ActionGrant :=
  let now : Time := 63922780800 * 10 ^ 9
  { protocolVersion := versionV1Alpha1
    grantID := "grant-1"
    issuer := "https://control.example"
    tenantID := "tenant-1"
    runnerGroup := "prod-jp"
    runID := "run-1"
    stepID := "step-1"
    subjectType := "user"
    userSubject := "user-1"
    userIdentityProof := "jwt"
    agentID := "agent-1"
    delegationRef := "delegation-1"
    target := { service := "identity", environment := "production" }
    action := { capability := .deploy, artifactDigest := fixtureDigest }
    risk := "medium"
    planHash := fixtureDigest
    contractHash := fixtureDigest
    profileHash := fixtureDigest
    policyHash := fixtureDigest
    policyInputHash := fixtureDigest
    evidenceHash := fixtureDigest
    approvalProofs := ["approval-1"]
    idempotencyKey := "key-1"
    nonce := "nonce-1"
    issuedAt := { instant := now }
    expiresAt := { instant := now + 5 * (60 * 10 ^ 9) }
    signature := {} }

/-- What the shape checks ask of a grant, whatever the order of its fields. -/
structure ActionGrant.WellShaped (grant : ActionGrant) : Prop where
  version : grant.protocolVersion = versionV1Alpha1
  fields : ∀ field ∈ grant.requiredFields, isBlank field.2 = false
  subjectType : grant.subjectType = "user" ∨ grant.subjectType = "ci"
  period : grant.issuedAt.instant ≠ 0 ∧ grant.expiresAt.instant ≠ 0 ∧
    grant.issuedAt.instant < grant.expiresAt.instant
  digests : ∀ field ∈ grant.digestFields, isDigest field.2 = true
  action : validateAction grant.action = .ok ()

variable {fields : List (String × String)} {value : Unit} {order : IterationOrder (String × String)}
  {grant : ActionGrant}

theorem requireFields_eq_ok :
    requireFields fields = .ok value ↔ ∀ field ∈ fields, isBlank field.2 = false := by
  unfold requireFields
  split
  · next field found =>
    simp only [reduceCtorEq, false_iff]
    intro nonblank
    have blank := List.find?_some found
    rw [nonblank field (List.mem_of_find?_eq_some found)] at blank
    cases blank
  · next missing => simpa [List.find?_eq_none] using missing

theorem requireDigests_eq_ok :
    requireDigests fields = .ok value ↔ ∀ field ∈ fields, isDigest field.2 = true := by
  unfold requireDigests
  split
  · next field found =>
    simp only [reduceCtorEq, false_iff]
    intro digests
    have invalid := List.find?_some found
    rw [digests field (List.mem_of_find?_eq_some found)] at invalid
    simp at invalid
  · next missing => simpa [List.find?_eq_none] using missing

theorem validateGrantShape_eq_ok :
    validateGrantShape order grant = .ok value ↔ grant.WellShaped := by
  simp only [validateGrantShape, validateVersion, bind_eq_ok, require_eq_ok, requireFields_eq_ok,
    requireDigests_eq_ok, IterationOrder.mem_arrange, exists_const]
  constructor
  · rintro ⟨version, fields, subjectType, period, digests, action⟩
    exact ⟨version, fields, subjectType, period, digests, action⟩
  · rintro ⟨version, fields, subjectType, period, digests, action⟩
    exact ⟨version, fields, subjectType, period, digests, action⟩

/-- A grant with a canonical payload is well shaped; the signing copy keeps the checked fields. -/
theorem wellShaped_of_payload {payload : Json}
    (canonical : canonicalGrantPayload order grant = .ok payload) : grant.WellShaped := by
  simp only [canonicalGrantPayload, bind_eq_ok, validateGrantShape_eq_ok, exists_const] at canonical
  obtain ⟨shaped, -⟩ := canonical
  exact ⟨shaped.version, shaped.fields, shaped.subjectType, shaped.period, shaped.digests,
    shaped.action⟩

end Themisy.Protocol
