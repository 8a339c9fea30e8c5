import Themisy.Encoding.Float64
import Themisy.Workflow.Release

/-!
# Verifications and their evidence

This file embeds `pkg/adapter/verification.go`, `ValidateEvidence` of
`internal/verification` and the activity `Verify`. The activity passes on a result
of the executor only if its evidence is complete, finite and untampered, and agrees
with the outcome. The times of the evidence are in UTC.
-/

namespace Themisy.Workflow

open Domain Interaction

namespace AdapterEvidence

/-- A number field with `omitempty`; only finite numbers can be written. -/
def marshalFloat (name : String) : Float64 → Except GoError Json.Fields
  | .finite value => .ok (if value = 0 then [] else Json.field name (.float (.finite value)))
  | .infinity negative =>
    .error (.plain ("json: unsupported value: " ++ if negative then "-Inf" else "+Inf"))
  | .nan => .error (.plain "json: unsupported value: NaN")

def marshal (evidence : AdapterEvidence) : Except GoError Json := do
  let windowFrom ← Protocol.ZonedTime.marshal ⟨evidence.evidence.windowFrom, 0⟩
  let windowTo ← Protocol.ZonedTime.marshal ⟨evidence.evidence.windowTo, 0⟩
  let observedAt ← Protocol.ZonedTime.marshal ⟨evidence.evidence.observedAt, 0⟩
  let observedValue ← marshalFloat "observed_value" evidence.evidence.observedValue
  let threshold ← marshalFloat "threshold" evidence.evidence.threshold
  return .object (
    Json.field "status" (.text evidence.status.text) ++
    Json.field "reason_code" (.text evidence.reasonCode) ++
    Json.field "source" (.text evidence.evidence.source) ++
    Json.field "query_hash" (.text evidence.evidence.queryHash) ++
    Json.field "window" (.object (Json.field "from" windowFrom ++ Json.field "to" windowTo)) ++
    Json.field "observed_at" observedAt ++ observedValue ++ threshold ++
    Json.field "adapter_version" (.text evidence.evidence.adapterVersion) ++
    Json.field "evidence_hash" (.text evidence.evidence.evidenceHash))

def hash (digest : Digest) (evidence : AdapterEvidence) : Except GoError String := do
  let payload ←
    marshal { evidence with evidence := { evidence.evidence with evidenceHash := "" } }
  return digest.hashValue payload

/-- No field is missing, and the window is not empty. -/
def Complete (evidence : AdapterEvidence) : Prop :=
  evidence.status.valid = true ∧
    (∀ text ∈ [evidence.reasonCode, evidence.evidence.source, evidence.evidence.queryHash,
      evidence.evidence.adapterVersion, evidence.evidence.evidenceHash],
      GoText.isBlank text = false) ∧
    evidence.evidence.windowFrom ≠ 0 ∧ evidence.evidence.windowTo ≠ 0 ∧
    evidence.evidence.observedAt ≠ 0 ∧ evidence.evidence.windowFrom < evidence.evidence.windowTo

def Finite (evidence : AdapterEvidence) : Prop :=
  ∃ observedValue threshold, evidence.evidence.observedValue = .finite observedValue ∧
    evidence.evidence.threshold = .finite threshold

/-- The function `ValidateEvidence` of the adapters. -/
def validateFields (evidence : AdapterEvidence) : Except GoError Unit := do
  require (¬(evidence.status.valid = false ∨ GoText.isBlank evidence.reasonCode ∨
      GoText.isBlank evidence.evidence.source ∨ GoText.isBlank evidence.evidence.queryHash ∨
      evidence.evidence.windowFrom = 0 ∨ evidence.evidence.windowTo = 0 ∨
      ¬evidence.evidence.windowFrom < evidence.evidence.windowTo ∨
      evidence.evidence.observedAt = 0 ∨ GoText.isBlank evidence.evidence.adapterVersion ∨
      GoText.isBlank evidence.evidence.evidenceHash)) (.plain "evidence is incomplete")
  require (¬(evidence.evidence.observedValue.isNaN ∨ evidence.evidence.observedValue.isInf ∨
      evidence.evidence.threshold.isNaN ∨ evidence.evidence.threshold.isInf))
    (.plain "evidence contains non-finite values")

/-- The function `ValidateEvidence` of the worker. -/
def validate (digest : Digest) (evidence : AdapterEvidence) : Except GoError Unit := do
  evidence.validateFields
  let hash ← evidence.hash digest
  require (hash = evidence.evidence.evidenceHash) (.plain "evidence hash mismatch")

theorem complete_of_validateFields {evidence : AdapterEvidence} {value : Unit}
    (valid : evidence.validateFields = .ok value) : evidence.Complete ∧ evidence.Finite := by
  simp only [validateFields, bind_eq_ok, require_eq_ok, exists_const, not_or, Bool.not_eq_true,
    not_not, Bool.not_eq_false] at valid
  obtain ⟨⟨status, reasonCode, source, queryHash, windowFrom, windowTo, window, observedAt,
    adapterVersion, evidenceHash⟩, observedNumber, observedFinite, thresholdNumber,
    thresholdFinite⟩ := valid
  refine ⟨⟨status, ?_, windowFrom, windowTo, observedAt, window⟩, ?_⟩
  · simp [reasonCode, source, queryHash, adapterVersion, evidenceHash]
  · obtain ⟨observedValue, observed⟩ := Float64.exists_finite observedNumber observedFinite
    obtain ⟨threshold, bound⟩ := Float64.exists_finite thresholdNumber thresholdFinite
    exact ⟨observedValue, threshold, observed, bound⟩

end AdapterEvidence

structure ClassifiedError where
  errorClass : ErrorClass
  operation : String
  error : GoError
  deriving DecidableEq

/-- The activity `Verify`, given the answer of the executor. -/
def Activities.verify (digest : Digest) (answer : Except GoError VerificationResult) :
    Except ClassifiedError VerificationResult := do
  let result ← answer.mapError fun error => ⟨.retryable, "verify", error⟩
  require (result.evidence.status = result.outcome)
    ⟨.terminal, "verify", .plain "verification outcome and evidence disagree"⟩
  (result.evidence.validate digest).mapError fun error => ⟨.terminal, "verify", error⟩
  return result

/-- The result passes, on evidence which is complete. -/
structure Evidenced (digest : Digest) (result : VerificationResult) : Prop where
  outcome : result.outcome = .pass
  status : result.evidence.status = .pass
  complete : result.evidence.Complete
  finite : result.evidence.Finite
  hash : result.evidence.hash digest = .ok result.evidence.evidence.evidenceHash

theorem evidenced_of_verify {digest : Digest} {answer : Except GoError VerificationResult}
    {result : VerificationResult} (returned : Activities.verify digest answer = .ok result)
    (pass : result.outcome = .pass) : Evidenced digest result := by
  simp only [Activities.verify, AdapterEvidence.validate, bind_eq_ok, mapError_eq_ok,
    require_eq_ok] at returned
  obtain ⟨answered, -, _, agrees, _, ⟨_, fields, hash, hashed, same⟩, kept⟩ := returned
  cases kept
  obtain ⟨complete, finite⟩ := AdapterEvidence.complete_of_validateFields fields
  exact ⟨pass, agrees.trans pass, complete, finite, hashed.trans (congrArg Except.ok same)⟩

end Themisy.Workflow
