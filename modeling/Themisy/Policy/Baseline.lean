import Themisy.Encoding.Json
import Themisy.Rego.Rules

/-!
# The mandatory policy

This file embeds `policies/baseline/main.rego`, rule by rule. Names are those of the
package `themisy.authorization`.
-/

namespace Themisy.Policy

/-- The body of a rule over encoded inputs. -/
abbrev Query (α : Type) := Rego.Query Json Json α

abbrev Rule := Rego.Rule Json Json

abbrev Rules := Rego.Policy Json Json

open Rego.Query Rego.Rule

def denyName : String := "data.themisy.authorization.deny"

def validSubjectTypeName : String := "data.themisy.authorization.valid_subject_type"

def approvalRequiredName : String := "data.themisy.authorization.approval_required"

def allowName : String := "data.themisy.authorization.allow"

def requireApprovalName : String := "data.themisy.authorization.require_approval"

def decisionName : String := "data.themisy.authorization.decision"

/-- The expression `input.name`. -/
def field (name : String) : Query Json :=
  read (Json.lookup name)

/-- The expression `object.get(input, name, fallback)`. -/
def fieldOr (name : String) (fallback : Json) (input : Json) : Json :=
  (input.lookup name).getD fallback

/-- The expression `input.name == text`. -/
def fieldIs (name text : String) : Query Unit := do
  let value ← field name
  holds (value = .text text)

def StartsWith (text start : String) : Prop :=
  start.toList <+: text.toList

instance (text start : String) : Decidable (StartsWith text start) :=
  inferInstanceAs (Decidable (_ <+: _))

/-- The function `startswith`, which is undefined for other values than texts. -/
def startsWith (value : Json) (start : String) : Query Unit :=
  match value with
  | .text text => holds (StartsWith text start)
  | _ => oneOf []

/-- The function `count`, which is undefined for values without elements. -/
def count : Json → Option ℕ
  | .text value => some value.length
  | .array items => some items.length
  | .object fields => some fields.length
  | _ => none

/-- The place of a kind of value in the order of all values. -/
def kindRank : Json → ℕ
  | .null => 0
  | .bool _ => 1
  | .number _ | .float _ => 2
  | .text _ | .time _ _ => 3
  | .array _ => 4
  | .object _ => 5

/-- The order of values, as far as it concerns texts and different kinds. -/
def ValueBefore (left right : Json) : Prop :=
  match left, right with
  | .text first, .text second => first ≤ second
  | _, _ => kindRank left ≤ kindRank right

instance : DecidableRel ValueBefore := fun left right => by
  unfold ValueBefore
  split <;> infer_instance

def sortValues (values : List Json) : List Json :=
  values.insertionSort ValueBefore

def missingSubject : Rule := contains denyName [] (do
  fieldIs "user_id" ""
  return .text "MISSING_SUBJECT")

def missingAgent : Rule := contains denyName [] (do
  fieldIs "agent_id" ""
  return .text "MISSING_AGENT")

def validSubjectTypeUser : Rule := complete validSubjectTypeName [] (do
  fieldIs "subject_type" "user"
  return .bool true)

def validSubjectTypeCI : Rule := complete validSubjectTypeName [] (do
  fieldIs "subject_type" "ci"
  return .bool true)

def validSubjectType : Query Unit := do
  let value ← valueOf validSubjectTypeName
  holds (value ≠ .bool false)

def invalidSubjectType : Rule := contains denyName [validSubjectTypeName] (do
  fieldIs "environment" "production"
  negate validSubjectType
  return .text "INVALID_SUBJECT_TYPE")

def missingDelegation : Rule := contains denyName [] (do
  fieldIs "environment" "production"
  fieldIs "delegation_ref" ""
  return .text "MISSING_DELEGATION")

def unsupportedPolicyInput : Rule := contains denyName [] (do
  let version ← field "version"
  holds (version ≠ .text "themisy.policy.input/v1alpha1")
  return .text "UNSUPPORTED_POLICY_INPUT")

def hashNames : List String :=
  ["plan_hash", "contract_hash", "profile_hash", "policy_hash", "evidence_hash"]

def missingPinnedContext : Rule := contains denyName [] (do
  fieldIs "environment" "production"
  let hashes ← read fun input => some (hashNames.map fun name => fieldOr name (.text "") input)
  let value ← oneOf hashes
  negate (startsWith value "sha256:")
  return .text "MISSING_PINNED_CONTEXT")

def missingApprovalProof : Rule := contains approvalRequiredName [] (do
  fieldIs "risk" "high"
  let proofs ← read fun input => count (fieldOr "approval_proofs" (.array []) input)
  holds (proofs = 0)
  return .text "MISSING_APPROVAL_PROOF")

def allowRule : Rule := complete allowName [denyName, approvalRequiredName] (do
  let deny ← setOf denyName
  holds (deny.length = 0)
  let approvalRequired ← setOf approvalRequiredName
  holds (approvalRequired.length = 0)
  return .bool true)

def requireApprovalRule : Rule := complete requireApprovalName [denyName, approvalRequiredName] (do
  let deny ← setOf denyName
  holds (deny.length = 0)
  let approvalRequired ← setOf approvalRequiredName
  holds (0 < approvalRequired.length)
  return .bool true)

def decisionObject (allow requireApproval : Json) (deny approvalRequired : List Json) : Json :=
  .object [("allow", allow), ("require_approval", requireApproval),
    ("reasons", .array (sortValues (deny ++ approvalRequired))),
    ("required_roles", .array [.text "service-owner"])]

def decisionRule : Rule :=
  complete decisionName [allowName, requireApprovalName, denyName, approvalRequiredName] (do
    let allow ← valueOf allowName
    let requireApproval ← valueOf requireApprovalName
    let deny ← setOf denyName
    let approvalRequired ← setOf approvalRequiredName
    return decisionObject allow requireApproval deny approvalRequired)

def baseline : Rules where
  rules := [missingSubject, missingAgent, validSubjectTypeUser, validSubjectTypeCI,
    invalidSubjectType, missingDelegation, unsupportedPolicyInput, missingPinnedContext,
    missingApprovalProof, allowRule, requireApprovalRule, decisionRule]
  defaults := [(allowName, .bool false), (requireApprovalName, .bool false)]

theorem baseline_wellFormed : baseline.WellFormed := by
  decide

end Themisy.Policy
