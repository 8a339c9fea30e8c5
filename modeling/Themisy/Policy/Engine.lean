import Themisy.Domain.Encodings
import Themisy.Policy.Input

/-!
# The policy engine

This file embeds `internal/policy/engine.go` and the fixed evaluator of
`internal/policy/policy.go`. An engine without an evaluator denies everything.

A decision is recorded with the hash of its input. The fixed rules read two fields
which the hash leaves out, the scopes of the agent and the destructive migration;
the decision is determined by the hash together with these.
-/

namespace Themisy.Policy

open Domain

/-- The interface `Evaluator`. -/
abbrev Evaluator := Input → Except GoError Evaluation

/-- The engine: an evaluator, or none. -/
structure Engine where
  evaluator : Option Evaluator

def unavailable : GoError :=
  .plain "POLICY_UNAVAILABLE"

def Engine.evaluateContext (engine : Engine) (input : Input) : Except GoError Evaluation :=
  match engine.evaluator with
  | none => .error unavailable
  | some evaluate => evaluate (normalizeInput input)

/-- The method `Evaluate`, which turns an error into a denial. -/
def Engine.evaluate (digest : Digest) (engine : Engine) (now : Time) (input : Input) :
    PolicyDecision :=
  match engine.evaluateContext input with
  | .error error => {
      decision := .deny
      policyVersion := "unavailable"
      reasonCode := "POLICY_UNAVAILABLE"
      reasonDetail := error.text
      inputHash := inputHash digest input
      createdAt := now }
  | .ok evaluation => {
      decision := evaluation.decision
      policyVersion := evaluation.policyVersion
      reasonCode := evaluation.reasons.headD "POLICY_ALLOW"
      reasonDetail := ", ".intercalate evaluation.reasons
      requiredRoles := evaluation.requiredRoles
      inputHash := evaluation.inputHash
      createdAt := now }

def version : String := "builtin-v1"

/-- The decision, reason and roles of the fixed rules. -/
def builtinDecision (input : Input) : Decision × String × List String :=
  if input.userID = "" ∨ input.agentID = "" then (.deny, "MISSING_SUBJECT", [])
  else if "release:deploy" ∉ input.agentScopes then (.deny, "MISSING_DELEGATED_SCOPE", [])
  else if input.environment = .production ∧ "release:production" ∉ input.agentScopes then
    (.deny, "MISSING_PRODUCTION_SCOPE", [])
  else if ¬input.ciSuccess then (.deny, "CI_NOT_SUCCESSFUL", [])
  else if ¬input.dependenciesHealthy then (.deny, "DEPENDENCIES_UNHEALTHY", [])
  else if input.destructiveMigration then
    (.requireApproval, "DESTRUCTIVE_DB_MIGRATION", ["service-owner", "sre"])
  else if input.risk = "high" then (.requireApproval, "HIGH_BLAST_RADIUS", ["service-owner"])
  else (.allow, "POLICY_ALLOW", [])

def builtinEvaluator (digest : Digest) : Evaluator := fun input =>
  let (decision, reason, requiredRoles) := builtinDecision input
  .ok {
    decision
    reasons := [reason]
    requiredRoles
    inputHash := inputHash digest input
    policyVersion := version }

open Json in
theorem lookup_canonicalInput (input : Input) :
    lookup "user_id" (canonicalInput input) = some (.text input.userID) ∧
    lookup "agent_id" (canonicalInput input) = some (.text input.agentID) ∧
    lookup "environment" (canonicalInput input) = some (.text input.environment.text) ∧
    lookup "risk" (canonicalInput input) = some (.text input.risk) ∧
    lookup "ci_success" (canonicalInput input) = some (.bool input.ciSuccess) ∧
    lookup "dependencies_healthy" (canonicalInput input) =
      some (.bool input.dependenciesHealthy) := by
  simp [canonicalInput, normalizeInput, Input.toJson]

/--
The inputs agree in the fields which the hash leaves out, as far as the fixed rules come
to read them: the scope to deploy for a complete subject, the scope of the production
environment with that scope, and the migration when nothing else is denied.
-/
def SameUnhashed (first second : Input) : Prop :=
  first.userID = "" ∨ first.agentID = "" ∨
    ("release:deploy" ∈ first.agentScopes ↔ "release:deploy" ∈ second.agentScopes) ∧
      ("release:deploy" ∈ first.agentScopes →
        (first.environment = .production →
          ("release:production" ∈ first.agentScopes ↔
            "release:production" ∈ second.agentScopes)) ∧
        ((first.environment = .production → "release:production" ∈ first.agentScopes) →
          first.ciSuccess = true → first.dependenciesHealthy = true →
            first.destructiveMigration = second.destructiveMigration))

section Unhashed

variable {first second : Input}

/-- The fields which the fixed rules read and the hash covers. -/
theorem eq_of_canonicalInput_eq (same : canonicalInput first = canonicalInput second) :
    first.userID = second.userID ∧ first.agentID = second.agentID ∧
      first.environment = second.environment ∧ first.risk = second.risk ∧
      first.ciSuccess = second.ciSuccess ∧
      first.dependenciesHealthy = second.dependenciesHealthy := by
  obtain ⟨userID, agentID, environment, risk, ciSuccess, healthy⟩ := lookup_canonicalInput first
  rw [same] at userID agentID environment risk ciSuccess healthy
  have read := lookup_canonicalInput second
  simp only [userID, agentID, environment, risk, ciSuccess, healthy, Option.some.injEq,
    Json.text.injEq, Json.bool.injEq] at read
  obtain ⟨userID, agentID, environment, risk, ciSuccess, healthy⟩ := read
  refine ⟨userID, agentID, ?_, risk, ciSuccess, healthy⟩
  rw [← Environment.ofText_text first.environment, environment, Environment.ofText_text]

theorem builtinDecision_eq_iff (userID : first.userID = second.userID)
    (agentID : first.agentID = second.agentID)
    (environment : first.environment = second.environment) (risk : first.risk = second.risk)
    (ciSuccess : first.ciSuccess = second.ciSuccess)
    (healthy : first.dependenciesHealthy = second.dependenciesHealthy) :
    builtinDecision first = builtinDecision second ↔ SameUnhashed first second := by
  simp only [builtinDecision, SameUnhashed, ← userID, ← agentID, ← environment, ← risk,
    ← ciSuccess, ← healthy]
  clear userID agentID environment risk ciSuccess healthy
  -- The rules are decided in their order; a field is read only when no earlier rule applies.
  by_cases subject : first.userID = "" ∨ first.agentID = ""
  · simp only [if_pos subject, true_iff]
    exact subject.imp_right Or.inl
  · simp only [not_or.mp subject, or_self, if_false, false_or]
    by_cases deploy : "release:deploy" ∈ first.agentScopes
    · by_cases deployAgain : "release:deploy" ∈ second.agentScopes
      · simp only [deploy, deployAgain, not_true_eq_false, if_false, true_and, forall_const]
        split_ifs <;> simp_all
      · simp only [deploy, deployAgain, not_true_eq_false, not_false_eq_true, if_false, if_true,
          iff_false, false_and]
        split_ifs <;> simp
    · by_cases deployAgain : "release:deploy" ∈ second.agentScopes
      · simp only [deploy, deployAgain, not_true_eq_false, not_false_eq_true, if_false, if_true,
          false_iff, false_and]
        split_ifs <;> simp
      · simp [deploy, deployAgain]

/-- Inputs with one hash are evaluated alike exactly if they agree in what the hash leaves out
and the rules read. The digest is assumed to have no collision among the encodings in question. -/
theorem evaluation_determined_by_inputHash_iff {digest : Digest} {documents : Set Json}
    (collisionFree : Set.InjOn digest.hex documents)
    (firstMem : canonicalInput first ∈ documents) (secondMem : canonicalInput second ∈ documents)
    (same : inputHash digest first = inputHash digest second) :
    builtinEvaluator digest first = builtinEvaluator digest second ↔
      SameUnhashed first second := by
  obtain ⟨userID, agentID, environment, risk, ciSuccess, healthy⟩ := eq_of_canonicalInput_eq
    ((Digest.hashValue_eq_iff collisionFree firstMem secondMem).mp same)
  rw [← builtinDecision_eq_iff userID agentID environment risk ciSuccess healthy]
  simp only [builtinEvaluator, same, Except.ok.injEq, Evaluation.mk.injEq, List.cons.injEq,
    and_true]
  rw [Prod.ext_iff, Prod.ext_iff]

end Unhashed

/-- The version and the order of the proofs are normalised, so two inputs may share a hash. -/
theorem evaluation_determined_by_inputHash_iff_proofs :
    let first : Input := {
      userID := "user", agentID := "agent", agentScopes := ["release:deploy"]
      environment := .staging, service := "api", capability := .deploy, risk := "high"
      approvalProofs := ["b", "a"], ciSuccess := true, dependenciesHealthy := true }
    let second : Input :=
      { first with version := inputVersionV1Alpha1, approvalProofs := ["a", "b"] }
    let digest := Digest.telling (canonicalInput first) .null
    first ≠ second ∧ inputHash digest first = inputHash digest second ∧
      builtinEvaluator digest first = builtinEvaluator digest second := by
  intro first second digest
  have encoded : canonicalInput first = canonicalInput second := by decide +kernel
  have same : inputHash digest first = inputHash digest second := congrArg digest.hashValue encoded
  refine ⟨by decide, same, (evaluation_determined_by_inputHash_iff
    (Digest.telling_injOn (by decide +kernel)) (Set.mem_insert _ _) ?_ same).mpr ?_⟩
  · rw [← encoded]
    exact Set.mem_insert _ _
  · exact Or.inr (Or.inr ⟨Iff.rfl, fun _ => ⟨fun _ => Iff.rfl, fun _ _ _ => rfl⟩⟩)

/-- Three inputs which have the same hash under every digest get three decisions. -/
theorem decisions_differ_under_one_inputHash :
    let allowed : Input := {
      userID := "user", agentID := "agent", agentScopes := ["release:deploy"]
      environment := .staging, service := "api", capability := .deploy, risk := "low"
      ciSuccess := true, dependenciesHealthy := true }
    let migrating : Input := { allowed with destructiveMigration := true }
    let unscoped : Input := { allowed with agentScopes := [] }
    ∀ digest : Digest,
      inputHash digest allowed = inputHash digest migrating ∧
      inputHash digest allowed = inputHash digest unscoped ∧
      [allowed, migrating, unscoped].map
          (fun input => (builtinEvaluator digest input).map Evaluation.decision) =
        [.ok .allow, .ok .requireApproval, .ok .deny] := by
  intro allowed migrating unscoped digest
  have migrated : canonicalInput allowed = canonicalInput migrating := by decide +kernel
  have reduced : canonicalInput allowed = canonicalInput unscoped := by decide +kernel
  exact ⟨congrArg digest.hashValue migrated, congrArg digest.hashValue reduced, rfl⟩

end Themisy.Policy
