import Themisy.Protocol.ActionGrant

/-!
# Delegations

This file embeds `internal/identity/delegation.go`: a user delegates actions on
services and environments, up to a risk, to an agent. Matching a selector against
a service name (`path.Match`) is a parameter, whose result is none for a
malformed selector.
-/

namespace Themisy.Identity

open Domain Protocol

/-- A verified user; its audience and claims are not used. -/
structure Subject where
  issuer : String
  id : String
  expiresAt : Time := 0
  issuedAt : Time := 0
  deriving DecidableEq

/-- What a user has delegated to an agent. -/
structure Delegation where
  id : String
  issuer : String
  userSubject : String
  agentID : String
  actions : List Protocol.Capability
  serviceSelectors : List String
  environments : List String
  maximumRisk : String
  expiresAt : Time
  deriving DecidableEq

structure DelegationRequest where
  reference : String
  subject : Subject
  agentID : String
  capability : Protocol.Capability
  service : String
  environment : String
  risk : String
  deriving DecidableEq

/-- The error `AGENT_DELEGATION_DENIED`, with the error of the resolver, if any. -/
def delegationDenied (cause : Option GoError) : GoError :=
  match cause with
  | none => .plain "AGENT_DELEGATION_DENIED"
  | some error => .wrapped "AGENT_DELEGATION_DENIED" error

def riskLevel (risk : String) : ℕ :=
  if risk = "low" then 1
  else if risk = "medium" then 2
  else if risk = "high" then 3
  else 0

structure DelegationVerifier where
  resolver : Option (String → Except GoError Delegation)
  pathMatch : String → String → Option Bool

namespace DelegationVerifier

variable (verifier : DelegationVerifier)

def serviceAllowed (selectors : List String) (service : String) : Bool :=
  selectors.any fun selector => verifier.pathMatch selector service = some true

def verify (now : Time) (request : DelegationRequest) : Except GoError Delegation :=
  match verifier.resolver with
  | none => .error (delegationDenied none)
  | some resolveDelegation => do
      require (request.reference ≠ "") (delegationDenied none)
      let delegation ← (resolveDelegation request.reference).mapError fun error =>
        delegationDenied (some error)
      require (delegation.id = request.reference ∧ delegation.userSubject = request.subject.id ∧
        delegation.issuer = request.subject.issuer ∧ delegation.agentID = request.agentID ∧
        now < delegation.expiresAt) (delegationDenied none)
      require (riskLevel request.risk ≠ 0 ∧ riskLevel delegation.maximumRisk ≠ 0 ∧
        request.capability ∈ delegation.actions ∧
        request.environment ∈ delegation.environments ∧
        verifier.serviceAllowed delegation.serviceSelectors request.service = true ∧
        riskLevel request.risk ≤ riskLevel delegation.maximumRisk) (delegationDenied none)
      return delegation

/-- The delegation covers the request. -/
structure Covers (now : Time) (request : DelegationRequest) (delegation : Delegation) : Prop where
  reference : delegation.id = request.reference
  subject : delegation.userSubject = request.subject.id ∧ delegation.issuer = request.subject.issuer
  agent : delegation.agentID = request.agentID
  unexpired : now < delegation.expiresAt
  capability : request.capability ∈ delegation.actions
  environment : request.environment ∈ delegation.environments
  service : ∃ selector ∈ delegation.serviceSelectors,
    verifier.pathMatch selector request.service = some true
  risk : 0 < riskLevel request.risk ∧ riskLevel request.risk ≤ riskLevel delegation.maximumRisk

variable {verifier}

theorem covers_of_verify {now : Time} {request : DelegationRequest} {delegation : Delegation}
    (verified : verifier.verify now request = .ok delegation) :
    verifier.Covers now request delegation := by
  unfold verify at verified
  split at verified
  · cases verified
  · next resolveDelegation configured =>
    simp only [bind_eq_ok, require_eq_ok, exists_const] at verified
    obtain ⟨-, resolved, -, ⟨reference, user, issuer, agent, unexpired⟩,
      ⟨riskNe, -, capability, environment, service, risk⟩, returned⟩ := verified
    cases returned
    refine ⟨reference, ⟨user, issuer⟩, agent, unexpired, capability, environment, ?_,
      Nat.pos_of_ne_zero riskNe, risk⟩
    simpa [serviceAllowed] using service

end DelegationVerifier

end Themisy.Identity
