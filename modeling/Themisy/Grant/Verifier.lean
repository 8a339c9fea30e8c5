import Themisy.Protocol.ActionGrant

/-!
# Verification of action grants

This file embeds `internal/grant/verifier.go`. The signature scheme is a
parameter: how signature texts are decoded and when a signature is that of a
payload under a public key.
-/

namespace Themisy.Grant

open Domain Protocol

def algorithmEd25519 : String := "Ed25519"

/-- The sentinel errors of the package with the details wrapped into them. -/
inductive GrantError where
  | invalidProtocol (detail : GoError)
  | invalidSignature (detail : Option GoError)
  | invalidIssuer
  | wrongAudience
  | wrongTenant
  | expired
  /-- An error of another implementation of the verifier's interface. -/
  | other (error : GoError)
  deriving DecidableEq

/-- The signatures of the standard library. -/
structure SignatureScheme where
  PublicKey : Type
  /-- `base64.RawURLEncoding.DecodeString` -/
  decode : String → Option (List UInt8)
  /-- `ed25519.Verify` -/
  verify : PublicKey → Json → List UInt8 → Bool

/-- A signature verifies only for the bytes which were signed. -/
def SignatureScheme.Binding (scheme : SignatureScheme) : Prop :=
  ∀ key other payload content value, scheme.verify key payload value = true →
    scheme.verify other content value = true → payload = content

/-- The scheme in which every signature signs the one payload. -/
def SignatureScheme.signing (payload : Json) : SignatureScheme where
  PublicKey := Unit
  decode _ := some []
  verify _ content _ := content = payload

theorem SignatureScheme.signing_binding (payload : Json) : (signing payload).Binding := by
  intro key other content again value verified verifiedAgain
  simp only [signing, decide_eq_true_eq] at verified verifiedAgain
  rw [verified, verifiedAgain]

structure Verifier (scheme : SignatureScheme) where
  issuer : String
  runnerGroup : String
  tenantID : String
  keys : Option (String → String → Except GoError scheme.PublicKey)
  clockSkew : ℤ := 0

namespace Verifier

variable {scheme : SignatureScheme} (verifier : Verifier scheme)

/-- The statements of `Verify` which resolve the key and check the signature. -/
def verifySignature (grant : ActionGrant) (payload : Json) : Except GrantError Unit :=
  match verifier.keys with
  | none => .error (.invalidSignature (some (.plain "key resolver unavailable")))
  | some resolveGrantKey =>
    match resolveGrantKey grant.issuer grant.signature.keyID with
    | .error error => .error (.invalidSignature (some error))
    | .ok publicKey =>
      require (∃ value ∈ scheme.decode grant.signature.value,
          scheme.verify publicKey payload value = true)
        (.invalidSignature none)

def verify (order : IterationOrder (String × String)) (now : Time) (grant : ActionGrant) :
    Except GrantError Unit := do
  (validateVersion grant.protocolVersion).mapError .invalidProtocol
  let payload ← (canonicalGrantPayload order grant).mapError fun error =>
    GrantError.invalidSignature (some error)
  require (grant.signature.algorithm = algorithmEd25519 ∧ grant.signature.keyID ≠ "" ∧
    grant.signature.value ≠ "") (.invalidSignature none)
  require (grant.issuer = verifier.issuer) .invalidIssuer
  require (grant.runnerGroup = verifier.runnerGroup) .wrongAudience
  require (verifier.tenantID ≠ "" ∧ grant.tenantID = verifier.tenantID) .wrongTenant
  verifier.verifySignature grant payload
  require (grant.issuedAt.instant ≤ now + verifier.clockSkew ∧
    now - verifier.clockSkew < grant.expiresAt.instant) .expired

def Signed (grant : ActionGrant) (payload : Json) : Prop :=
  ∃ resolveGrantKey, verifier.keys = some resolveGrantKey ∧
    ∃ publicKey, resolveGrantKey verifier.issuer grant.signature.keyID = .ok publicKey ∧
      ∃ value, scheme.decode grant.signature.value = some value ∧
        scheme.verify publicKey payload value = true

/-- What the verifier checks of a grant. -/
structure Accepts (order : IterationOrder (String × String)) (now : Time) (grant : ActionGrant) :
    Prop where
  shaped : grant.WellShaped
  algorithm : grant.signature.algorithm = algorithmEd25519
  issuer : grant.issuer = verifier.issuer
  audience : grant.runnerGroup = verifier.runnerGroup
  tenant : verifier.tenantID ≠ "" ∧ grant.tenantID = verifier.tenantID
  signed : ∃ payload, canonicalGrantPayload order grant = .ok payload ∧
    verifier.Signed grant payload
  issued : grant.issuedAt.instant ≤ now + verifier.clockSkew
  unexpired : now - verifier.clockSkew < grant.expiresAt.instant

variable {verifier}

variable {grant : ActionGrant} {value : Unit}

theorem signed_of_verifySignature {payload : Json}
    (verified : verifier.verifySignature grant payload = .ok value)
    (issuer : grant.issuer = verifier.issuer) : verifier.Signed grant payload := by
  unfold verifySignature at verified
  split at verified
  · cases verified
  · next resolveGrantKey configured =>
    split at verified
    · cases verified
    · next publicKey resolved =>
      obtain ⟨value, decoded, valid⟩ := require_eq_ok.mp verified
      rw [issuer] at resolved
      exact ⟨resolveGrantKey, configured, publicKey, resolved, value, decoded, valid⟩

theorem accepts_of_verify {order : IterationOrder (String × String)} {now : Time}
    (verified : verifier.verify order now grant = .ok value) :
    verifier.Accepts order now grant := by
  simp only [verify, validateVersion, bind_eq_ok, mapError_eq_ok, require_eq_ok, exists_const]
    at verified
  obtain ⟨-, payload, canonical, ⟨algorithm, -, -⟩, issuer, audience, tenant, _, signature,
    issued, unexpired⟩ := verified
  exact ⟨wellShaped_of_payload canonical, algorithm, issuer, audience, tenant,
    ⟨payload, canonical, signed_of_verifySignature signature issuer⟩, issued, unexpired⟩

end Verifier

end Themisy.Grant
