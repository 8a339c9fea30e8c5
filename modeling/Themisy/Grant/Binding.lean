import Themisy.Grant.Verifier

/-!
# The canonical payload binds every field

Two grants have one canonical payload exactly when they agree on every field but
the signature, where the approval proofs may be listed in any order. So a
signature which verifies for the signed payload only is refused on every grant
which was altered.
-/

namespace Themisy

namespace Protocol

open Domain Json

/-- The grants agree on every field but the signature, up to the order of the proofs. -/
def ActionGrant.Agrees (first second : ActionGrant) : Prop :=
  { first with approvalProofs := second.approvalProofs, signature := second.signature } = second ∧
    first.approvalProofs.Perm second.approvalProofs

instance (first second : ActionGrant) : Decidable (first.Agrees second) :=
  inferInstanceAs (Decidable (_ ∧ _))

theorem optionalText_inj {name first second : String} :
    optionalText name first = optionalText name second ↔ first = second := by
  by_cases firstEmpty : first = "" <;> by_cases secondEmpty : second = "" <;>
    simp_all [optionalText, field, eq_comm]

theorem Action.toJson_injective : Function.Injective Action.toJson := by
  intro first second same
  simp only [Action.toJson, Json.object.injEq, field, List.cons_append, List.nil_append,
    List.cons.injEq, Prod.mk.injEq, Json.text.injEq, true_and, optionalText_inj,
    Capability.text_injective.eq_iff] at same
  cases first
  cases second
  simp_all

theorem Target.toJson_injective : Function.Injective Target.toJson := by
  intro first second same
  simp only [Target.toJson, Json.object.injEq, field, List.cons_append, List.nil_append,
    List.cons.injEq, Prod.mk.injEq, Json.text.injEq, true_and, and_true] at same
  cases first
  cases second
  simp_all

theorem ofSlice_eq_iff {Item : Type} {encode : Item → Json} (injective : Function.Injective encode)
    {first second : List Item} : ofSlice encode first = ofSlice encode second ↔ first = second :=
  ⟨ofSlice_inj injective, fun same => by rw [same]⟩

theorem ZonedTime.time_eq_iff {first second : ZonedTime} :
    Json.time first.instant first.zone = Json.time second.instant second.zone ↔
      first = second := by
  cases first
  cases second
  simp

variable {second first : ActionGrant} {payload : Json} {order : IterationOrder (String × String)}

theorem ActionGrant.marshal_inj (encoded : first.marshal = .ok payload)
    (again : second.marshal = .ok payload) (signature : first.signature = second.signature) :
    first = second := by
  simp only [marshal, bind_eq_ok, ZonedTime.marshal_eq_ok] at encoded again
  rcases encoded with ⟨_, ⟨-, rfl⟩, _, ⟨-, rfl⟩, encoded⟩
  rcases again with ⟨_, ⟨-, rfl⟩, _, ⟨-, rfl⟩, again⟩
  have same := Except.ok.inj (encoded.trans again.symm)
  simp only [Json.object.injEq, field, List.cons_append, List.nil_append, List.cons.injEq,
    Prod.mk.injEq, Json.text.injEq, true_and, and_true, ZonedTime.time_eq_iff,
    Action.toJson_injective.eq_iff, Target.toJson_injective.eq_iff,
    ofSlice_eq_iff (fun _ _ => Json.text.inj)] at same
  cases first
  cases second
  simp_all

theorem payload_eq_iff {other : IterationOrder (String × String)} {content : Json}
    (canonical : canonicalGrantPayload order first = .ok payload)
    (again : canonicalGrantPayload other second = .ok content) :
    payload = content ↔ first.Agrees second := by
  simp only [canonicalGrantPayload, bind_eq_ok, exists_and_right] at canonical again
  constructor
  · rintro rfl
    have same := ActionGrant.marshal_inj canonical.2 again.2 rfl
    have sorted : sortStrings first.approvalProofs = sortStrings second.approvalProofs :=
      congrArg ActionGrant.approvalProofs same
    have proofs : first.approvalProofs.Perm second.approvalProofs := by
      apply (sortStrings_perm _).symm.trans
      rw [sorted]
      exact sortStrings_perm _
    refine ⟨?_, proofs⟩
    simp only [ActionGrant.signingCopy, ActionGrant.mk.injEq] at same
    cases first
    cases second
    simp_all
  · rintro ⟨same, proofs⟩
    have copies : first.signingCopy = second.signingCopy := by
      rw [← same]
      simp [ActionGrant.signingCopy, sortStrings_eq_of_perm proofs]
    rw [copies] at canonical
    exact Except.ok.inj (canonical.2.symm.trans again.2)

/-- Which grants have a canonical payload. -/
theorem exists_payload_iff {grant : ActionGrant} :
    (∃ payload, canonicalGrantPayload order grant = .ok payload) ↔
      grant.WellShaped ∧ grant.issuedAt.Encodable ∧ grant.expiresAt.Encodable := by
  constructor
  · rintro ⟨payload, canonical⟩
    have shaped := wellShaped_of_payload canonical
    simp only [canonicalGrantPayload, bind_eq_ok, ActionGrant.marshal,
      ZonedTime.marshal_eq_ok] at canonical
    rcases canonical with ⟨-, -, -, ⟨issued, -⟩, -, ⟨expires, -⟩, -⟩
    exact ⟨shaped, issued, expires⟩
  · rintro ⟨shaped, issued, expires⟩
    have copied : grant.signingCopy.WellShaped :=
      ⟨shaped.version, shaped.fields, shaped.subjectType, shaped.period, shaped.digests,
        shaped.action⟩
    simp only [canonicalGrantPayload, bind_eq_ok, validateGrantShape_eq_ok, ActionGrant.marshal,
      ZonedTime.marshal_eq_ok]
    exact ⟨_, (), copied, _, ⟨issued, rfl⟩, _, ⟨expires, rfl⟩, rfl⟩

theorem fixtureDigest_valid :
    isDigest fixtureDigest = true ∧ GoText.isBlank fixtureDigest = false := by
  decide +kernel

theorem exists_payload_protocolFixture :
    ∃ payload, canonicalGrantPayload .stored protocolFixture = .ok payload := by
  rw [exists_payload_iff]
  refine ⟨⟨rfl, ?_, Or.inl rfl, ?_, ?_, rfl⟩, ?_, ?_⟩
  · simp only [ActionGrant.requiredFields, protocolFixture, List.forall_mem_cons,
      fixtureDigest_valid.2]
    decide +kernel
  · decide +kernel
  · simp only [ActionGrant.digestFields, protocolFixture, List.forall_mem_cons,
      fixtureDigest_valid.1]
    simp
  · unfold ZonedTime.Encodable
    decide +kernel
  · unfold ZonedTime.Encodable
    decide +kernel

end Protocol

namespace Grant

open Domain Protocol

theorem Verifier.rejects_altered {scheme : SignatureScheme} (binding : scheme.Binding)
    (verifier : Verifier scheme) {order other : IterationOrder (String × String)}
    {grant altered : ActionGrant} {payload : Json} {key : scheme.PublicKey} {value : List UInt8}
    (canonical : canonicalGrantPayload order grant = .ok payload)
    (decoded : scheme.decode grant.signature.value = some value)
    (signed : scheme.verify key payload value = true)
    (signature : altered.signature = grant.signature) (differs : ¬grant.Agrees altered)
    (now : Time) : ∃ error, verifier.verify other now altered = .error error := by
  cases verified : verifier.verify other now altered with
  | error error => exact ⟨error, rfl⟩
  | ok =>
    rcases (accepts_of_verify verified).signed with
      ⟨content, again, -, -, otherKey, -, otherValue, decodedAgain, verifiedAgain⟩
    rw [signature, decoded] at decodedAgain
    cases decodedAgain
    have same := binding key otherKey payload content value signed verifiedAgain
    exact absurd ((payload_eq_iff canonical again).mp same) differs

/--
The canonical payloads of two grants are equal exactly when the grants agree on
every field but the signature. A grant which does not agree with a signed grant
is refused with the signature of the latter.
-/
theorem canonicalGrantPayload_binds_fields {order other : IterationOrder (String × String)}
    {grant : ActionGrant} {payload : Json}
    (canonical : canonicalGrantPayload order grant = .ok payload) :
    (∀ second content, canonicalGrantPayload other second = .ok content →
      (payload = content ↔ grant.Agrees second)) ∧
    ∀ (scheme : SignatureScheme) (key : scheme.PublicKey) (value : List UInt8)
      (altered : ActionGrant), scheme.Binding →
      scheme.decode grant.signature.value = some value → scheme.verify key payload value = true →
      altered.signature = grant.signature → ¬grant.Agrees altered →
      ∀ (verifier : Verifier scheme) (now : Time),
        ∃ error, verifier.verify other now altered = .error error := by
  refine ⟨fun second content again => payload_eq_iff canonical again, ?_⟩
  intro scheme key value altered binding decoded signed signature differs verifier now
  exact verifier.rejects_altered binding canonical decoded signed signature differs now

/-- The grant of the package's tests with another risk is refused. -/
theorem canonicalGrantPayload_binds_risk : ∃ payload,
    canonicalGrantPayload .stored protocolFixture = .ok payload ∧
    ∀ (verifier : Verifier (.signing payload)) (now : Time), ∃ error,
      verifier.verify .stored now { protocolFixture with risk := "low" } = .error error := by
  rcases exists_payload_protocolFixture with ⟨payload, canonical⟩
  refine ⟨payload, canonical, fun verifier now => ?_⟩
  apply (canonicalGrantPayload_binds_fields canonical).2 (.signing payload) () []
    { protocolFixture with risk := "low" } (SignatureScheme.signing_binding payload) rfl
  · simp [SignatureScheme.signing]
  · rfl
  · decide +kernel

end Grant

end Themisy
