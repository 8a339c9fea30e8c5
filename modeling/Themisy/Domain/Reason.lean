import Themisy.Encoding.GoText
import Mathlib.Tactic.Common

/-!
# Errors

This file embeds `internal/domain/reason.go`. An error is a plain message, an
error with a reason code and the path of the field it is about, or a message
wrapped around another error.
-/

namespace Themisy.Domain

inductive ReasonCode where
  | unsupportedSchemaVersion
  | invalidContract
  | invalidProfile
  | missingOwner
  | unknownProfile
  | missingCapability
  | unknownDependency
  | dependencyCycle
  | planExpired
  | planHashMismatch
  | contractChanged
  | profileChanged
  | contextChanged
  | policyChanged
  | evidenceChanged
  | tenantBoundary
  deriving DecidableEq

def ReasonCode.text : ReasonCode → String
  | unsupportedSchemaVersion => "UNSUPPORTED_SCHEMA_VERSION"
  | invalidContract => "INVALID_CONTRACT"
  | invalidProfile => "INVALID_PROFILE"
  | missingOwner => "MISSING_OWNER"
  | unknownProfile => "UNKNOWN_PROFILE"
  | missingCapability => "MISSING_CAPABILITY"
  | unknownDependency => "UNKNOWN_DEPENDENCY"
  | dependencyCycle => "DEPENDENCY_CYCLE"
  | planExpired => "PLAN_EXPIRED"
  | planHashMismatch => "PLAN_HASH_MISMATCH"
  | contractChanged => "CONTRACT_CHANGED"
  | profileChanged => "PROFILE_CHANGED"
  | contextChanged => "CONTEXT_CHANGED"
  | policyChanged => "POLICY_CHANGED"
  | evidenceChanged => "EVIDENCE_CHANGED"
  | tenantBoundary => "TENANT_BOUNDARY"

/-- An error, with its chain of wrapped errors. -/
inductive GoError where
  /-- `errors.New` and `fmt.Errorf` -/
  | plain (message : String)
  /-- `NewReasonError`, with the message of the wrapped error, if any -/
  | reason (code : ReasonCode) (field detail : String) (cause : Option String)
  /-- `fmt.Errorf` with `%w` -/
  | wrapped (context : String) (error : GoError)
  deriving DecidableEq

def newReasonError (code : ReasonCode) (field detail : String) : GoError :=
  .reason code field detail none

def GoError.text : GoError → String
  | .plain message => message
  | .reason code field detail cause =>
    let located := if field = "" then code.text else code.text ++ " at " ++ field
    if detail ≠ "" then located ++ ": " ++ detail
    else
      match cause with
      | some message => located ++ ": " ++ message
      | none => located
  | .wrapped context error => context ++ ": " ++ error.text

/-- The reason code of the first error in the chain which has one. -/
def reasonOf : GoError → Option ReasonCode
  | .plain _ => none
  | .reason code _ _ _ => some code
  | .wrapped _ error => reasonOf error

section Statements

variable {Failure Value Next : Type}

/-- The Go statement `if !condition { return error }`. -/
def require (condition : Prop) [Decidable condition] (error : Failure) : Except Failure Unit :=
  if condition then .ok () else .error error

variable {error : Failure} {condition : Prop} {value : Unit} {first : Except Failure Value}
  {next : Value → Except Failure Next}

@[simp]
theorem require_eq_ok [Decidable condition] : require condition error = .ok value ↔ condition := by
  simp [require]

theorem bind_eq_ok {result : Next} :
    (first >>= next) = .ok result ↔ ∃ value, first = .ok value ∧ next value = .ok result := by
  cases first <;> simp [bind, Except.bind]

theorem bind_eq_error :
    (first >>= next) = .error error ↔
      first = .error error ∨ ∃ value, first = .ok value ∧ next value = .error error := by
  cases first <;> simp [bind, Except.bind]

@[simp]
theorem require_eq_error [Decidable condition] {failure : Failure} :
    require condition error = .error failure ↔ ¬condition ∧ error = failure := by
  by_cases holds : condition <;> simp [require, holds]

theorem forM_eq_ok {Item : Type} {items : List Item} {check : Item → Except Failure Unit} :
    items.forM check = .ok value ↔ ∀ item ∈ items, check item = .ok () := by
  induction items with
  | nil => simp [List.forM_nil, pure, Except.pure]
  | cons item rest ih =>
    have unfolded : (item :: rest).forM check = check item >>= fun _ => rest.forM check := rfl
    rw [unfolded, bind_eq_ok, List.forall_mem_cons, ← ih]
    constructor
    · rintro ⟨⟨⟩, first, later⟩
      exact ⟨first, later⟩
    · rintro ⟨first, later⟩
      exact ⟨(), first, later⟩

@[simp]
theorem mapError_eq_ok {wrap : Failure → Next} {value : Value} :
    first.mapError wrap = .ok value ↔ first = .ok value := by
  cases first <;> simp [Except.mapError]

end Statements

end Themisy.Domain
