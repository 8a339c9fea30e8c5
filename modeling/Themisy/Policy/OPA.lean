import Themisy.Policy.Baseline
import Themisy.Policy.Bundle
import Themisy.Policy.Engine

/-!
# Evaluation with OPA

This file embeds `internal/policy/opa.go`. The engine OPA itself is a parameter: how
it reads the text of a module, and what its compiler checks apart from recursion and
conflicting rules. The modules of a bundle are merged by the rules of
`Themisy.Rego.Rules`, and the built-in functions which the embedded module calls have
their usual meaning.
-/

namespace Themisy.Policy

open Domain

/-- The parser and the remaining checks of OPA. -/
structure RegoEngine where
  parse : String → Except String Rules
  check : Rules → Except String Unit

/-- The embedded file `baseline/main.rego`, as OPA reads it. -/
structure MandatoryFile (rego : RegoEngine) where
  source : String
  nonempty : source ≠ ""
  parsed : rego.parse source = .ok baseline
  accepted : rego.check baseline = .ok ()

/-- Parse a module; of several with one file name the last one counts. -/
def RegoEngine.addModule (rego : RegoEngine) (table : GoMap String Rules)
    (file : String × String) : Except String (GoMap String Rules) := do
  let rules ← rego.parse file.2
  return table.set file.1 rules

def RegoEngine.load (rego : RegoEngine) (modules : List (String × String)) :
    Except String (GoMap String Rules) :=
  modules.foldlM rego.addModule ∅

def RegoEngine.prepareForEval (rego : RegoEngine) (modules : List (String × String)) :
    Except String (Rego.Program Json Json) := do
  let table ← rego.load modules
  let policy := Rego.Policy.merge table.values
  if wellFormed : policy.WellFormed then
    rego.check policy
    return ⟨policy, wellFormed⟩
  else .error "rego_compile_error: recursive or conflicting rules"

/-- A prepared query, with what identifies its policy. -/
structure OPA where
  query : Rego.Program Json Json
  bundleVersion : String
  bundleHash : String

def moduleFile (module : Module) : String × String :=
  (module.layer.text ++ "/" ++ module.name, module.source)

def regoModule (module : Module) : Except GoError (String × String) := do
  require (module.name ≠ "" ∧ module.source ≠ "")
    (.plain "INVALID_POLICY_BUNDLE: empty module")
  return moduleFile module

def newOPA (sort : SliceSort) (rego : RegoEngine) (bundle : Bundle) : Except GoError OPA := do
  let modules := (normalizedBundle sort bundle).modules
  let options ← modules.mapM regoModule
  require (∃ module ∈ modules, module.layer = .platform)
    (.plain "INVALID_POLICY_BUNDLE: platform mandatory layer is required")
  let query ← (rego.prepareForEval options).mapError fun message =>
    .wrapped "compile policy bundle" (.plain message)
  return { query, bundleVersion := bundle.version, bundleHash := bundle.hash }

/-- The regular expression `^[A-Z][A-Z0-9_]{2,63}$`. -/
def stableReasonCode (text : String) : Bool :=
  match text.toList with
  | [] => false
  | first :: rest => first.isUpper ∧ 2 ≤ rest.length ∧ rest.length ≤ 63 ∧
      rest.all fun character => character.isUpper || character.isDigit || character = '_'

def stringSlice : Option Json → Except GoError (List String)
  | some (.array values) => values.mapM fun
      | .text text => do
          require (stableReasonCode text) (.plain "POLICY_UNAVAILABLE: reason is invalid")
          return text
      | _ => .error (.plain "POLICY_UNAVAILABLE: reason is invalid")
  | _ => .error (.plain "POLICY_UNAVAILABLE: reasons are invalid")

def optionalStringSlice : Option Json → Except GoError (List String)
  | none => .ok []
  | some .null => .ok []
  | some (.array values) => do
      let result ← values.mapM fun
        | .text text => do
            require (text ≠ "") (.plain "POLICY_UNAVAILABLE: required role is invalid")
            return text
        | _ => .error (.plain "POLICY_UNAVAILABLE: required role is invalid")
      return sortStrings result
  | some _ => .error (.plain "POLICY_UNAVAILABLE: required roles are invalid")

/-- The single result of the query `data.themisy.authorization.decision`. -/
def queryResult : Except String (Option (Rego.Document Json)) → Except GoError Json
  | .error message =>
    .error (.wrapped "POLICY_UNAVAILABLE: invalid OPA result" (.plain message))
  | .ok none => .error (.plain "POLICY_UNAVAILABLE: invalid OPA result: %!w(<nil>)")
  | .ok (some (.value (.object fields))) => .ok (.object fields)
  | .ok (some _) => .error (.plain "POLICY_UNAVAILABLE: result is not an object")

/-- The Go expression `value.(bool)`. -/
def asBool : Option Json → Option Bool
  | some (.bool value) => some value
  | _ => none

def allowedBy (object : Json) : Except GoError Bool :=
  match asBool (object.lookup "allow") with
  | some allowed => .ok allowed
  | none => .error (.plain "POLICY_UNAVAILABLE: allow is missing")

def decisionOf (allowed requireApproval : Bool) : Decision :=
  if allowed then .allow
  else if requireApproval then .requireApproval
  else .deny

def OPA.evaluate (digest : Digest) (opa : OPA) : Evaluator := fun given => do
  let input := normalizeInput given
  let object ← queryResult (opa.query.documents input.toJson decisionName)
  let allowed ← allowedBy object
  let reasons ← stringSlice (object.lookup "reasons")
  let requireApproval := (asBool (object.lookup "require_approval")).getD false
  let decision := decisionOf allowed requireApproval
  let requiredRoles ← optionalStringSlice (object.lookup "required_roles")
  return {
    decision
    reasons := if allowed ∧ reasons = [] then ["POLICY_ALLOW"] else sortStrings reasons
    requiredRoles := if decision = .requireApproval then requiredRoles else []
    inputHash := inputHash digest input
    policyVersion := opa.bundleVersion
    policyHash := opa.bundleHash }

/-- The bundle of the embedded file, issued on 1 August 2026 until the end of 9999. -/
def mandatoryBundle (source : String) : Bundle where
  version := "embedded-baseline-v1"
  issuer := "embedded://themisy"
  compatibility := [inputVersionV1Alpha1]
  issuedAt := { instant := 63921139200 * 10 ^ 9 }
  expiresAt := { instant := 3652058 * (86400 * 10 ^ 9) }
  modules := [{ name := "main.rego", layer := .platform, source }]

def newMandatoryEngine (sort : SliceSort) (digest : Digest) {rego : RegoEngine}
    (file : MandatoryFile rego) : Except GoError Engine := do
  let bundle := mandatoryBundle file.source
  let hash ← calculateBundleHash sort digest bundle
  let opa ← newOPA sort rego { bundle with hash }
  return { evaluator := some (opa.evaluate digest) }

theorem prepareForEval_eq_ok {rego : RegoEngine} {modules : List (String × String)}
    {program : Rego.Program Json Json} :
    rego.prepareForEval modules = .ok program ↔ ∃ table, rego.load modules = .ok table ∧
      program.toPolicy = Rego.Policy.merge table.values ∧
      rego.check program.toPolicy = .ok () := by
  simp only [RegoEngine.prepareForEval, bind_eq_ok]
  refine exists_congr fun table => and_congr_right fun _ => ?_
  constructor
  · intro compiled
    split at compiled
    · obtain ⟨⟨⟩, checked, eq⟩ := bind_eq_ok.mp compiled
      cases eq
      exact ⟨rfl, checked⟩
    · cases compiled
  · obtain ⟨policy, wellFormed⟩ := program
    rintro ⟨rfl, checked⟩
    rw [dif_pos wellFormed, checked]
    rfl

end Themisy.Policy
