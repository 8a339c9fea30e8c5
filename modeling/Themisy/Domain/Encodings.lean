import Themisy.Domain.Types

/-!
# Reading encodings back

`json.Unmarshal` reads the fields of a struct by their names, and leaves a field
which is missing at its zero value. This file gives the readers for the records of a
plan. Each of them reads back what was written, so the encodings are injective.
-/

namespace Themisy

namespace Json

/-- A field which holds a text. -/
def readText : Option Json → String
  | some (.text value) => value
  | _ => ""

def readBool : Option Json → Bool
  | some (.bool value) => value
  | _ => false

def readNumber : Option Json → ℤ
  | some (.number value) => value
  | _ => 0

/-- A field which holds a slice. -/
def readItems {Item : Type} (decode : Json → Item) : Option Json → List Item
  | some (.array items) => items.map decode
  | _ => []

@[simp]
theorem readText_text (value : String) : readText (some (.text value)) = value := rfl

@[simp]
theorem readText_optional (value : String) :
    readText (if value = "" then none else some (.text value)) = value := by
  split
  · next empty => exact empty.symm
  · rfl

@[simp]
theorem readBool_bool (value : Bool) : readBool (some (.bool value)) = value := rfl

@[simp]
theorem readNumber_number (value : ℤ) : readNumber (some (.number value)) = value := rfl

section Items

variable {Item : Type} {encode : Item → Json} {decode : Json → Item}

section

variable (inverse : ∀ item, decode (encode item) = item) (items : List Item)

include inverse items

theorem readItems_array :
    readItems decode (some (.array (items.map encode))) = items := by
  simp [readItems, inverse, Function.comp_def]

theorem readItems_optional :
    readItems decode (if items = [] then none else some (.array (items.map encode))) = items := by
  split
  · next empty => exact empty.symm
  · exact readItems_array inverse items

theorem readItems_ofSlice :
    readItems decode (some (ofSlice encode items)) = items := by
  unfold ofSlice
  split
  · next empty => exact (List.isEmpty_iff.mp empty).symm
  · exact readItems_array inverse items

end

end Items

end Json

namespace Domain

open Json

theorem Environment.ofText_text (environment : Environment) :
    Environment.ofText environment.text = environment := by
  cases environment with
  | other text unlisted => simp [ofText, Environment.text, unlisted]
  | staging | production => rfl

theorem Environment.text_ofText (text : String) : (Environment.ofText text).text = text := by
  unfold ofText
  split
  · rfl
  · next listed =>
    simp only [List.mem_cons, List.not_mem_nil, or_false, not_not] at listed
    rcases listed with rfl | rfl <;> rfl

def DependencyType.ofText (text : String) : DependencyType :=
  if unlisted : text ∉ ["rollout-order", "schema-compatibility", "runtime",
      "shared-failure-domain", "data-migration", "traffic"] then other text unlisted
  else if text = "rollout-order" then rolloutOrder
  else if text = "schema-compatibility" then schemaCompatibility
  else if text = "runtime" then runtime
  else if text = "shared-failure-domain" then sharedFailureDomain
  else if text = "data-migration" then dataMigration
  else traffic

theorem DependencyType.ofText_text (type : DependencyType) :
    DependencyType.ofText type.text = type := by
  cases type with
  | other text unlisted => exact dif_pos unlisted
  | _ => rfl

def Capability.ofText (text : String) : Capability :=
  if unlisted : text ∉ ["deploy", "get_status", "cancel", "rollback", "verify_runtime",
      "verify_metric", "drain", "shift_traffic"] then other text unlisted
  else if text = "deploy" then deploy
  else if text = "get_status" then getStatus
  else if text = "cancel" then cancel
  else if text = "rollback" then rollback
  else if text = "verify_runtime" then verifyRuntime
  else if text = "verify_metric" then verifyMetric
  else if text = "drain" then drain
  else shiftTraffic

theorem Capability.ofText_text (capability : Capability) :
    Capability.ofText capability.text = capability := by
  cases capability with
  | other text unlisted => exact dif_pos unlisted
  | _ => rfl

theorem RollbackMode.ofText_text (mode : RollbackMode) : RollbackMode.ofText mode.text = mode := by
  cases mode with
  | other text unlisted => exact dif_pos unlisted
  | _ => rfl

theorem RollbackMode.text_ofText (text : String) : (RollbackMode.ofText text).text = text := by
  unfold ofText
  split
  · rfl
  · next listed =>
    simp only [List.mem_cons, List.not_mem_nil, or_false, not_not] at listed
    rcases listed with rfl | rfl | rfl | rfl <;> rfl

def Dependency.ofJson (value : Json) : Dependency where
  service := readText (lookup "service" value)
  resource := readText (lookup "resource" value)
  type := .ofText (readText (lookup "type" value))
  condition := readText (lookup "condition" value)
  constraint := readText (lookup "constraint" value)

theorem Dependency.ofJson_toJson (dependency : Dependency) :
    Dependency.ofJson dependency.toJson = dependency := by
  simp [ofJson, toJson, DependencyType.ofText_text]

def Capability.ofJson (value : Json) : Capability :=
  .ofText (readText (some value))

theorem Capability.ofJson_toJson (capability : Capability) :
    Capability.ofJson capability.toJson = capability :=
  Capability.ofText_text capability

def SchedulingContext.ofJson (value : Json) : SchedulingContext where
  tenantID := readText (lookup "tenant_id" value)
  environment := .ofText (readText (lookup "environment" value))
  region := readText (lookup "region" value)
  cluster := readText (lookup "cluster" value)
  team := readText (lookup "team" value)
  riskTier := readText (lookup "risk_tier" value)
  runnerGroup := readText (lookup "runner_group" value)
  failureDomains := readItems (fun item => readText (some item)) (lookup "failure_domains" value)

theorem SchedulingContext.ofJson_toJson (context : SchedulingContext) :
    SchedulingContext.ofJson context.toJson = context := by
  have domains := @readItems_optional _ text (fun item => readText (some item)) (fun _ => rfl)
  simp [ofJson, toJson, Environment.ofText_text, domains]

def PlanStep.ofJson (value : Json) : PlanStep where
  service := readText (lookup "service" value)
  desiredVersion := readText (lookup "desired_version" value)
  phase := readNumber (lookup "phase" value)
  profile := readText (lookup "profile" value)
  dependencies := readItems Dependency.ofJson (lookup "dependencies" value)
  requiredCapabilities := readItems Capability.ofJson (lookup "required_capabilities" value)
  contractHash := readText (lookup "contract_hash" value)
  profileHash := readText (lookup "profile_hash" value)
  changeHash := readText (lookup "change_hash" value)
  verificationRequired := readBool (lookup "verification_required" value)
  observationWindow := readText (lookup "observation_window" value)
  rollbackMode := .ofText (readText (lookup "rollback_mode" value))
  scheduling := .ofJson ((lookup "scheduling" value).getD .null)

theorem PlanStep.ofJson_toJson (step : PlanStep) : PlanStep.ofJson step.toJson = step := by
  simp [ofJson, toJson, RollbackMode.ofText_text, SchedulingContext.ofJson_toJson,
    readItems_optional Dependency.ofJson_toJson, readItems_optional Capability.ofJson_toJson]

def PlanPhase.ofJson (value : Json) : PlanPhase where
  number := readNumber (lookup "number" value)
  steps := readItems PlanStep.ofJson (lookup "steps" value)

theorem PlanPhase.ofJson_toJson (phase : PlanPhase) : PlanPhase.ofJson phase.toJson = phase := by
  simp [ofJson, toJson, readItems_ofSlice PlanStep.ofJson_toJson]

end Domain

end Themisy
