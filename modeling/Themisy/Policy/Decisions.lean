import Themisy.Policy.OPA

/-!
# The decisions of the mandatory policy

An input is written in JSON before the rules see it, and an empty field is often left
out. A comparison with a missing field is undefined, so a rule which compares it does
not fire: that for a missing delegation is one of them.

The first part says what each rule yields, whatever the documents of the other names
are. Then the documents of the baseline alone follow.
-/

namespace Themisy.Policy

open Domain Rego Rego.Query

namespace Input

def hashes (input : Input) : List String :=
  [input.planHash, input.contractHash, input.profileHash, input.policyHash, input.evidenceHash]

/-- What the baseline asks for, apart from the subject, delegation and approval. -/
structure Grounded (input : Input) : Prop where
  user : input.userID ≠ ""
  agent : input.agentID ≠ ""
  version : input.version = "" ∨ input.version = inputVersionV1Alpha1
  pinned : input.environment = .production →
    ∀ hash ∈ input.hashes, StartsWith hash "sha256:"

/-- What the baseline asks for, apart from delegation and approval. -/
structure Sound (input : Input) : Prop extends input.Grounded where
  subject : input.environment = .production →
    input.subjectType = "user" ∨ input.subjectType = "ci"

/-- A release to production names its delegation. -/
def Delegated (input : Input) : Prop :=
  input.environment = .production → input.delegationRef ≠ ""

/-- A request at high risk comes with a proof of approval. -/
def Approved (input : Input) : Prop :=
  input.risk = "high" → input.approvalProofs ≠ []

variable (input : Input)

instance : Decidable input.Grounded :=
  decidable_of_iff (input.userID ≠ "" ∧ input.agentID ≠ "" ∧
      (input.version = "" ∨ input.version = inputVersionV1Alpha1) ∧
      (input.environment = .production → ∀ hash ∈ input.hashes, StartsWith hash "sha256:"))
    ⟨fun ⟨user, agent, version, pinned⟩ => ⟨user, agent, version, pinned⟩,
      fun ⟨user, agent, version, pinned⟩ => ⟨user, agent, version, pinned⟩⟩

instance : Decidable input.Sound :=
  decidable_of_iff (input.Grounded ∧ (input.environment = .production →
      input.subjectType = "user" ∨ input.subjectType = "ci"))
    ⟨fun ⟨grounded, subject⟩ => ⟨grounded, subject⟩,
      fun sound => ⟨sound.toGrounded, sound.subject⟩⟩

instance : Decidable input.Delegated :=
  inferInstanceAs (Decidable (_ → _))

instance : Decidable input.Approved :=
  inferInstanceAs (Decidable (_ → _))

/-- The decision which the baseline reaches; the delegation plays no part in it. -/
def baselineDecision : Decision :=
  if ¬input.Sound then .deny
  else if ¬input.Approved then .requireApproval
  else .allow

/-- The decision which the reasons of the baseline are meant to express. -/
def table : Decision :=
  if ¬(input.Sound ∧ input.Delegated) then .deny
  else if ¬input.Approved then .requireApproval
  else .allow

end Input

section Rules

variable {input : Input} {documents : Documents Json}

/-- An expression which refers to the document is satisfied. -/
def Satisfied : Option (Document Json) → Prop
  | some (.value content) => content ≠ .bool false
  | _ => False

instance : DecidablePred Satisfied
  | some (.value content) => inferInstanceAs (Decidable (content ≠ .bool false))
  | some (.set _) | none => inferInstanceAs (Decidable False)

def RefusesSubject (documents : Documents Json) : Prop :=
  ∃ subject, documents validSubjectTypeName = .ok subject ∧ ¬Satisfied subject

variable {context : Context Json Json} {value : Json}

@[simp]
theorem fieldIs_bind {α : Type} {name text : String} {next : Unit → Query α} :
    (fieldIs name text >>= next) context =
      if context.input.lookup name = some (.text text) then next () context else .ok [] := by
  have compared : fieldIs name text context =
      .ok (if context.input.lookup name = some (.text text) then [()] else []) := by
    unfold fieldIs field
    rw [read_bind]
    cases context.input.lookup name <;> simp [holds]
  change (fieldIs name text context >>= each _) = _
  rw [compared]
  split
  · exact each_singleton
  · rfl

@[simp]
theorem environment_text_eq {environment : Environment} :
    environment.text = "production" ↔ environment = .production := by
  cases environment with
  | staging | production => simp [Environment.text]
  | other text unlisted =>
    simp only [Environment.text, reduceCtorEq, iff_false]
    rintro rfl
    exact unlisted (by simp)

theorem lookup_environment : Json.lookup "environment" input.toJson = some (.text "production") ↔
    input.environment = .production := by
  simp [Input.toJson]

-- one lemma per rule: what it yields on the encoding of an input

theorem results_missingSubject : missingSubject.results ⟨input.toJson, documents⟩ =
    if input.userID = "" then .ok [.text "MISSING_SUBJECT"] else .ok [] := by
  simp [missingSubject, Input.toJson]

theorem results_missingAgent : missingAgent.results ⟨input.toJson, documents⟩ =
    if input.agentID = "" then .ok [.text "MISSING_AGENT"] else .ok [] := by
  simp [missingAgent, Input.toJson]

/-- The reference is left out when it is empty, so the rule never fires. -/
theorem results_missingDelegation :
    missingDelegation.results ⟨input.toJson, documents⟩ = .ok [] := by
  simp [missingDelegation, Input.toJson]

theorem results_unsupportedPolicyInput :
    unsupportedPolicyInput.results ⟨input.toJson, documents⟩ =
      if input.version ≠ "" ∧ input.version ≠ inputVersionV1Alpha1 then
        .ok [.text "UNSUPPORTED_POLICY_INPUT"]
      else .ok [] := by
  by_cases empty : input.version = "" <;>
    simp [unsupportedPolicyInput, field, Input.toJson, empty, inputVersionV1Alpha1]

theorem results_validSubjectTypeUser : validSubjectTypeUser.results ⟨input.toJson, documents⟩ =
    if input.subjectType = "user" then .ok [.bool true] else .ok [] := by
  by_cases empty : input.subjectType = "" <;> simp [validSubjectTypeUser, Input.toJson, empty]

theorem results_validSubjectTypeCI : validSubjectTypeCI.results ⟨input.toJson, documents⟩ =
    if input.subjectType = "ci" then .ok [.bool true] else .ok [] := by
  by_cases empty : input.subjectType = "" <;> simp [validSubjectTypeCI, Input.toJson, empty]

theorem results_invalidSubjectType : invalidSubjectType.results ⟨input.toJson, documents⟩ =
    if input.environment = .production then
      match documents validSubjectTypeName with
      | .ok subject => if Satisfied subject then .ok [] else .ok [.text "INVALID_SUBJECT_TYPE"]
      | .error error => .error error
    else .ok [] := by
  have compared : validSubjectType (Context.restrict ⟨input.toJson, documents⟩
      [validSubjectTypeName]) =
      match documents validSubjectTypeName with
      | .ok subject => .ok (if Satisfied subject then [()] else [])
      | .error error => .error error := by
    unfold validSubjectType
    simp only [valueOf_bind, Context.restrict, List.mem_singleton, if_pos]
    rcases documents validSubjectTypeName with error | _ | content | elements <;> rfl
  simp only [invalidSubjectType, Rule.contains, Rule.results, fieldIs_bind, negate_bind, compared,
    pure_apply]
  simp only [Context.restrict, lookup_environment]
  rcases documents validSubjectTypeName with error | subject
  · rfl
  · by_cases accepted : Satisfied subject <;> simp [accepted]

theorem yields_invalidSubjectType :
    Yields (invalidSubjectType.results ⟨input.toJson, documents⟩) value ↔
      (input.environment = .production ∧ RefusesSubject documents) ∧
        value = .text "INVALID_SUBJECT_TYPE" := by
  rw [results_invalidSubjectType]
  split
  · next production =>
    cases read : documents validSubjectTypeName with
    | error error => simp [Yields, RefusesSubject, read]
    | ok subject =>
      by_cases accepted : Satisfied subject <;>
        simp [yields_ok, RefusesSubject, read, accepted, production]
  · next elsewhere => simp [yields_ok, elsewhere]

theorem each_unpinned {start : String} {reason : Json} (hashes : List String) :
    each (fun value => (negate (startsWith value start) >>= fun _ => pure reason : Query Json)
        context) (hashes.map .text) =
      .ok ((hashes.filter fun hash => ¬StartsWith hash start).map fun _ => reason) := by
  induction hashes with
  | nil => rfl
  | cons hash rest ih =>
    have first : (negate (startsWith (.text hash) start) >>= fun _ => pure reason :
        Query Json) context = .ok (if StartsWith hash start then [] else [reason]) := by
      rw [negate_bind]
      by_cases pinned : StartsWith hash start <;> simp [startsWith, holds, pure_apply, pinned]
    rw [List.map_cons, each, first, ih]
    by_cases pinned : StartsWith hash start <;> simp [pinned, bind, Except.bind, Pure.pure,
      Except.pure]

theorem results_missingPinnedContext : missingPinnedContext.results ⟨input.toJson, documents⟩ =
    if input.environment = .production then
      .ok ((input.hashes.filter fun hash => ¬StartsWith hash "sha256:").map fun _ =>
        .text "MISSING_PINNED_CONTEXT")
    else .ok [] := by
  have hashes : hashNames.map (fun name => fieldOr name (.text "") input.toJson) =
      input.hashes.map .text := by
    simp [hashNames, Input.hashes, fieldOr, Input.toJson]
    grind
  simp only [missingPinnedContext, Rule.contains, Rule.results, fieldIs_bind, read_bind,
    oneOf_bind, Context.restrict, lookup_environment, hashes, each_unpinned]

theorem results_missingApprovalProof : missingApprovalProof.results ⟨input.toJson, documents⟩ =
    if input.risk = "high" ∧ input.approvalProofs = [] then .ok [.text "MISSING_APPROVAL_PROOF"]
    else .ok [] := by
  by_cases empty : input.approvalProofs = [] <;>
    simp [missingApprovalProof, Input.toJson, empty, fieldOr, count]

section Sets

variable {json : Json} {denied missing : List Json}
  (deny : documents denyName = .ok (some (.set denied)))
  (approvals : documents approvalRequiredName = .ok (some (.set missing)))

include deny approvals

theorem results_allowRule : allowRule.results ⟨json, documents⟩ =
    if denied = [] ∧ missing = [] then .ok [.bool true] else .ok [] := by
  by_cases empty : denied = [] <;> simp [allowRule, deny, approvals, empty]

theorem results_requireApprovalRule : requireApprovalRule.results ⟨json, documents⟩ =
    if denied = [] ∧ missing ≠ [] then .ok [.bool true] else .ok [] := by
  by_cases empty : denied = [] <;>
    simp [requireApprovalRule, deny, approvals, empty, List.length_pos_iff]

theorem results_decisionRule {allow requireApproval : Json}
    (allowed : documents allowName = .ok (some (.value allow)))
    (required : documents requireApprovalName = .ok (some (.value requireApproval))) :
    decisionRule.results ⟨json, documents⟩ =
      .ok [decisionObject allow requireApproval denied missing] := by
  simp [decisionRule, deny, approvals, allowed, required]

end Sets

/-- The reasons for which the baseline denies a request. -/
inductive Denies (input : Input) (documents : Documents Json) : String → Prop where
  | missingSubject (empty : input.userID = "") : Denies input documents "MISSING_SUBJECT"
  | missingAgent (empty : input.agentID = "") : Denies input documents "MISSING_AGENT"
  | invalidSubjectType (production : input.environment = .production)
      (refused : RefusesSubject documents) : Denies input documents "INVALID_SUBJECT_TYPE"
  | unsupportedPolicyInput (given : input.version ≠ "")
      (unsupported : input.version ≠ inputVersionV1Alpha1) :
      Denies input documents "UNSUPPORTED_POLICY_INPUT"
  | missingPinnedContext (production : input.environment = .production) {hash : String}
      (member : hash ∈ input.hashes) (unpinned : ¬StartsWith hash "sha256:") :
      Denies input documents "MISSING_PINNED_CONTEXT"

theorem forall_not_denies_iff :
    (∀ reason, ¬Denies input documents reason) ↔
      input.Grounded ∧ (input.environment = .production → ¬RefusesSubject documents) := by
  constructor
  · intro none
    refine ⟨⟨?_, ?_, ?_, ?_⟩, ?_⟩
    · exact fun empty => none _ (.missingSubject empty)
    · exact fun empty => none _ (.missingAgent empty)
    · by_contra other
      rw [not_or] at other
      exact none _ (.unsupportedPolicyInput other.1 other.2)
    · intro production hash member
      by_contra unpinned
      exact none _ (.missingPinnedContext production member unpinned)
    · exact fun production refused => none _ (.invalidSubjectType production refused)
  · rintro ⟨grounded, accepted⟩ reason denies
    cases denies with
    | missingSubject empty => exact grounded.user empty
    | missingAgent empty => exact grounded.agent empty
    | invalidSubjectType production refused => exact accepted production refused
    | unsupportedPolicyInput given unsupported =>
      exact grounded.version.elim given unsupported
    | missingPinnedContext production member unpinned =>
      exact unpinned (grounded.pinned production _ member)

theorem definitions_deny : baseline.definitions denyName =
    [missingSubject, missingAgent, invalidSubjectType, missingDelegation, unsupportedPolicyInput,
      missingPinnedContext] := rfl

theorem contributes_deny_iff :
    baseline.Contributes ⟨input.toJson, documents⟩ denyName value ↔
      ∃ reason, Denies input documents reason ∧ value = .text reason := by
  simp only [Policy.Contributes, definitions_deny, List.mem_cons, List.not_mem_nil, or_false,
    exists_eq_or_imp, exists_eq_left, results_missingSubject, results_missingAgent,
    yields_invalidSubjectType, results_missingDelegation,
    results_unsupportedPolicyInput, yields_ite, yields_ok, false_or]
  constructor
  · rintro (⟨empty, rfl⟩ | ⟨empty, rfl⟩ | ⟨⟨production, refused⟩, rfl⟩ |
      ⟨⟨given, unsupported⟩, rfl⟩ | unpinned)
    · exact ⟨_, .missingSubject empty, rfl⟩
    · exact ⟨_, .missingAgent empty, rfl⟩
    · exact ⟨_, .invalidSubjectType production refused, rfl⟩
    · exact ⟨_, .unsupportedPolicyInput given unsupported, rfl⟩
    · rw [results_missingPinnedContext] at unpinned
      split at unpinned
      · next production =>
        simp only [yields_ok, List.mem_map, List.mem_filter, decide_eq_true_eq] at unpinned
        obtain ⟨hash, ⟨member, unpinned⟩, rfl⟩ := unpinned
        exact ⟨_, .missingPinnedContext production member unpinned, rfl⟩
      · simp [yields_ok] at unpinned
  · rintro ⟨reason, denies, rfl⟩
    cases denies with
    | missingSubject empty => exact Or.inl ⟨empty, rfl⟩
    | missingAgent empty => exact Or.inr (Or.inl ⟨empty, rfl⟩)
    | invalidSubjectType production refused =>
      exact Or.inr (Or.inr (Or.inl ⟨⟨production, refused⟩, rfl⟩))
    | unsupportedPolicyInput given unsupported =>
      exact Or.inr (Or.inr (Or.inr (Or.inl ⟨⟨given, unsupported⟩, rfl⟩)))
    | @missingPinnedContext production hash member unpinned =>
      refine Or.inr (Or.inr (Or.inr (Or.inr ?_)))
      rw [results_missingPinnedContext, if_pos production, yields_ok, List.mem_map]
      exact ⟨hash, List.mem_filter.mpr ⟨member, by simpa using unpinned⟩, rfl⟩

/-- Which inputs the baseline does not deny, given the document of the subject type. -/
theorem forall_not_contributes_deny_iff :
    (∀ value, ¬baseline.Contributes ⟨input.toJson, documents⟩ denyName value) ↔
      input.Grounded ∧ (input.environment = .production → ¬RefusesSubject documents) := by
  rw [← forall_not_denies_iff]
  simp only [contributes_deny_iff]
  constructor
  · exact fun none reason denies => none _ ⟨reason, denies, rfl⟩
  · rintro none value ⟨reason, denies, -⟩
    exact none reason denies

theorem contributes_approvalRequired_iff :
    baseline.Contributes ⟨input.toJson, documents⟩ approvalRequiredName value ↔
      ¬input.Approved ∧ value = .text "MISSING_APPROVAL_PROOF" := by
  have definitions : baseline.definitions approvalRequiredName = [missingApprovalProof] := rfl
  simp only [Policy.Contributes, definitions, List.mem_singleton, exists_eq_left,
    results_missingApprovalProof, yields_ite, Input.Approved]
  tauto

theorem contributes_validSubjectType_iff :
    baseline.Contributes ⟨input.toJson, documents⟩ validSubjectTypeName value ↔
      (input.subjectType = "user" ∨ input.subjectType = "ci") ∧ value = .bool true := by
  have definitions : baseline.definitions validSubjectTypeName =
      [validSubjectTypeUser, validSubjectTypeCI] := rfl
  simp only [Policy.Contributes, definitions, List.mem_cons, List.not_mem_nil, or_false,
    exists_eq_or_imp, exists_eq_left, results_validSubjectTypeUser, results_validSubjectTypeCI,
    yields_ite]
  tauto

theorem stableReasonCode_of_denies {reason : String} (denies : Denies input documents reason) :
    stableReasonCode reason = true := by
  cases denies <;> decide

end Rules

section Results

variable {digest : Digest} {opa : OPA} {input : Input} {denied missing : List Json}

/-- A value which the adapter accepts as a reason. -/
def IsReason (value : Json) : Prop :=
  ∃ reason, value = .text reason ∧ stableReasonCode reason = true

theorem exists_stringSlice_eq_ok {values : List Json} (stable : ∀ value ∈ values, IsReason value) :
    ∃ reasons, stringSlice (some (.array values)) = .ok reasons := by
  induction values with
  | nil => exact ⟨[], rfl⟩
  | cons value rest ih =>
    obtain ⟨reason, rfl, code⟩ := stable value List.mem_cons_self
    obtain ⟨reasons, others⟩ := ih fun other member => stable other (List.mem_cons_of_mem _ member)
    refine ⟨reason :: reasons, ?_⟩
    simp only [stringSlice] at others ⊢
    rw [List.mapM_cons, others]
    simp [require, code]
    rfl

/-- The evaluation follows the flags of the object, as long as all reasons are stable codes. -/
theorem exists_evaluate_eq_ok {allowed requireApproval : Bool}
    (result : opa.query.documents (normalizeInput input).toJson decisionName =
      .ok (some (.value (decisionObject (.bool allowed) (.bool requireApproval) denied missing))))
    (stable : ∀ value ∈ denied ++ missing, IsReason value) :
    ∃ evaluation, opa.evaluate digest input = .ok evaluation ∧
      evaluation.decision = decisionOf allowed requireApproval := by
  have sorted : ∀ value ∈ sortValues (denied ++ missing), IsReason value := fun value member =>
    stable value ((List.perm_insertionSort _ _).mem_iff.mp member)
  obtain ⟨reasons, codes⟩ := exists_stringSlice_eq_ok sorted
  simp only [OPA.evaluate, bind_eq_ok]
  exact ⟨_, ⟨_, congrArg queryResult result, allowed, rfl, reasons, codes, ["service-owner"], rfl,
    rfl⟩, rfl⟩

end Results

section Alone

variable (input : Input)

theorem documents_validSubjectType : baseline.documents input.toJson validSubjectTypeName =
    .ok (if input.subjectType = "user" ∨ input.subjectType = "ci" then some (.value (.bool true))
      else none) := by
  have succeeds : baseline.Succeeds (baseline.contextOf input.toJson) validSubjectTypeName := by
    intro rule member
    have definitions : baseline.definitions validSubjectTypeName =
        [validSubjectTypeUser, validSubjectTypeCI] := rfl
    simp only [definitions, List.mem_cons, List.not_mem_nil, or_false] at member
    rcases member with rfl | rfl
    · exact results_validSubjectTypeUser ▸ exists_ite_eq_ok
    · exact results_validSubjectTypeCI ▸ exists_ite_eq_ok
  have complete : ¬baseline.IsSet validSubjectTypeName := by decide
  rw [Policy.documents_eq baseline_wellFormed]
  split
  · next valid =>
    exact Policy.define_eq_value succeeds complete fun value => by
      simp [contributes_validSubjectType_iff, valid]
  · next invalid =>
    exact Policy.define_eq_default succeeds complete fun value => by
      simp [contributes_validSubjectType_iff, invalid]

theorem exists_documents_deny : ∃ denied,
    baseline.documents input.toJson denyName = .ok (some (.set denied)) ∧
      (denied = [] ↔ input.Sound) ∧ ∀ value ∈ denied, IsReason value := by
  have readable := documents_validSubjectType input
  have succeeds : baseline.Succeeds (baseline.contextOf input.toJson) denyName := by
    intro rule member
    simp only [definitions_deny, List.mem_cons, List.not_mem_nil, or_false] at member
    rcases member with rfl | rfl | rfl | rfl | rfl | rfl
    · exact results_missingSubject ▸ exists_ite_eq_ok
    · exact results_missingAgent ▸ exists_ite_eq_ok
    · rw [results_invalidSubjectType, readable]
      split
      · exact exists_ite_eq_ok
      · exact ⟨[], rfl⟩
    · exact ⟨_, results_missingDelegation⟩
    · exact results_unsupportedPolicyInput ▸ exists_ite_eq_ok
    · exact results_missingPinnedContext ▸ exists_ite_eq_ok
  obtain ⟨denied, defined, members⟩ := Policy.exists_define_set succeeds (by decide)
  rw [← Policy.documents_eq baseline_wellFormed] at defined
  refine ⟨denied, defined, ?_, ?_⟩
  · have refuses : RefusesSubject (baseline.documents input.toJson) ↔
        ¬(input.subjectType = "user" ∨ input.subjectType = "ci") := by
      simp only [RefusesSubject, readable, Except.ok.injEq, exists_eq_left']
      split
      · next valid => simp [Satisfied, valid]
      · next invalid => simp [Satisfied, invalid]
    simp only [List.eq_nil_iff_forall_not_mem, members]
    rw [forall_not_contributes_deny_iff, refuses, not_not]
    exact ⟨fun ⟨grounded, subject⟩ => ⟨grounded, subject⟩,
      fun sound => ⟨sound.toGrounded, sound.subject⟩⟩
  · intro value member
    obtain ⟨reason, denies, rfl⟩ := contributes_deny_iff.mp ((members value).mp member)
    exact ⟨reason, rfl, stableReasonCode_of_denies denies⟩

theorem exists_documents_approvalRequired : ∃ missing,
    baseline.documents input.toJson approvalRequiredName = .ok (some (.set missing)) ∧
      (missing = [] ↔ input.Approved) ∧ ∀ value ∈ missing, IsReason value := by
  have succeeds : baseline.Succeeds (baseline.contextOf input.toJson) approvalRequiredName := by
    intro rule member
    have definitions : baseline.definitions approvalRequiredName = [missingApprovalProof] := rfl
    rw [definitions, List.mem_singleton] at member
    subst member
    exact results_missingApprovalProof ▸ exists_ite_eq_ok
  obtain ⟨missing, defined, members⟩ := Policy.exists_define_set succeeds (by decide)
  rw [← Policy.documents_eq baseline_wellFormed] at defined
  simp only [contributes_approvalRequired_iff] at members
  refine ⟨missing, defined, ?_, ?_⟩
  · simp [List.eq_nil_iff_forall_not_mem, members]
  · intro value member
    exact ⟨_, ((members value).mp member).2, by decide⟩

/-- A boolean rule with a default is true when its only definition is. -/
theorem documents_of_default (name : String) {rule : Rule} {condition : Prop} [Decidable condition]
    (definitions : baseline.definitions name = [rule]) (complete : ¬baseline.IsSet name)
    (default : baseline.default name = some (.bool false))
    (results : rule.results (baseline.contextOf input.toJson) =
      if condition then .ok [.bool true] else .ok []) :
    baseline.documents input.toJson name =
      .ok (some (.value (.bool (decide condition)))) := by
  have succeeds : baseline.Succeeds (baseline.contextOf input.toJson) name := by
    intro other member
    rw [definitions, List.mem_singleton] at member
    subst member
    exact results ▸ exists_ite_eq_ok
  have contributes : ∀ value, baseline.Contributes
      (baseline.contextOf input.toJson) name value ↔
        condition ∧ value = .bool true := by
    intro value
    simp only [Policy.Contributes, definitions, List.mem_singleton, exists_eq_left, results,
      yields_ite]
  rw [Policy.documents_eq baseline_wellFormed]
  by_cases holds : condition
  · rw [Policy.define_eq_value succeeds complete fun value => by
      rw [contributes, and_iff_right holds]]
    simp [holds]
  · rw [Policy.define_eq_default succeeds complete fun value => by simp [contributes, holds],
      default]
    simp [holds]

theorem documents_decision : ∃ denied missing,
    baseline.documents input.toJson decisionName = .ok (some (.value (decisionObject
      (.bool (decide (denied = [] ∧ missing = []))) (.bool (decide (denied = [] ∧ missing ≠ [])))
      denied missing))) ∧
      (denied = [] ↔ input.Sound) ∧ (missing = [] ↔ input.Approved) ∧
      ∀ value ∈ denied ++ missing, IsReason value := by
  obtain ⟨denied, deny, sound, denials⟩ := exists_documents_deny input
  obtain ⟨missing, approvals, approved, absences⟩ := exists_documents_approvalRequired input
  have allowed := documents_of_default input allowName rfl (by decide) rfl
    (results_allowRule deny approvals)
  have required := documents_of_default input requireApprovalName rfl (by decide) rfl
    (results_requireApprovalRule deny approvals)
  have result : decisionRule.results ⟨input.toJson, _⟩ = _ :=
    results_decisionRule deny approvals allowed required
  refine ⟨denied, missing, ?_, sound, approved, ?_⟩
  · rw [Policy.documents_eq baseline_wellFormed]
    have definitions : baseline.definitions decisionName = [decisionRule] := rfl
    refine Policy.define_eq_value ?_ (by decide) ?_
    · intro rule member
      rw [definitions, List.mem_singleton] at member
      subst member
      exact ⟨_, result⟩
    · intro value
      simp only [Policy.Contributes, definitions, List.mem_singleton, exists_eq_left, result,
        yields_ok]
  · intro value member
    rcases List.mem_append.mp member with denial | absence
    · exact denials value denial
    · exact absences value absence

end Alone

section Mandatory

variable {rego : RegoEngine} (sort : SliceSort) (digest : Digest) (file : MandatoryFile rego)

theorem newOPA_mandatory (hash : String) :
    newOPA sort rego { mandatoryBundle file.source with hash } =
      .ok ⟨⟨baseline, baseline_wellFormed⟩, "embedded-baseline-v1", hash⟩ := by
  have prepared : rego.prepareForEval [("platform_mandatory/main.rego", file.source)] =
      .ok ⟨baseline, baseline_wellFormed⟩ := by
    refine prepareForEval_eq_ok.mpr
      ⟨GoMap.set ∅ "platform_mandatory/main.rego" baseline, ?_, rfl, file.accepted⟩
    simp [RegoEngine.load, RegoEngine.addModule, file.parsed]
  have options : [(⟨"main.rego", .platform, file.source⟩ : Module)].mapM regoModule =
      .ok [("platform_mandatory/main.rego", file.source)] := by
    simp [regoModule, require, file.nonempty]
    rfl
  have modules : (normalizedBundle sort { mandatoryBundle file.source with hash }).modules =
      [⟨"main.rego", .platform, file.source⟩] :=
    sort.arrange_singleton _
  simp only [newOPA, bind_eq_ok, modules]
  exact ⟨_, options, (), rfl, _, by simp [prepared], rfl⟩

theorem exists_newMandatoryEngine : ∃ hash, newMandatoryEngine sort digest file =
    .ok { evaluator := some (OPA.evaluate digest
      ⟨⟨baseline, baseline_wellFormed⟩, "embedded-baseline-v1", hash⟩) } := by
  have hashed : ∃ hash, calculateBundleHash sort digest (mandatoryBundle file.source) = .ok hash :=
    ⟨_, rfl⟩
  obtain ⟨hash, hashed⟩ := hashed
  refine ⟨hash, ?_⟩
  simp only [newMandatoryEngine, bind_eq_ok]
  exact ⟨hash, hashed, _, newOPA_mandatory sort file hash, rfl⟩

variable {input : Input}

theorem grounded_normalizeInput : (normalizeInput input).Grounded ↔ input.Grounded := by
  have version : (normalizeInput input).version = "" ∨
      (normalizeInput input).version = inputVersionV1Alpha1 ↔
        input.version = "" ∨ input.version = inputVersionV1Alpha1 := by
    unfold normalizeInput
    by_cases empty : input.version = "" <;> simp [empty]
  exact ⟨fun grounded => ⟨grounded.user, grounded.agent, version.mp grounded.version,
      grounded.pinned⟩,
    fun grounded => ⟨grounded.user, grounded.agent, version.mpr grounded.version,
      grounded.pinned⟩⟩

theorem sound_normalizeInput : (normalizeInput input).Sound ↔ input.Sound :=
  ⟨fun sound => ⟨grounded_normalizeInput.mp sound.toGrounded, sound.subject⟩,
    fun sound => ⟨grounded_normalizeInput.mpr sound.toGrounded, sound.subject⟩⟩

theorem approved_normalizeInput : (normalizeInput input).Approved ↔ input.Approved := by
  have none : sortStrings input.approvalProofs = [] ↔ input.approvalProofs = [] :=
    ⟨fun empty => (empty ▸ sortStrings_perm input.approvalProofs).nil_eq.symm ▸ rfl,
      fun empty => by rw [empty]; rfl⟩
  exact imp_congr Iff.rfl (not_congr none)

theorem baselineDecision_normalizeInput :
    (normalizeInput input).baselineDecision = input.baselineDecision := by
  simp only [Input.baselineDecision, sound_normalizeInput, approved_normalizeInput]

theorem exists_evaluate_baseline (opa : OPA) (query : opa.query.toPolicy = baseline)
    (input : Input) : ∃ evaluation, opa.evaluate digest input = .ok evaluation ∧
      evaluation.decision = input.baselineDecision := by
  obtain ⟨denied, missing, result, sound, approved, stable⟩ :=
    documents_decision (normalizeInput input)
  rw [← query] at result
  obtain ⟨evaluation, evaluated, decided⟩ := exists_evaluate_eq_ok result stable
  refine ⟨evaluation, evaluated, ?_⟩
  rw [decided, ← baselineDecision_normalizeInput]
  simp only [Input.baselineDecision, decisionOf, decide_eq_true_eq, ne_eq, ← sound, ← approved]
  by_cases accepted : denied = [] <;> by_cases granted : missing = [] <;>
    simp [accepted, granted]

theorem exists_mandatory_decision : ∃ engine, newMandatoryEngine sort digest file = .ok engine ∧
    ∀ input, ∃ evaluation, engine.evaluateContext input = .ok evaluation ∧
      evaluation.decision = input.baselineDecision := by
  obtain ⟨hash, made⟩ := exists_newMandatoryEngine sort digest file
  refine ⟨_, made, fun input => ?_⟩
  obtain ⟨evaluation, evaluated, decided⟩ := exists_evaluate_baseline digest
    ⟨⟨baseline, baseline_wellFormed⟩, "embedded-baseline-v1", hash⟩ rfl (normalizeInput input)
  exact ⟨evaluation, evaluated, decided.trans baselineDecision_normalizeInput⟩

/--
The mandatory engine evaluates every input. Its decision is that of the table unless
the missing delegation of a release to production is the only ground for a denial.
-/
theorem mandatory_decides_table_iff : ∃ engine, newMandatoryEngine sort digest file = .ok engine ∧
    ∀ input, ∃ evaluation, engine.evaluateContext input = .ok evaluation ∧
      (evaluation.decision = input.table ↔ (input.Sound → input.Delegated)) := by
  obtain ⟨engine, made, decides⟩ := exists_mandatory_decision sort digest file
  refine ⟨engine, made, fun input => ?_⟩
  obtain ⟨evaluation, evaluated, decided⟩ := decides input
  refine ⟨evaluation, evaluated, ?_⟩
  rw [decided]
  unfold Input.baselineDecision Input.table
  by_cases accepted : input.Sound <;> by_cases granted : input.Approved <;>
    by_cases delegated : input.Delegated <;> simp [accepted, granted, delegated]

end Mandatory

/-- An engine which knows the embedded file, here by its first line, and some other texts. -/
def regoReading (other : String → Except String Rules) : RegoEngine where
  parse source := if source = "package themisy.authorization" then .ok baseline else other source
  check _ := .ok ()

def mandatoryFile (other : String → Except String Rules) : MandatoryFile (regoReading other) where
  source := "package themisy.authorization"
  nonempty := by decide
  parsed := rfl
  accepted := rfl

/-- A complete input for a release to production, but without a delegation. -/
def undelegatedInput : Input where
  subjectType := "user"
  userID := "user-1"
  agentID := "agent-1"
  environment := .production
  service := "identity"
  capability := .deploy
  risk := "low"
  planHash := Protocol.fixtureDigest
  contractHash := Protocol.fixtureDigest
  profileHash := Protocol.fixtureDigest
  policyHash := Protocol.fixtureDigest
  evidenceHash := Protocol.fixtureDigest
  ciSuccess := true
  dependenciesHealthy := true

/-- The release is allowed although its delegation is missing. -/
theorem undelegated_production_allowed : ∃ engine evaluation,
    newMandatoryEngine .insertion default (mandatoryFile .error) = .ok engine ∧
    engine.evaluateContext undelegatedInput = .ok evaluation ∧
    evaluation.decision = .allow ∧ undelegatedInput.table = .deny := by
  obtain ⟨engine, made, decides⟩ :=
    exists_mandatory_decision .insertion default (mandatoryFile .error)
  obtain ⟨evaluation, evaluated, decided⟩ := decides undelegatedInput
  have decisions : undelegatedInput.baselineDecision = .allow ∧
      undelegatedInput.table = .deny := by
    decide
  exact ⟨engine, evaluation, made, evaluated, decided.trans decisions.1, decisions.2⟩

end Themisy.Policy
