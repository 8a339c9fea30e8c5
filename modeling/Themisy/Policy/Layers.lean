import Themisy.Policy.Decisions

/-!
# The layers of a policy

The modules of a verified bundle are merged with the mandatory one. Environment, team
and service modules can add reasons to deny or to ask for approval. But they can also
define the names from which the mandatory module computes its decision: another
`allow` settles the matter, and another `valid_subject_type` takes away a reason to
deny. This file says which bundles allow an input that the baseline does not allow.
-/

namespace Themisy.Policy

open Domain Rego Rego.Query

/-- The modules below the mandatory layer, in the order in which they are loaded. -/
def lowerModules (sort : SliceSort) (bundle : Bundle) : List Module :=
  (normalizedBundle sort bundle).modules.filter fun module => module.layer ≠ .platform

/-- The rules of the layers below the mandatory one. -/
def lowerLayers (sort : SliceSort) (rego : RegoEngine) (bundle : Bundle) : Rules :=
  match rego.load ((lowerModules sort bundle).map moduleFile) with
  | .ok table => Policy.merge table.values
  | .error _ => { rules := [] }

/-- The name of a file of the mandatory layer. -/
def PlatformFile (file : String) : Prop :=
  StartsWith file "platform_mandatory/"

theorem platformFile_iff {module : Module} (valid : validModule module = true) :
    PlatformFile (moduleFile module).1 ↔ module.layer = .platform := by
  obtain ⟨name, layer, source⟩ := module
  cases layer with
  | other => cases valid
  | _ => simp [PlatformFile, StartsWith, moduleFile, Layer.text]

theorem ne_of_platformFile {file other : String} (inside : PlatformFile file)
    (below : ¬PlatformFile other) : file ≠ other := by
  rintro rfl
  exact below inside

/-- A table of modules consists of copies of the baseline and of the lower layers. -/
structure Split (table lower : GoMap String Rules) : Prop where
  below : ∀ file, ¬PlatformFile file → table.get? file = lower.get? file
  platform : ∀ file rules, PlatformFile file → table.get? file = some rules → rules = baseline
  nowhere : ∀ file, PlatformFile file → lower.get? file = none

/-- Some file of the mandatory layer is in the table. -/
def HasPlatform (table : GoMap String Rules) : Prop :=
  ∃ file, PlatformFile file ∧ table.get? file = some baseline

section Load

variable {rego : RegoEngine} {table lower : GoMap String Rules} {file : String} {rules : Rules}

theorem addModule_eq_ok {entry : String × String} {next : GoMap String Rules} :
    rego.addModule table entry = .ok next ↔
      ∃ rules, rego.parse entry.2 = .ok rules ∧ next = table.set entry.1 rules := by
  simp only [RegoEngine.addModule, bind_eq_ok]
  refine exists_congr fun rules => and_congr_right fun _ => ?_
  exact ⟨fun eq => (Except.ok.inj eq).symm, fun eq => congrArg _ eq.symm⟩

theorem Split.setPlatform (split : Split table lower) (platform : PlatformFile file) :
    Split (table.set file baseline) lower where
  below other elsewhere := by
    rw [GoMap.get?_set, if_neg (ne_of_platformFile platform elsewhere).symm,
      split.below _ elsewhere]
  platform other rules inside found := by
    rw [GoMap.get?_set] at found
    split at found
    · exact (Option.some.inj found).symm
    · exact split.platform _ _ inside found
  nowhere := split.nowhere

theorem Split.setLower (split : Split table lower) (below : ¬PlatformFile file) :
    Split (table.set file rules) (lower.set file rules) where
  below other elsewhere := by
    simp only [GoMap.get?_set, split.below _ elsewhere]
  platform other found inside eq := by
    rw [GoMap.get?_set, if_neg (ne_of_platformFile inside below)] at eq
    exact split.platform _ _ inside eq
  nowhere other inside := by
    rw [GoMap.get?_set, if_neg (ne_of_platformFile inside below), split.nowhere _ inside]

theorem HasPlatform.setLower (has : HasPlatform table) (below : ¬PlatformFile file) :
    HasPlatform (table.set file rules) := by
  obtain ⟨other, inside, found⟩ := has
  refine ⟨other, inside, ?_⟩
  rw [GoMap.get?_set, if_neg (ne_of_platformFile inside below), found]

/-- Loading all modules is loading the lower layers, and the baseline besides. -/
theorem exists_lower_of_load (mandatory : MandatoryFile rego) {modules : List Module}
    (valid : ∀ module ∈ modules, validModule module = true)
    (embedded : ∀ module ∈ modules, module.layer = .platform → module.source = mandatory.source)
    (split : Split table lower) {loaded : GoMap String Rules}
    (eq : (modules.map moduleFile).foldlM rego.addModule table = .ok loaded) :
    ∃ below, ((modules.filter fun module => module.layer ≠ .platform).map moduleFile).foldlM
        rego.addModule lower = .ok below ∧ Split loaded below ∧
      (HasPlatform table ∨ (∃ module ∈ modules, module.layer = .platform) →
        HasPlatform loaded) := by
  induction modules generalizing table lower with
  | nil =>
    cases eq
    exact ⟨lower, rfl, split, by simp⟩
  | cons module rest ih =>
    rw [List.map_cons, List.foldlM_cons, bind_eq_ok] at eq
    obtain ⟨next, added, later⟩ := eq
    obtain ⟨rules, parsed, rfl⟩ := addModule_eq_ok.mp added
    have validRest := fun other member => valid other (List.mem_cons_of_mem _ member)
    have embeddedRest := fun other member => embedded other (List.mem_cons_of_mem _ member)
    have inside := platformFile_iff (valid module List.mem_cons_self)
    by_cases platform : module.layer = .platform
    · have source := embedded module List.mem_cons_self platform
      have same : rules = baseline := by
        rw [show (moduleFile module).2 = mandatory.source from source, mandatory.parsed] at parsed
        exact (Except.ok.inj parsed).symm
      subst same
      have split' := split.setPlatform (inside.mpr platform)
      obtain ⟨below, loadedBelow, final, has⟩ := ih validRest embeddedRest split' later
      refine ⟨below, ?_, final, fun _ => has (Or.inl ?_)⟩
      · rw [List.filter_cons_of_neg (by simpa using platform)]
        exact loadedBelow
      · exact ⟨_, inside.mpr platform, GoMap.get?_set_self _ _ _⟩
    · have outside : ¬PlatformFile (moduleFile module).1 := fun bad => platform (inside.mp bad)
      obtain ⟨below, loadedBelow, final, has⟩ :=
        ih validRest embeddedRest (split.setLower outside) later
      refine ⟨below, ?_, final, ?_⟩
      · rw [List.filter_cons_of_pos (by simpa using platform), List.map_cons, List.foldlM_cons,
          addModule_eq_ok.mpr ⟨rules, parsed, rfl⟩]
        exact loadedBelow
      · rintro (before | ⟨other, member, otherPlatform⟩)
        · exact has (Or.inl (before.setLower outside))
        · rcases List.mem_cons.mp member with rfl | later
          · exact absurd otherPlatform platform
          · exact has (Or.inr ⟨other, later, otherPlatform⟩)

end Load

/-- The policy consists of the baseline and of the given lower layers. -/
structure Extends (policy lower : Rules) : Prop where
  rules : ∀ rule, rule ∈ policy.rules ↔ rule ∈ baseline.rules ∨ rule ∈ lower.rules
  defaults : ∀ entry, entry ∈ policy.defaults ↔ entry ∈ baseline.defaults ∨ entry ∈ lower.defaults

theorem Split.mem_flatMap {table lower : GoMap String Rules} {Item : Type} {item : Item}
    (split : Split table lower) (has : HasPlatform table) (part : Rules → List Item) :
    item ∈ table.values.flatMap part ↔ item ∈ part baseline ∨ item ∈ lower.values.flatMap part := by
  simp only [List.mem_flatMap, GoMap.mem_values_iff]
  constructor
  · rintro ⟨rules, ⟨file, found⟩, member⟩
    by_cases inside : PlatformFile file
    · rw [split.platform file rules inside found] at member
      exact Or.inl member
    · rw [split.below file inside] at found
      exact Or.inr ⟨rules, ⟨file, found⟩, member⟩
  · rintro (member | ⟨rules, ⟨file, found⟩, member⟩)
    · obtain ⟨file, -, found⟩ := has
      exact ⟨baseline, ⟨file, found⟩, member⟩
    · have below : ¬PlatformFile file := by
        intro inside
        rw [split.nowhere file inside] at found
        cases found
      exact ⟨rules, ⟨file, by rw [split.below file below, found]⟩, member⟩

theorem mapM_regoModule_eq_ok {modules : List Module} {options : List (String × String)}
    (loaded : modules.mapM regoModule = .ok options) : options = modules.map moduleFile := by
  induction modules generalizing options with
  | nil =>
    cases loaded
    rfl
  | cons module rest ih =>
    simp only [List.mapM_cons, bind_eq_ok] at loaded
    obtain ⟨first, named, others, later, eq⟩ := loaded
    obtain ⟨-, -, same⟩ := bind_eq_ok.mp named
    cases same
    cases eq
    rw [ih later, List.map_cons]

variable {opa : OPA} {input : Input}

theorem extends_of_newOPA {sort : SliceSort} {rego : RegoEngine} (mandatory : MandatoryFile rego)
    {bundle : Bundle} (valid : validLayers bundle.modules = true)
    (embedded : ∀ module ∈ bundle.modules, module.layer = .platform →
      module.source = mandatory.source) (made : newOPA sort rego bundle = .ok opa) :
    Extends opa.query.toPolicy (lowerLayers sort rego bundle) := by
  simp only [newOPA, bind_eq_ok, mapError_eq_ok, require_eq_ok] at made
  obtain ⟨options, named, -, platform, query, prepared, eq⟩ := made
  cases eq
  cases mapM_regoModule_eq_ok named
  obtain ⟨table, loaded, policy, -⟩ := prepareForEval_eq_ok.mp prepared
  have sorted : ∀ module,
      module ∈ (normalizedBundle sort bundle).modules ↔ module ∈ bundle.modules :=
    fun module => sort.mem_arrange
  simp only [validLayers, Bool.and_eq_true, List.all_eq_true] at valid
  have empty : Split ∅ ∅ := ⟨fun _ _ => rfl, by simp, by simp⟩
  obtain ⟨below, lower, split, has⟩ := exists_lower_of_load mandatory
    (fun module member => valid.1 module ((sorted module).mp member))
    (fun module member => embedded module ((sorted module).mp member)) empty loaded
  have layers : lowerLayers sort rego bundle = Policy.merge below.values := by
    unfold lowerLayers lowerModules RegoEngine.load
    rw [lower]
  rw [policy, layers]
  exact ⟨fun _ => split.mem_flatMap (has (Or.inr platform)) _,
    fun _ => split.mem_flatMap (has (Or.inr platform)) _⟩

section Merged

variable {program : Program Json Json} {lower : Rules} {json : Json} {name : String}
  {document : Option (Document Json)}

theorem Extends.contributes_iff {policy : Rules} (ext : Extends policy lower)
    {context : Context Json Json} {value : Json} :
    policy.Contributes context name value ↔
      baseline.Contributes context name value ∨ lower.Contributes context name value := by
  simp only [Policy.Contributes, Policy.mem_definitions, ext.rules]
  constructor
  · rintro ⟨rule, ⟨member | member, same⟩, yields⟩
    · exact Or.inl ⟨rule, ⟨member, same⟩, yields⟩
    · exact Or.inr ⟨rule, ⟨member, same⟩, yields⟩
  · rintro (⟨rule, ⟨member, same⟩, yields⟩ | ⟨rule, ⟨member, same⟩, yields⟩)
    · exact ⟨rule, ⟨Or.inl member, same⟩, yields⟩
    · exact ⟨rule, ⟨Or.inr member, same⟩, yields⟩

variable {rule : Rule} {missing denied : List Json}

section

variable (ext : Extends program.toPolicy lower)

include ext

theorem Extends.isSet (isSet : baseline.IsSet name) :
    program.IsSet name := by
  obtain ⟨rule, member, shape⟩ := isSet
  rw [Policy.mem_definitions] at member
  exact ⟨rule, Policy.mem_definitions.mpr ⟨(ext.rules rule).mpr (Or.inl member.1), member.2⟩, shape⟩

/-- A name with a value in the baseline is no set in the merged policy. -/
theorem Extends.not_isSet (member : rule ∈ baseline.definitions name)
    (shape : rule.shape = .complete) : ¬program.IsSet name := by
  rintro ⟨other, otherMember, element⟩
  rw [Policy.mem_definitions] at member otherMember
  have same := program.wellFormed.uniform rule ((ext.rules rule).mpr (Or.inl member.1)) other
    otherMember.1 (member.2.trans otherMember.2.symm)
  rw [shape, element] at same
  cases same

theorem Extends.exists_set (isSet : baseline.IsSet name)
    (read : program.documents json name = .ok document) :
    ∃ elements, document = some (.set elements) ∧ ∀ value, value ∈ elements ↔
      baseline.Contributes ⟨json, program.documents json⟩ name value ∨
        lower.Contributes ⟨json, program.documents json⟩ name value := by
  rw [Policy.documents_eq program.wellFormed] at read
  simp only [← ext.contributes_iff]
  exact Policy.exists_set_of_define (ext.isSet isSet) read

theorem Extends.exists_flag (member : rule ∈ baseline.definitions name)
    (shape : rule.shape = .complete) (unset : (name, .bool false) ∈ baseline.defaults)
    (read : program.documents json name = .ok document) :
    ∃ content, document = some (.value content) ∧ (content = .bool true ↔
      baseline.Contributes ⟨json, program.documents json⟩ name (.bool true) ∨
        lower.Contributes ⟨json, program.documents json⟩ name (.bool true)) := by
  rw [Policy.documents_eq program.wellFormed] at read
  rw [← ext.contributes_iff]
  rcases Policy.define_complete (ext.not_isSet member shape) read with
    ⟨content, rfl, contributes⟩ | ⟨rfl, silent⟩
  · exact ⟨content, rfl, by rw [contributes, eq_comm]⟩
  · have default : program.default name = some (.bool false) :=
      (Policy.default_eq_some_iff program.wellFormed).mpr ((ext.defaults _).mpr (Or.inl unset))
    exact ⟨.bool false, by rw [default, Option.map_some], by simp [silent]⟩

/-- The decision of the merged policy is computed from the merged names. -/
theorem Extends.exists_decision (read : program.documents json decisionName = .ok document) :
    ∃ allow requireApproval denied missing,
      program.documents json allowName = .ok (some (.value allow)) ∧
      program.documents json denyName = .ok (some (.set denied)) ∧
      program.documents json approvalRequiredName = .ok (some (.set missing)) ∧
      document = some (.value (decisionObject allow requireApproval denied missing)) := by
  have member : decisionRule ∈ baseline.definitions decisionName := List.mem_singleton.mpr rfl
  have merged : decisionRule ∈ program.definitions decisionName := by
    rw [Policy.mem_definitions] at member ⊢
    exact ⟨(ext.rules _).mpr (Or.inl member.1), member.2⟩
  rw [Policy.documents_eq program.wellFormed] at read
  obtain ⟨found, results⟩ := Policy.succeeds_of_define read merged
  simp only [decisionRule, Rule.complete, Rule.results, valueOf_bind, setOf_bind, pure_apply,
    Context.restrict, List.mem_cons, true_or, or_true, if_true] at results
  cases allowed : program.documents json allowName with
  | error error => simp [allowed] at results
  | ok allowDocument =>
    obtain ⟨allow, rfl, -⟩ := ext.exists_flag (List.mem_singleton.mpr rfl) rfl (by decide) allowed
    cases required : program.documents json requireApprovalName with
    | error error => simp [allowed, required] at results
    | ok requiredDocument =>
      obtain ⟨requireApproval, rfl, -⟩ :=
        ext.exists_flag (List.mem_singleton.mpr rfl) rfl (by decide) required
      cases deny : program.documents json denyName with
      | error error => simp [allowed, required, deny] at results
      | ok denyDocument =>
        obtain ⟨denied, rfl, -⟩ := ext.exists_set (by decide) deny
        cases approvals : program.documents json approvalRequiredName with
        | error error => simp [allowed, required, deny, approvals] at results
        | ok approvalDocument =>
          obtain ⟨missing, rfl, -⟩ := ext.exists_set (by decide) approvals
          refine ⟨allow, requireApproval, denied, missing, rfl, rfl, rfl, ?_⟩
          have contributes : program.Contributes ⟨json, program.documents json⟩ decisionName
              (decisionObject allow requireApproval denied missing) := by
            refine ⟨decisionRule, merged, ?_⟩
            rw [results_decisionRule deny approvals allowed required, yields_ok]
            exact List.mem_singleton.mpr rfl
          rcases Policy.define_complete (ext.not_isSet member rfl) read with
            ⟨content, rfl, contents⟩ | ⟨rfl, silent⟩
          · rw [(contents _).mp contributes]
          · exact absurd contributes (silent _)

end

variable {input : Input}

/-- What the lower layers alone say about the subject type is accepted. -/
def AcceptsSubject (lower : Rules) (context : Context Json Json) : Prop :=
  (∃ content, content ≠ .bool false ∧
    lower.Contributes context validSubjectTypeName content) ∨
  (∀ content, ¬lower.Contributes context validSubjectTypeName content) ∧
    ∃ content, content ≠ .bool false ∧ (validSubjectTypeName, content) ∈ lower.defaults

/-- For a subject which the baseline does not accept, the lower layers decide. -/
theorem Extends.refusesSubject_iff (ext : Extends program.toPolicy lower)
    (invalid : ¬(input.subjectType = "user" ∨ input.subjectType = "ci"))
    (read : program.documents input.toJson validSubjectTypeName = .ok document) :
    RefusesSubject (program.documents input.toJson) ↔
      ¬AcceptsSubject lower (program.contextOf input.toJson) := by
  have contributes : ∀ content, program.Contributes
      (program.contextOf input.toJson) validSubjectTypeName content ↔
      lower.Contributes (program.contextOf input.toJson) validSubjectTypeName
        content := by
    intro content
    rw [ext.contributes_iff, contributes_validSubjectType_iff]
    simp [invalid]
  have refuses : RefusesSubject (program.documents input.toJson) ↔ ¬Satisfied document := by
    simp [RefusesSubject, read]
  rw [refuses, not_iff_not]
  have member : validSubjectTypeUser ∈ baseline.definitions validSubjectTypeName :=
    List.mem_cons_self
  rw [Policy.documents_eq program.wellFormed] at read
  rcases Policy.define_complete (ext.not_isSet member rfl) read with
    ⟨content, rfl, contents⟩ | ⟨rfl, silent⟩
  · simp only [contributes] at contents
    simp [AcceptsSubject, Satisfied, contents]
  · simp only [contributes] at silent
    have entries : ∀ content, program.default validSubjectTypeName = some content ↔
        (validSubjectTypeName, content) ∈ lower.defaults := by
      intro content
      rw [Policy.default_eq_some_iff program.wellFormed, ext.defaults]
      simp [baseline, validSubjectTypeName, allowName, requireApprovalName]
    simp only [AcceptsSubject, silent, and_false, exists_false, false_or, not_false_eq_true,
      implies_true, true_and, ← entries]
    cases program.default validSubjectTypeName <;> simp [Satisfied]

/-- The subject type has been read when the set of denials of a release to production is known. -/
theorem Extends.exists_subject (ext : Extends program.toPolicy lower)
    (production : input.environment = .production)
    (deny : program.documents input.toJson denyName = .ok document) :
    ∃ subject, program.documents input.toJson validSubjectTypeName = .ok subject := by
  have member : invalidSubjectType ∈ program.definitions denyName := by
    rw [Policy.mem_definitions, ext.rules]
    exact ⟨Or.inl (by simp [baseline]), rfl⟩
  rw [Policy.documents_eq program.wellFormed] at deny
  obtain ⟨found, results⟩ := Policy.succeeds_of_define deny member
  rw [results_invalidSubjectType, if_pos production] at results
  cases read : program.documents input.toJson validSubjectTypeName with
  | error error =>
    rw [read] at results
    cases results
  | ok subject => exact ⟨subject, rfl⟩

/-- How the lower layers get an input through which the baseline does not allow. -/
def Overrides (lower : Rules) (context : Context Json Json) (input : Input) : Prop :=
  ¬(input.Sound ∧ input.Approved) ∧
    (lower.Contributes context allowName (.bool true) ∨
      input.Grounded ∧ input.Approved ∧ AcceptsSubject lower context ∧
        (∀ value, ¬lower.Contributes context denyName value) ∧
        ∀ value, ¬lower.Contributes context approvalRequiredName value)

section

variable (ext : Extends program.toPolicy lower)

include ext

theorem Extends.denied_eq_nil_iff
    (deny : program.documents input.toJson denyName = .ok (some (.set denied))) :
    denied = [] ↔ (input.Grounded ∧ (input.environment = .production →
        ¬RefusesSubject (program.documents input.toJson))) ∧
      ∀ value, ¬lower.Contributes (program.contextOf input.toJson) denyName
        value := by
  obtain ⟨elements, same, denials⟩ := ext.exists_set (by decide) deny
  cases same
  rw [← forall_not_contributes_deny_iff, ← forall_and, List.eq_nil_iff_forall_not_mem]
  simp only [denials, not_or]

theorem Extends.missing_eq_nil_iff
    (approvals : program.documents input.toJson approvalRequiredName = .ok (some (.set missing))) :
    missing = [] ↔ input.Approved ∧ ∀ value, ¬lower.Contributes
      (program.contextOf input.toJson) approvalRequiredName value := by
  obtain ⟨elements, same, absences⟩ := ext.exists_set (by decide) approvals
  cases same
  simp only [List.eq_nil_iff_forall_not_mem, absences, contributes_approvalRequired_iff, not_or,
    forall_and, not_and]
  exact and_congr_left fun _ => ⟨fun all => by_contra fun other => all _ other rfl,
    fun approved _ other => absurd approved other⟩

/-- Only the subject type can be missing, and then the lower layers speak for it. -/
theorem Extends.refusesSubject_iff_of_refused
    (deny : program.documents input.toJson denyName = .ok document)
    (refused : ¬(input.Sound ∧ input.Approved)) (grounded : input.Grounded)
    (approved : input.Approved) :
    (input.environment = .production → ¬RefusesSubject (program.documents input.toJson)) ↔
      AcceptsSubject lower (program.contextOf input.toJson) := by
  have invalid : input.environment = .production ∧
      ¬(input.subjectType = "user" ∨ input.subjectType = "ci") := by
    by_contra valid
    exact refused ⟨⟨grounded, fun production => by_contra fun other => valid ⟨production, other⟩⟩,
      approved⟩
  obtain ⟨subject, read⟩ := ext.exists_subject invalid.1 deny
  rw [ext.refusesSubject_iff invalid.2 read, not_not]
  exact ⟨fun accepted => accepted invalid.1, fun accepted _ => accepted⟩

theorem Extends.allow_iff {allow : Json}
    (allowed : program.documents input.toJson allowName = .ok (some (.value allow)))
    (deny : program.documents input.toJson denyName = .ok (some (.set denied)))
    (approvals : program.documents input.toJson approvalRequiredName = .ok (some (.set missing))) :
    ¬(input.Sound ∧ input.Approved) ∧ allow = .bool true ↔
      Overrides lower (program.contextOf input.toJson) input := by
  refine and_congr_right fun refused => ?_
  have definitions : baseline.definitions allowName = [allowRule] := rfl
  have member : allowRule ∈ baseline.definitions allowName := by simp [definitions]
  obtain ⟨content, same, flag⟩ := ext.exists_flag member rfl (by decide) allowed
  cases same
  have fires : baseline.Contributes (program.contextOf input.toJson) allowName
      (.bool true) ↔ denied = [] ∧ missing = [] := by
    simp only [Policy.Contributes, definitions, List.mem_singleton, exists_eq_left,
      results_allowRule deny approvals, yields_ite, and_true]
  rw [flag, fires, ext.denied_eq_nil_iff deny, ext.missing_eq_nil_iff approvals, or_comm]
  refine or_congr_right ⟨?_, ?_⟩
  · rintro ⟨⟨⟨grounded, accepted⟩, undenied⟩, approved, granted⟩
    exact ⟨grounded, approved, (ext.refusesSubject_iff_of_refused deny refused grounded
      approved).mp accepted, undenied, granted⟩
  · rintro ⟨grounded, approved, accepted, undenied, granted⟩
    exact ⟨⟨⟨grounded, (ext.refusesSubject_iff_of_refused deny refused grounded approved).mpr
      accepted⟩, undenied⟩, approved, granted⟩

end

end Merged

theorem evaluate_eq_ok {digest : Digest} {evaluation : Evaluation}
    (evaluated : opa.evaluate digest input = .ok evaluation) :
    ∃ fields allowed, opa.query.documents (normalizeInput input).toJson decisionName =
        .ok (some (.value (.object fields))) ∧
      Json.lookup "allow" (.object fields) = some (.bool allowed) ∧
      (evaluation.decision = .allow ↔ allowed = true) := by
  simp only [OPA.evaluate, bind_eq_ok] at evaluated
  obtain ⟨object, result, allowed, flag, reasons, -, roles, -, eq⟩ := evaluated
  cases eq
  have found : ∃ fields, object = .object fields ∧
      opa.query.documents (normalizeInput input).toJson decisionName =
        .ok (some (.value (.object fields))) := by
    unfold queryResult at result
    split at result <;> cases result
    next fields read => exact ⟨fields, rfl, read⟩
  obtain ⟨fields, rfl, read⟩ := found
  refine ⟨fields, allowed, read, ?_, ?_⟩
  · unfold allowedBy asBool at flag
    split at flag
    · next value given =>
      cases flag
      split at given <;> cases given
      assumption
    · cases flag
  · simp only [decisionOf]
    cases allowed
    · simp only [Bool.false_eq_true, if_false, iff_false]
      split <;> simp
    · simp

/-- The documents of the merged policy, as they are evaluated for an input. -/
def OPA.context (opa : OPA) (input : Input) : Context Json Json :=
  ⟨(normalizeInput input).toJson, opa.query.documents (normalizeInput input).toJson⟩

theorem overrides_normalizeInput {lower : Rules} {context : Context Json Json} :
    Overrides lower context (normalizeInput input) ↔ Overrides lower context input := by
  simp only [Overrides, sound_normalizeInput, approved_normalizeInput, grounded_normalizeInput]

theorem baselineDecision_eq_allow :
    input.baselineDecision = .allow ↔ input.Sound ∧ input.Approved := by
  unfold Input.baselineDecision
  by_cases sound : input.Sound <;> by_cases approved : input.Approved <;> simp [sound, approved]

/--
A verified bundle with the embedded mandatory module allows no input which the
mandatory module alone does not allow, except when its lower layers define `allow`
for the input, or accept a subject type which is the only obstacle.
-/
theorem layers_monotone_iff {sort : SliceSort} {rego : RegoEngine}
    {scheme : Grant.SignatureScheme} {digest : Digest} (mandatory : MandatoryFile rego)
    {bundle : Bundle} {issuer : String} {keys : Option (BundleKeyResolver scheme)} {now : Time}
    {opa : OPA}
    (verified : verifyBundle sort digest bundle issuer keys now = .ok ())
    (made : newOPA sort rego bundle = .ok opa)
    (embedded : ∀ module ∈ bundle.modules, module.layer = .platform →
      module.source = mandatory.source)
    {input : Input} {evaluation : Evaluation}
    (evaluated : opa.evaluate digest input = .ok evaluation) :
    ∃ engine alone, newMandatoryEngine sort digest mandatory = .ok engine ∧
      engine.evaluateContext input = .ok alone ∧
      ((alone.decision ≠ .allow → evaluation.decision ≠ .allow) ↔
        ¬Overrides (lowerLayers sort rego bundle) (opa.context input) input) := by
  obtain ⟨engine, mandated, decides⟩ := exists_mandatory_decision sort digest mandatory
  obtain ⟨alone, aloneEvaluated, decided⟩ := decides input
  refine ⟨engine, alone, mandated, aloneEvaluated, ?_⟩
  have valid : validLayers bundle.modules = true := by
    unfold verifyBundle at verified
    cases keys with
    | none => simp [bind_eq_ok] at verified
    | some resolvePolicyKey =>
      simp only [bind_eq_ok, require_eq_ok] at verified
      obtain ⟨-, -, -, ⟨-, -, -, valid⟩, -⟩ := verified
      exact valid
  have ext := extends_of_newOPA mandatory valid embedded made
  obtain ⟨fields, flag, read, allowed, decision⟩ := evaluate_eq_ok evaluated
  obtain ⟨allow, requireApproval, denied, missing, allowDocument, deny, approvals, same⟩ :=
    ext.exists_decision read
  have object : Json.object fields = decisionObject allow requireApproval denied missing := by
    simpa using same
  have content : allow = .bool flag := by
    rw [object] at allowed
    exact Option.some.inj allowed
  subst content
  have overrides := ext.allow_iff allowDocument deny approvals
  rw [overrides_normalizeInput, sound_normalizeInput, approved_normalizeInput] at overrides
  rw [decided, ne_eq, ne_eq, decision, OPA.context, ← overrides, baselineDecision_eq_allow]
  simp

def lenientScheme : Grant.SignatureScheme where
  PublicKey := Unit
  decode _ := some []
  verify _ _ _ := true

def lenientKeys : Option (BundleKeyResolver lenientScheme) :=
  some fun _ _ => .ok ()

def teamBundle (source : String) : Bundle where
  version := "bundle-1"
  issuer := "customer-policy"
  compatibility := [inputVersionV1Alpha1]
  issuedAt := { instant := 1 }
  expiresAt := { instant := 3 }
  modules := [
    { name := "main.rego", layer := .platform, source := "package themisy.authorization" },
    { name := "team.rego", layer := .team, source }]
  hash := (default : Digest).hashValue .null
  signature := { algorithm := Grant.algorithmEd25519 }

/-- Two modules of a team: another definition of `allow`, and a denial. -/
def teamTexts (source : String) : Except String Rules :=
  if source = "allow if true" then .ok { rules := [.complete allowName [] (pure (.bool true))] }
  else .ok { rules := [.contains denyName [] (pure (.text "TEAM_FREEZE"))] }

def teamRego : RegoEngine :=
  regoReading teamTexts

def anonymousInput : Input where
  userID := ""
  agentID := "agent-1"
  environment := .staging
  service := "identity"
  capability := .deploy
  risk := "low"
  ciSuccess := true
  dependenciesHealthy := true

/-- A definition of `allow` in a team module overrides a denial of the mandatory module. -/
theorem team_overrides_mandatory_denial : ∃ engine alone opa evaluation,
    verifyBundle .insertion default (teamBundle "allow if true") "customer-policy" lenientKeys 2 =
      .ok () ∧
    newOPA .insertion teamRego (teamBundle "allow if true") = .ok opa ∧
    newMandatoryEngine .insertion default (mandatoryFile teamTexts) = .ok engine ∧
    engine.evaluateContext anonymousInput = .ok alone ∧ alone.decision = .deny ∧
    opa.evaluate default anonymousInput = .ok evaluation ∧ evaluation.decision = .allow := by
  obtain ⟨engine, made, decides⟩ :=
    exists_mandatory_decision .insertion default (mandatoryFile teamTexts)
  obtain ⟨alone, aloneEvaluated, decided⟩ := decides anonymousInput
  have denied : anonymousInput.baselineDecision = .deny := by decide
  have evaluated : (do
      let opa ← newOPA .insertion teamRego (teamBundle "allow if true")
      let evaluation ← opa.evaluate default anonymousInput
      return evaluation.decision) = .ok .allow := by
    decide +kernel
  simp only [bind_eq_ok] at evaluated
  obtain ⟨opa, compiled, evaluation, evaluated, decision⟩ := evaluated
  exact ⟨engine, alone, opa, evaluation, by decide +kernel, compiled, made, aloneEvaluated,
    decided.trans denied, evaluated, Except.ok.inj decision⟩

/-- A team module which adds a denial overrides nothing. -/
theorem layers_monotone_team_freeze : ∃ opa evaluation engine alone,
    newOPA .insertion teamRego (teamBundle "deny all") = .ok opa ∧
    opa.evaluate default anonymousInput = .ok evaluation ∧
    newMandatoryEngine .insertion default (mandatoryFile teamTexts) = .ok engine ∧
    engine.evaluateContext anonymousInput = .ok alone ∧
    ((alone.decision ≠ .allow → evaluation.decision ≠ .allow) ↔
      ¬Overrides (lowerLayers .insertion teamRego (teamBundle "deny all"))
        (opa.context anonymousInput) anonymousInput) := by
  have evaluated : (do
      let opa ← newOPA .insertion teamRego (teamBundle "deny all")
      let evaluation ← opa.evaluate default anonymousInput
      return evaluation.decision) = .ok .deny := by
    decide +kernel
  simp only [bind_eq_ok] at evaluated
  obtain ⟨opa, compiled, evaluation, evaluated, -⟩ := evaluated
  have verified : verifyBundle .insertion default (teamBundle "deny all") "customer-policy"
      lenientKeys 2 = .ok () := by
    decide +kernel
  have embedded : ∀ module ∈ (teamBundle "deny all").modules, module.layer = .platform →
      module.source = "package themisy.authorization" := by
    decide
  obtain ⟨engine, alone, made, aloneEvaluated, iff⟩ :=
    layers_monotone_iff (mandatoryFile teamTexts) verified compiled embedded evaluated
  exact ⟨opa, evaluation, engine, alone, compiled, evaluated, made, aloneEvaluated, iff⟩

end Themisy.Policy
