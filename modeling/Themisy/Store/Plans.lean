import Themisy.Collections.Registration
import Themisy.Domain.Encodings
import Themisy.Store.Memory

/-!
# Storing plans

`SavePlan` and `GetPlan` copy a plan through its JSON encoding. The copy has the fields
of the plan and maps with the same lookups. A time is encoded in RFC 3339 notation,
which fails outside the years 0 to 9999; the copy then panics.
-/

namespace Themisy

namespace Json

/-- A map field with `omitempty`. -/
def optionalMap (name : String) (table : GoMap String String) : Fields :=
  if table.entries.isEmpty then [] else field name (ofMap text table)

@[simp]
theorem lookup_optionalMap (name other : String) (table : GoMap String String) :
    lookup name (object (optionalMap other table)) =
      if other = name ∧ table.entries ≠ [] then some (ofMap text table) else none := by
  by_cases empty : table.entries = [] <;> by_cases same : other = name <;>
    simp [lookup, optionalMap, field, empty, same]

def readTime : Option Json → ℤ
  | some (.time nanoseconds _) => nanoseconds
  | _ => 0

def readMap : Option Json → GoMap String String
  | some (.object fields) =>
    fields.foldl (fun table entry => GoMap.set table entry.1 (readText (some entry.2))) ∅
  | _ => ∅

theorem get?_readMap_ofMap (table : GoMap String String) (name : String) :
    (readMap (some (ofMap text table))).get? name = table.get? name := by
  have perm := List.perm_insertionSort (fun left right : String × Json => left.1 ≤ right.1)
    (table.entries.map fun entry => (entry.1, text entry.2))
  have distinct := ((perm.map Prod.fst).nodup_iff).mpr (nodup_map_fields text table)
  apply Option.ext
  intro found
  rw [ofMap_eq, readMap, tabulates_foldl_set distinct]
  simp only [perm.mem_iff]
  constructor
  · rintro ⟨⟨key, value⟩, member, rfl, rfl⟩
    obtain ⟨stored, here, rfl⟩ := Option.map_eq_some_iff.mp (mem_map_fields.mp member)
    exact here
  · intro here
    exact ⟨(name, text found), mem_map_fields.mpr (by rw [here]; rfl), rfl, rfl⟩

theorem get?_readMap_optional (table : GoMap String String) (name : String) :
    (readMap (if table.entries ≠ [] then some (ofMap text table) else none)).get? name =
      table.get? name := by
  split
  · exact get?_readMap_ofMap table name
  · next empty =>
    have missing : table.get? name = none := by
      cases found : table.get? name with
      | none => rfl
      | some value => exact absurd (List.ne_nil_of_mem (GoMap.mem_entries_iff.mpr found)) empty
    rw [missing]
    exact GoMap.get?_empty name

end Json

namespace Domain.ReleasePlan

open Json

def toJson (plan : ReleasePlan) : Json :=
  .object (optionalText "api_version" plan.apiVersion ++
    optionalText "plan_id" plan.id ++
    field "release_version" (.text plan.releaseVersion) ++
    field "environment" (.text plan.environment.text) ++
    field "phases" (ofSlice PlanPhase.toJson plan.phases) ++
    field "hash" (.text plan.hash) ++
    optionalText "plan_hash" plan.planHash ++
    optionalMap "contract_hashes" plan.contractHashes ++
    optionalMap "profile_hashes" plan.profileHashes ++
    optionalText "context_snapshot_ref" plan.contextSnapshotRef ++
    optionalText "policy_hash" plan.policyHash ++
    optionalText "evidence_hash" plan.evidenceHash ++
    field "created_at" (.time plan.createdAt 0) ++
    field "expires_at" (.time plan.expiresAt 0))

def ofJson (value : Json) : ReleasePlan where
  apiVersion := readText (lookup "api_version" value)
  id := readText (lookup "plan_id" value)
  releaseVersion := readText (lookup "release_version" value)
  environment := .ofText (readText (lookup "environment" value))
  phases := readItems PlanPhase.ofJson (lookup "phases" value)
  hash := readText (lookup "hash" value)
  planHash := readText (lookup "plan_hash" value)
  contractHashes := readMap (lookup "contract_hashes" value)
  profileHashes := readMap (lookup "profile_hashes" value)
  contextSnapshotRef := readText (lookup "context_snapshot_ref" value)
  policyHash := readText (lookup "policy_hash" value)
  evidenceHash := readText (lookup "evidence_hash" value)
  createdAt := readTime (lookup "created_at" value)
  expiresAt := readTime (lookup "expires_at" value)

/-- Two plans which differ in the order of their maps only. -/
structure Alike (first second : ReleasePlan) : Prop where
  rest : { first with contractHashes := ∅, profileHashes := ∅ } =
    { second with contractHashes := ∅, profileHashes := ∅ }
  contractHashes : ∀ name, first.contractHashes.get? name = second.contractHashes.get? name
  profileHashes : ∀ name, first.profileHashes.get? name = second.profileHashes.get? name

theorem Alike.trans {first second third : ReleasePlan} (here : first.Alike second)
    (there : second.Alike third) : first.Alike third :=
  ⟨here.rest.trans there.rest,
    fun name => (here.contractHashes name).trans (there.contractHashes name),
    fun name => (here.profileHashes name).trans (there.profileHashes name)⟩

theorem ofJson_toJson (plan : ReleasePlan) : (ofJson plan.toJson).Alike plan := by
  constructor
  · simp [ofJson, toJson, Environment.ofText_text, readItems_ofSlice PlanPhase.ofJson_toJson,
      readTime]
  · intro name
    simpa [ofJson, toJson]
      using get?_readMap_optional plan.contractHashes name
  · intro name
    simpa [ofJson, toJson]
      using get?_readMap_optional plan.profileHashes name

/-- The first nanosecond of a day, counted from the first day of the year 1. -/
def dayStart (day : ℤ) : Time :=
  day * (24 * 3600 * 1000000000)

/-- A time in the years 0 to 9999, which the notation of RFC 3339 can write. -/
def Writable (time : Time) : Prop :=
  dayStart (-366) ≤ time ∧ time < dayStart 3652059

instance (time : Time) : Decidable (Writable time) :=
  inferInstanceAs (Decidable (_ ∧ _))

/-- The copy of a plan through its encoding, unless its times cannot be encoded. -/
def clonePlan (plan : ReleasePlan) : Option ReleasePlan :=
  if Writable plan.createdAt ∧ Writable plan.expiresAt then some (ofJson plan.toJson) else none

theorem clonePlan_alike {plan cloned : ReleasePlan} (copied : plan.clonePlan = some cloned) :
    cloned.Alike plan := by
  unfold clonePlan at copied
  split at copied
  · rw [← Option.some.inj copied]
    exact ofJson_toJson plan
  · cases copied

end Domain.ReleasePlan

namespace Store.Memory

open Domain

/-- `SavePlan` with the copy which it stores. -/
def saveClone (memory : Memory) (plan : ReleasePlan) : Option Memory :=
  plan.clonePlan.map fun cloned => { memory with plans := memory.plans.set plan.id cloned }

/-- `GetPlan` with the copy which it returns. -/
def getClone (memory : Memory) (id : String) : Except StoreError (Option ReleasePlan) :=
  (memory.getPlan id).map ReleasePlan.clonePlan

/-- A plan which was saved and read back. -/
def RoundTrip (plan stored : ReleasePlan) : Prop :=
  ∃ memory saved : Memory, memory.saveClone plan = some saved ∧
    saved.getClone plan.id = .ok (some stored)

theorem RoundTrip.alike {plan stored : ReleasePlan} (copied : RoundTrip plan stored) :
    stored.Alike plan := by
  obtain ⟨memory, saved, save, get⟩ := copied
  obtain ⟨cloned, first, rfl⟩ := Option.map_eq_some_iff.mp save
  simp only [getClone, getPlan, GoMap.get?_set_self, Except.map, Except.ok.injEq] at get
  exact (ReleasePlan.clonePlan_alike get).trans (ReleasePlan.clonePlan_alike first)

/-- Plans with times in the years 0 to 9999 are saved and read back. -/
theorem exists_roundTrip {plan : ReleasePlan} (created : ReleasePlan.Writable plan.createdAt)
    (expires : ReleasePlan.Writable plan.expiresAt) : ∃ stored, RoundTrip plan stored := by
  have first : plan.clonePlan = some (ReleasePlan.ofJson plan.toJson) :=
    if_pos ⟨created, expires⟩
  have rest := (ReleasePlan.ofJson_toJson plan).rest
  simp only [ReleasePlan.mk.injEq, true_and] at rest
  obtain ⟨stored, second⟩ : ∃ stored,
      (ReleasePlan.ofJson plan.toJson).clonePlan = some stored := by
    refine ⟨_, if_pos ?_⟩
    rw [rest.2.2.2.2.2.2.2.2.2.2.1, rest.2.2.2.2.2.2.2.2.2.2.2]
    exact ⟨created, expires⟩
  refine ⟨stored, newMemory, _, by rw [saveClone, first]; rfl, ?_⟩
  simp only [getClone, getPlan, GoMap.get?_set_self, Except.map, second]

end Store.Memory

end Themisy
