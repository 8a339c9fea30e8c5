import Mathlib.Algebra.BigOperators.Group.List.Basic
import Mathlib.Order.Bounds.Basic
import Themisy.Collections.Rearrangement
import Themisy.Collections.SliceSort
import Themisy.Runner.Runner
import Themisy.Workflow.Verification

/-!
# The verdicts of the Datadog adapter

This file embeds `adapters/datadog`: `Verify` with the points which it takes from a
response. The values are rationals, the configuration is one which `New` accepts, and
the request for the query is left out: a response is an argument.

The points are sorted by their times only. So a verdict does not depend on the order of
a response, unless the last value decides and the latest points differ in their values.
-/

namespace Themisy.Datadog

open Domain Workflow

inductive Comparator where
  | lte
  | gte

inductive Aggregation where
  | last
  | avg
  | max
  deriving DecidableEq

/-- A metric query, with its threshold. -/
structure Query where
  expression : String := ""
  comparator : Comparator := .lte
  threshold : Float64 := .finite 0
  aggregation : Aggregation := .last
  minimumPoints : ℤ := 0
  maximumAge : ℤ := 0

/-- The configuration; `hashText` is the digest of a text, as `sha256:` and 64 digits. -/
structure Adapter where
  queries : GoMap (String × String) Query
  digest : Digest
  hashText : String → String

structure VerificationRequest where
  service : String
  environment : String
  externalExecutionID : String
  windowFrom : Time
  windowTo : Time

abbrev RawPoint := List (Option Float64)

/-- What the client returns; the body is missing when it cannot be decoded. -/
inductive Response where
  | failed
  | answered (statusCode : ℤ) (body : Option (String × List (List RawPoint)))

structure Point where
  time : Time
  value : ℚ
  deriving DecidableEq

/-- The conversion `int64(value)`; values out of range become the least integer. -/
def toInt64 (value : ℚ) : ℤ :=
  let whole := if 0 ≤ value then ⌊value⌋ else ⌈value⌉
  if -2 ^ 63 ≤ whole ∧ whole < 2 ^ 63 then whole else -2 ^ 63

def unixMilli (milliseconds : ℤ) : Time :=
  62135596800 * 10 ^ 9 + milliseconds * 10 ^ 6

def toPoint : RawPoint → Option Point
  | [some (.finite milliseconds), some (.finite value)] =>
    some ⟨unixMilli (toInt64 milliseconds), value⟩
  | _ => none

/-- The points of a response which are kept, in its order. -/
def keptPoints (series : List (List RawPoint)) : List Point :=
  series.flatten.filterMap toPoint

def flattenPoints (sort : SliceSort) (series : List (List RawPoint)) : List Point :=
  sort.arrange (fun left right => left.time < right.time) (keptPoints series)

def aggregate (points : List Point) (mode : Aggregation) : ℚ :=
  match points, mode with
  | [], _ => 0
  | first :: rest, .last => (rest.getLastD first).value
  | points, .avg => points.foldl (fun value point => value + point.value) 0 / points.length
  | first :: rest, .max =>
    (first :: rest).foldl (fun value point => if value < point.value then point.value else value)
      first.value

def compare (value : ℚ) (query : Query) : VerificationStatus :=
  let met := match query.comparator with
    | .lte => Float64.le (.finite value) query.threshold
    | .gte => Float64.le query.threshold (.finite value)
  if met then .pass else .fail

/-- The method `Time.Sub`, whose result is limited to the range of a duration. -/
def sub (left right : Time) : ℤ :=
  Max.max (-2 ^ 63) (Min.min (2 ^ 63 - 1) (left - right))

section Verify

variable (sort : SliceSort) (adapter : Adapter) (request : VerificationRequest)

def evidence (status : VerificationStatus) (reasonCode : String) (query : Query) (value : ℚ)
    (observedAt : Time) : AdapterEvidence :=
  let unsealed : Evidence :=
    { source := "datadog"
      queryHash := adapter.hashText query.expression
      windowFrom := request.windowFrom
      windowTo := request.windowTo
      observedAt
      observedValue := .finite value
      threshold := query.threshold
      adapterVersion := "datadog-metrics-v1/v1"
      evidenceHash := "" }
  let hash := AdapterEvidence.hash adapter.digest ⟨status, reasonCode, unsealed⟩
  let evidenceHash := hash.toOption.getD ""
  ⟨status, reasonCode, { unsealed with evidenceHash }⟩

/-- The verdict on the sorted points of a response. -/
def judge (query : Query) (points : List Point) (now : Time) : AdapterEvidence :=
  let value := aggregate points query.aggregation
  match points.getLast? with
  | none => evidence adapter request .missing "NO_SERIES" query 0 now
  | some latest =>
    if points.length < query.minimumPoints then
      evidence adapter request .inconclusive "INSUFFICIENT_POINTS" query value now
    else if query.maximumAge < sub request.windowTo latest.time ∨ latest.time < request.windowFrom ∨
        request.windowTo + 60 * 10 ^ 9 < latest.time then
      evidence adapter request .inconclusive "STALE_SERIES" query value latest.time
    else
      let status := compare value query
      evidence adapter request status
        (if status = .fail then "THRESHOLD_BREACHED" else "THRESHOLD_MET") query value latest.time

/-- The deployment and the window of a request are usable. -/
def VerificationRequest.Valid (request : VerificationRequest) : Prop :=
  request.windowFrom ≠ 0 ∧ request.windowTo ≠ 0 ∧ request.windowFrom < request.windowTo ∧
    request.externalExecutionID ≠ ""

instance : Decidable request.Valid :=
  inferInstanceAs (Decidable (_ ∧ _))

/-- The credential has not expired and holds both keys. -/
def Usable (credential : Runner.Credential) (checkedAt : Time) : Prop :=
  credential.values.values ≠ [] ∧ credential.expiresAt ≠ 0 ∧ checkedAt < credential.expiresAt ∧
    credential.values.find "api_key" [] ≠ [] ∧ credential.values.find "app_key" [] ≠ []

instance (credential : Runner.Credential) (checkedAt : Time) :
    Decidable (Usable credential checkedAt) :=
  inferInstanceAs (Decidable (_ ∧ _))

/-- The method `Verify`, with the two readings of the clock and the response to the query. -/
def verify (credential : Runner.Credential) (checkedAt now : Time) (response : Response) :
    Except ClassifiedError AdapterEvidence :=
  match adapter.queries.get? (request.service, request.environment) with
  | none => .ok (evidence adapter request .missing "QUERY_NOT_CONFIGURED" {} 0 now)
  | some query => do
      require request.Valid
        ⟨.terminal, "verify.validate", .plain "valid window and deployment are required"⟩
      require (Usable credential checkedAt)
        ⟨.terminal, "verify.credential",
          .plain "valid Datadog API and application keys are required"⟩
      let inconclusive (reasonCode : String) : AdapterEvidence :=
        evidence adapter request .inconclusive reasonCode query 0 now
      match response with
      | .failed => return inconclusive "SOURCE_UNAVAILABLE"
      | .answered statusCode body =>
        if statusCode ≠ 200 then
          if statusCode = 429 ∨ 500 ≤ statusCode then return inconclusive "SOURCE_UNAVAILABLE"
          else
            .error ⟨.terminal, "verify.query",
              .plain ("Datadog returned HTTP " ++ toString statusCode)⟩
        else
          match body with
          | none => return inconclusive "MALFORMED_RESPONSE"
          | some (status, series) =>
            if status ≠ "ok" then return inconclusive "MALFORMED_RESPONSE"
            else return judge adapter request query (flattenPoints sort series) now

end Verify

/-- All latest points have the same value. -/
def Settled (points : List Point) : Prop :=
  ∀ one ∈ points, ∀ another ∈ points, one.time = another.time →
    (∀ other ∈ points, other.time ≤ one.time) → one.value = another.value

section Order

variable {sort : SliceSort} {first second points : List Point}

theorem keptPoints_perm {first second : List (List RawPoint)}
    (rearranged : Rearranged List.Perm first second) :
    (keptPoints first).Perm (keptPoints second) := by
  obtain ⟨middle, outer, inner⟩ := rearranged
  exact (outer.flatten.trans (List.Perm.flatten_congr inner)).filterMap toPoint

theorem foldl_isGreatest (start : ℚ) (points : List Point) :
    IsGreatest {value | value = start ∨ ∃ point ∈ points, point.value = value}
      (points.foldl (fun value point => if value < point.value then point.value else value)
        start) := by
  induction points generalizing start with
  | nil => simp [IsGreatest, upperBounds]
  | cons point rest ih =>
    obtain ⟨member, bound⟩ := ih (if start < point.value then point.value else start)
    have least := bound (Or.inl rfl)
    constructor
    · rcases member with here | ⟨other, listed, here⟩
      · rw [List.foldl_cons, here]
        split
        · exact Or.inr ⟨point, List.mem_cons_self, rfl⟩
        · exact Or.inl rfl
      · exact Or.inr ⟨other, List.mem_cons_of_mem _ listed, here⟩
    · rintro value (rfl | ⟨other, listed, rfl⟩)
      · refine le_trans ?_ least
        split
        · exact le_of_lt ‹_›
        · exact le_rfl
      · rcases List.mem_cons.mp listed with rfl | later
        · refine le_trans ?_ least
          split
          · exact le_rfl
          · exact not_lt.mp ‹_›
        · exact bound (Or.inr ⟨other, later, rfl⟩)

theorem aggregate_max_isGreatest {point : Point} {rest : List Point} :
    IsGreatest {value | ∃ other ∈ point :: rest, other.value = value}
      (aggregate (point :: rest) .max) := by
  obtain ⟨member, bound⟩ := foldl_isGreatest point.value (point :: rest)
  refine ⟨?_, fun value listed => bound (Or.inr listed)⟩
  rcases member with here | listed
  · exact ⟨point, List.mem_cons_self, here.symm⟩
  · exact listed

theorem aggregate_avg (points : List Point) :
    aggregate points .avg = (points.map Point.value).sum / points.length := by
  cases points with
  | nil => simp [aggregate]
  | cons point rest =>
    rw [List.sum_eq_foldl, List.foldl_map]
    rfl

theorem aggregate_last {latest : Point} (last : points.getLast? = some latest) :
    aggregate points .last = latest.value := by
  cases points with
  | nil => cases last
  | cons point rest =>
    rw [List.getLast?_cons, Option.some.injEq] at last
    rw [aggregate, List.getLastD_eq_getLast?, last]

theorem aggregate_perm {mode : Aggregation} (perm : first.Perm second) (other : mode ≠ .last) :
    aggregate first mode = aggregate second mode := by
  cases mode with
  | last => exact absurd rfl other
  | avg => rw [aggregate_avg, aggregate_avg, (perm.map Point.value).sum_eq, perm.length_eq]
  | max =>
    cases first with
    | nil => rw [List.nil_perm.mp perm]
    | cons one rest =>
      cases second with
      | nil => exact absurd perm.symm (by simp)
      | cons another others =>
        refine aggregate_max_isGreatest.unique ?_
        simpa only [perm.mem_iff] using aggregate_max_isGreatest

/-- Sorted points are judged by their values, as far as the latest ones agree. -/
theorem judge_eq (adapter : Adapter) (request : VerificationRequest) {query : Query} {now : Time}
    (perm : first.Perm second)
    (firstSorted : first.Pairwise fun left right => left.time ≤ right.time)
    (secondSorted : second.Pairwise fun left right => left.time ≤ right.time)
    (settled : query.aggregation = .last → Settled first) :
    judge adapter request query first now = judge adapter request query second now := by
  have ordered : ∀ {points : List Point},
      (points.Pairwise fun left right => left.time ≤ right.time) →
        (points.map Point.time).Pairwise (· ≤ ·) := List.pairwise_map.mpr
  have times : first.map Point.time = second.map Point.time :=
    List.Perm.eq_of_pairwise (fun _ _ _ _ => le_antisymm) (ordered firstSorted)
      (ordered secondSorted) (perm.map _)
  have lasts : first.getLast?.map Point.time = second.getLast?.map Point.time := by
    rw [← List.getLast?_map, ← List.getLast?_map, times]
  unfold judge
  cases ended : first.getLast? with
  | none =>
    rw [List.getLast?_eq_none_iff.mp ended] at perm
    rw [List.nil_perm.mp perm]
    rfl
  | some latest =>
    cases endedAgain : second.getLast? with
    | none => simp [ended, endedAgain] at lasts
    | some latestAgain =>
      have same : latest.time = latestAgain.time := by
        simpa [ended, endedAgain] using lasts
      have value : aggregate first query.aggregation = aggregate second query.aggregation := by
        by_cases mode : query.aggregation = .last
        · rw [mode, aggregate_last ended, aggregate_last endedAgain]
          refine settled mode latest (List.mem_of_getLast? ended) latestAgain
            (perm.mem_iff.mpr (List.mem_of_getLast? endedAgain)) same fun other member => ?_
          obtain ⟨earlier, rfl⟩ := List.getLast?_eq_some_iff.mp ended
          rcases List.mem_append.mp member with before | last
          · exact (List.pairwise_append.mp firstSorted).2.2 other before latest (by simp)
          · rw [List.mem_singleton.mp last]
        · exact aggregate_perm perm mode
      simp only [value, same, perm.length_eq]

theorem observedValue_judge (adapter : Adapter) (request : VerificationRequest) {query : Query}
    {now : Time} {latest : Point} (last : points.getLast? = some latest)
    (mode : query.aggregation = .last) :
    (judge adapter request query points now).evidence.observedValue = .finite latest.value := by
  simp only [judge, last, mode, aggregate_last last]
  split
  · rfl
  · split
    · rfl
    · rfl

/-- A response can be rearranged such that a given point comes last. -/
theorem exists_rearranged_concat {series : List (List RawPoint)} {point : Point}
    (kept : point ∈ keptPoints series) :
    ∃ other points, Rearranged List.Perm series other ∧ keptPoints other = points ++ [point] := by
  have moved : ∀ {Item : Type} (before after : List Item) (item : Item),
      (before ++ item :: after).Perm (before ++ after ++ [item]) :=
    fun _ _ _ => List.perm_middle.trans (List.perm_append_singleton _ _).symm
  obtain ⟨raw, listed, isPoint⟩ := List.mem_filterMap.mp kept
  obtain ⟨points, member, inside⟩ := List.mem_flatten.mp listed
  obtain ⟨before, after, rfl⟩ := List.append_of_mem member
  obtain ⟨earlier, later, rfl⟩ := List.append_of_mem inside
  refine ⟨before ++ after ++ [earlier ++ later ++ [raw]],
    keptPoints (before ++ after ++ [earlier ++ later]), ⟨_, moved _ _ _, ?_⟩, ?_⟩
  · refine List.rel_append (List.forall₂_same.mpr fun _ _ => .refl _) ?_
    exact .cons (moved _ _ _) .nil
  · simp [keptPoints, isPoint]

end Order

/-- What is reported of a verification: status, reason code and observed value. -/
def verdict (verified : Except ClassifiedError AdapterEvidence) :
    Except ClassifiedError (VerificationStatus × String × Float64) :=
  verified.map fun found => (found.status, found.reasonCode, found.evidence.observedValue)

/-- The points of a response are judged by a query. -/
structure Judged (adapter : Adapter) (request : VerificationRequest)
    (credential : Runner.Credential) (checkedAt : Time) (statusCode : ℤ) (status : String)
    (query : Query) : Prop where
  configured : adapter.queries.get? (request.service, request.environment) = some query
  valid : request.Valid
  usable : Usable credential checkedAt
  answered : statusCode = 200
  ok : status = "ok"

section Verdicts

variable {adapter : Adapter} {request : VerificationRequest} {credential : Runner.Credential}
  {checkedAt now : Time} {statusCode : ℤ} {status : String} {query : Query}

theorem Judged.verify_eq (judged : Judged adapter request credential checkedAt statusCode status
    query) (sort : SliceSort) (series : List (List RawPoint)) :
    verify sort adapter request credential checkedAt now
        (.answered statusCode (some (status, series))) =
      .ok (judge adapter request query (flattenPoints sort series) now) := by
  obtain ⟨configured, valid, usable, rfl, rfl⟩ := judged
  simp only [verify, configured, require, if_pos valid, if_pos usable]
  rfl

/-- A response which is not judged by its points is treated like an empty one. -/
theorem verify_of_not_judged (unjudged : ∀ query,
      ¬Judged adapter request credential checkedAt statusCode status query)
    (sort : SliceSort) (series : List (List RawPoint)) :
    verify sort adapter request credential checkedAt now
        (.answered statusCode (some (status, series))) =
      verify sort adapter request credential checkedAt now
        (.answered statusCode (some (status, []))) := by
  unfold verify
  cases configured : adapter.queries.get? (request.service, request.environment) with
  | none => rfl
  | some query =>
    dsimp only [require]
    by_cases valid : request.Valid
    · by_cases usable : Usable credential checkedAt
      · by_cases answered : statusCode = 200
        · have malformed : status ≠ "ok" := fun ok =>
            unjudged query ⟨configured, valid, usable, answered, ok⟩
          simp only [if_pos malformed]
        · simp only [if_pos answered]
      · simp only [if_neg usable]
        rfl
    · simp only [if_neg valid]
      rfl

/-- A stable sort observes each of the latest points in some arrangement of the response. -/
theorem Judged.exists_observed (now : Time)
    (judged : Judged adapter request credential checkedAt statusCode status query)
    (mode : query.aggregation = .last) {series : List (List RawPoint)} {point : Point}
    (kept : point ∈ keptPoints series)
    (latest : ∀ other ∈ keptPoints series, other.time ≤ point.time) :
    ∃ other found, Rearranged List.Perm series other ∧
      verify .insertion adapter request credential checkedAt now
        (.answered statusCode (some (status, other))) = .ok found ∧
      found.evidence.observedValue = .finite point.value := by
  obtain ⟨other, points, rearranged, ended⟩ := exists_rearranged_concat kept
  refine ⟨other, _, rearranged, judged.verify_eq _ _, observedValue_judge _ _ ?_ mode⟩
  have others : ∀ item ∈ points, decide (point.time < item.time) = false := by
    intro item member
    have listed : item ∈ keptPoints series := by
      rw [(keptPoints_perm rearranged).mem_iff, ended]
      exact List.mem_append_left _ member
    exact decide_eq_false (not_lt.mpr (latest item listed))
  rw [flattenPoints, ended, SliceSort.insertion_concat others, List.getLast?_concat]

end Verdicts

/--
No verdict depends on the order of the series and of their points, whichever way
`sort.Slice` treats points of the same time, exactly when all latest points have one
value, as far as the points are judged at all and by their last value.
-/
theorem verify_independent_of_order_iff (adapter : Adapter) (request : VerificationRequest)
    (credential : Runner.Credential) (checkedAt now : Time) (statusCode : ℤ) (status : String)
    (first : List (List RawPoint)) :
    (∀ (sort : SliceSort) (second : List (List RawPoint)), Rearranged List.Perm first second →
      verdict (verify sort adapter request credential checkedAt now
          (.answered statusCode (some (status, first)))) =
        verdict (verify sort adapter request credential checkedAt now
          (.answered statusCode (some (status, second))))) ↔
      ∀ query, Judged adapter request credential checkedAt statusCode status query →
        query.aggregation = .last → Settled (keptPoints first) := by
  constructor
  case mp =>
    intro same query judged mode one oneMem another anotherMem alike latest
    obtain ⟨_, found, rearranged, verified, observed⟩ :=
      judged.exists_observed now mode oneMem latest
    obtain ⟨_, foundAgain, rearrangedAgain, verifiedAgain, observedAgain⟩ :=
      judged.exists_observed now mode anotherMem (by rwa [← alike])
    have equal := (same .insertion _ rearranged).symm.trans (same .insertion _ rearrangedAgain)
    simp only [verified, verifiedAgain, verdict, Except.map, observed, observedAgain,
      Except.ok.injEq, Prod.mk.injEq, Float64.finite.injEq] at equal
    exact equal.2.2
  case mpr =>
    intro settled sort second rearranged
    by_cases reached : ∃ query, Judged adapter request credential checkedAt statusCode status query
    · obtain ⟨query, judged⟩ := reached
      have compares : ∀ left right : Point,
          decide (left.time < right.time) = true ↔ left.time < right.time := by simp
      rw [judged.verify_eq, judged.verify_eq]
      refine congrArg (fun found => verdict (.ok found)) (judge_eq adapter request ?_
        (sort.sorted Point.time compares _) (sort.sorted Point.time compares _) fun mode => ?_)
      · exact (sort.perm _ _).trans ((keptPoints_perm rearranged).trans (sort.perm _ _).symm)
      · simpa only [Settled, flattenPoints, sort.mem_arrange] using settled query judged mode
    · have unjudged := not_exists.mp reached
      rw [verify_of_not_judged unjudged, verify_of_not_judged unjudged sort second]

def lastAtMostOne : Adapter where
  queries := (∅ : GoMap _ _).set ("api", "staging")
    { threshold := .finite 1, minimumPoints := 1, maximumAge := 10 ^ 9 }
  digest := default
  hashText _ := ""

/-- The verdict on two series, each of a point with its time and value. -/
def verdictOn (one another : ℚ × ℚ) : Except ClassifiedError AdapterEvidence :=
  verify .insertion lastAtMostOne ⟨"api", "staging", "execution-1", unixMilli 0, unixMilli 9⟩
    ⟨((∅ : GoMap _ _).set "api_key" [1]).set "app_key" [1], 1⟩ 0 0
    (.answered 200 (some ("ok", [one, another].map fun point =>
      [[some (.finite point.1), some (.finite point.2)]])))

/-- Of two points at the same time, the one which comes last in the response decides. -/
theorem verdict_depends_on_order :
    (verdictOn (1, 2) (1, 0)).map (fun found => (found.status, found.reasonCode)) =
        .ok (.pass, "THRESHOLD_MET") ∧
      (verdictOn (1, 0) (1, 2)).map (fun found => (found.status, found.reasonCode)) =
        .ok (.fail, "THRESHOLD_BREACHED") := by
  decide +kernel

end Themisy.Datadog
