import Mathlib.Data.List.Dedup
import Mathlib.Tactic.Common

/-!
# Policies made of rules

This file develops the part of the language Rego which decides how the rules of
several modules act together. A name has a single value, on which all its rules must
agree, or it is a set, the union of what its rules contribute, or it has a default.

The body of a rule is a query, given by its meaning: from the input and the documents
of the names it reads it yields any number of results. The documents of a policy
without recursion are evaluated in finitely many rounds, and they satisfy the
equations of its rules (`Policy.documents_eq`).
-/

namespace Themisy.Rego

variable {Input Value α β : Type}

/-- What a name stands for. -/
inductive Document (Value : Type) where
  | value (content : Value)
  | set (elements : List Value)

/-- The documents of a policy; reading a name fails when its rules are in conflict. -/
abbrev Documents (Value : Type) := String → Except String (Option (Document Value))

/-- What a rule is evaluated in. -/
structure Context (Input Value : Type) where
  input : Input
  documents : Documents Value

/-- The results of a computation for each of some items, one after the other. -/
def each (next : α → Except String (List β)) : List α → Except String (List β)
  | [] => .ok []
  | item :: rest => do
      let first ← next item
      let later ← each next rest
      return first ++ later

def Query (Input Value α : Type) := Context Input Value → Except String (List α)

namespace Query

instance : Monad (Query Input Value) where
  pure value := fun _ => .ok [value]
  bind query next := fun context => do
    let found ← query context
    each (fun value => next value context) found

/-- A condition, as an expression of a body. -/
def holds (condition : Prop) [Decidable condition] : Query Input Value Unit :=
  fun _ => .ok (if condition then [()] else [])

def read (part : Input → Option α) : Query Input Value α :=
  fun context => .ok (part context.input).toList

def valueOf (name : String) : Query Input Value Value :=
  fun context => do
    match (← context.documents name) with
    | some (.value content) => return [content]
    | _ => return []

def setOf (name : String) : Query Input Value (List Value) :=
  fun context => do
    match (← context.documents name) with
    | some (.set elements) => return [elements]
    | _ => return []

/-- The expression `some value in values`. -/
def oneOf (values : List α) : Query Input Value α :=
  fun _ => .ok values

/-- The expression `not query`. -/
def negate (query : Query Input Value α) : Query Input Value Unit :=
  fun context => do
    let found ← query context
    return if found.isEmpty then [()] else []

section Sequences

variable {context : Context Input Value} {next : α → Query Input Value β}

theorem each_singleton {next : α → Except String (List β)} {item : α} :
    each next [item] = next item := by
  cases computed : next item <;> simp [each, computed, bind, Except.bind, Except.pure, Pure.pure]

@[simp]
theorem pure_apply {value : α} : (pure value : Query Input Value α) context = .ok [value] := rfl

@[simp]
theorem holds_bind {condition : Prop} [Decidable condition] {next : Unit → Query Input Value β} :
    (holds condition >>= next) context = if condition then next () context else .ok [] := by
  change each _ (if condition then [()] else []) = _
  split
  · exact each_singleton
  · rfl

@[simp]
theorem read_bind {part : Input → Option α} :
    (read part >>= next) context =
      match part context.input with
      | some value => next value context
      | none => .ok [] := by
  change each _ (part context.input).toList = _
  cases part context.input with
  | none => rfl
  | some value => exact each_singleton

@[simp]
theorem oneOf_bind {values : List α} :
    (oneOf values >>= next) context = each (fun value => next value context) values := rfl

@[simp]
theorem valueOf_bind {name : String} {next : Value → Query Input Value β} :
    (valueOf name >>= next) context =
      match context.documents name with
      | .ok (some (.value content)) => next content context
      | .ok _ => .ok []
      | .error error => .error error := by
  change (valueOf name context >>= each _) = _
  unfold valueOf
  rcases context.documents name with error | _ | content | elements
  · rfl
  · rfl
  · exact each_singleton
  · rfl

@[simp]
theorem setOf_bind {name : String} {next : List Value → Query Input Value β} :
    (setOf name >>= next) context =
      match context.documents name with
      | .ok (some (.set elements)) => next elements context
      | .ok _ => .ok []
      | .error error => .error error := by
  change (setOf name context >>= each _) = _
  unfold setOf
  rcases context.documents name with error | _ | content | elements
  · rfl
  · rfl
  · rfl
  · exact each_singleton

@[simp]
theorem negate_bind {query : Query Input Value α} {next : Unit → Query Input Value β} :
    (negate query >>= next) context =
      match query context with
      | .ok found => if found = [] then next () context else .ok []
      | .error error => .error error := by
  change (negate query context >>= each _) = _
  unfold negate
  rcases query context with error | _ | ⟨value, rest⟩
  · rfl
  · exact each_singleton
  · rfl

end Sequences

end Query

/-- The computation succeeds and yields the value. -/
def Yields (results : Except String (List α)) (value : α) : Prop :=
  ∃ found, results = .ok found ∧ value ∈ found

variable {value : α} {condition : Prop} {next : α → Except String (List β)} {items : List α}

theorem yields_ok {found : List α} : Yields (.ok found) value ↔ value ∈ found := by
  simp [Yields]

theorem yields_ite [Decidable condition] {found : α} :
    Yields (if condition then .ok [found] else .ok []) value ↔ condition ∧ value = found := by
  split <;> simp_all [yields_ok]

theorem exists_ite_eq_ok [Decidable condition] {first second : List α} :
    ∃ found, (if condition then .ok first else .ok second : Except String (List α)) =
      .ok found := by
  split
  · exact ⟨first, rfl⟩
  · exact ⟨second, rfl⟩

theorem each_eq_ok {results : List β} (computed : each next items = .ok results) :
    (∀ item ∈ items, ∃ found, next item = .ok found) ∧
      ∀ value, value ∈ results ↔ ∃ item ∈ items, Yields (next item) value := by
  induction items generalizing results with
  | nil =>
    cases computed
    simp
  | cons item rest ih =>
    unfold each at computed
    cases first : next item with
    | error error =>
      rw [first] at computed
      cases computed
    | ok found =>
      cases others : each next rest with
      | error error =>
        rw [first, others] at computed
        cases computed
      | ok later =>
        rw [first, others] at computed
        cases computed
        obtain ⟨succeeds, yields⟩ := ih others
        refine ⟨?_, by simp [first, yields, yields_ok]⟩
        intro other member
        rcases List.mem_cons.mp member with rfl | later
        · exact ⟨found, first⟩
        · exact succeeds other later

theorem exists_each_eq_ok (succeeds : ∀ item ∈ items, ∃ found, next item = .ok found) :
    ∃ results, each next items = .ok results := by
  induction items with
  | nil => exact ⟨[], rfl⟩
  | cons item rest ih =>
    obtain ⟨found, first⟩ := succeeds item List.mem_cons_self
    obtain ⟨later, others⟩ := ih fun other member => succeeds other (List.mem_cons_of_mem _ member)
    exact ⟨found ++ later, by rw [each, first, others]; rfl⟩

/-- Whether a rule defines the value of a name or an element of it. -/
inductive Shape where
  | complete
  | element
  deriving DecidableEq

/-- A rule: the name it defines and the values it yields. -/
structure Rule (Input Value : Type) where
  name : String
  shape : Shape
  /-- The names which the body refers to. -/
  reads : List String
  body : Query Input Value Value

/-- The rule `name := value if body`, whose body ends with the value. -/
@[simp]
def Rule.complete (name : String) (reads : List String) (body : Query Input Value Value) :
    Rule Input Value where
  name
  shape := .complete
  reads
  body

/-- The rule `name contains element if body`, whose body ends with the element. -/
@[simp]
def Rule.contains (name : String) (reads : List String) (body : Query Input Value Value) :
    Rule Input Value where
  name
  shape := .element
  reads
  body

/-- What a rule sees of a context. -/
@[simp]
def Context.restrict (context : Context Input Value) (names : List String) :
    Context Input Value where
  input := context.input
  documents name := if name ∈ names then context.documents name else .ok none

@[simp]
def Rule.results (rule : Rule Input Value) (context : Context Input Value) :
    Except String (List Value) :=
  rule.body (context.restrict rule.reads)

/-- The rules and defaults of a module, or of all modules of a policy. -/
structure Policy (Input Value : Type) where
  rules : List (Rule Input Value)
  defaults : List (String × Value) := []

namespace Policy

/-- Modules are merged name by name. -/
def merge (modules : List (Policy Input Value)) : Policy Input Value where
  rules := modules.flatMap rules
  defaults := modules.flatMap defaults

variable (policy : Policy Input Value)

def definitions (name : String) : List (Rule Input Value) :=
  policy.rules.filter fun rule => rule.name = name

/-- Some rule defines an element of the name. -/
def IsSet (name : String) : Prop :=
  ∃ rule ∈ policy.definitions name, rule.shape = .element

instance (name : String) : Decidable (policy.IsSet name) :=
  inferInstanceAs (Decidable (∃ rule ∈ policy.definitions name, rule.shape = .element))

def default (name : String) : Option Value :=
  (policy.defaults.find? fun entry => entry.1 = name).map Prod.snd

def results (context : Context Input Value) (name : String) : Except String (List Value) :=
  each (fun rule => rule.results context) (policy.definitions name)

def conflict : String :=
  "eval_conflict_error: complete rules must not produce multiple outputs"

/-- The document of a name whose rules yield the given values. -/
def settle (name : String) (found : List Value) : Except String (Option (Document Value)) :=
  if policy.IsSet name then .ok (some (.set found))
  else
    match found with
    | [] => .ok ((policy.default name).map .value)
    | [content] => .ok (some (.value content))
    | _ => .error conflict

def define [DecidableEq Value] (context : Context Input Value) (name : String) :
    Except String (Option (Document Value)) := do
  let found ← policy.results context name
  policy.settle name found.dedup

def Contributes (context : Context Input Value) (name : String) (value : Value) : Prop :=
  ∃ rule ∈ policy.definitions name, Yields (rule.results context) value

/-- No rule of the name is in error. -/
def Succeeds (context : Context Input Value) (name : String) : Prop :=
  ∀ rule ∈ policy.definitions name, ∃ found, rule.results context = .ok found

variable {policy} {context : Context Input Value} {name : String}

variable {rule : Rule Input Value} {found : List Value} {value : Value} {input : Input}

theorem mem_definitions :
    rule ∈ policy.definitions name ↔ rule ∈ policy.rules ∧ rule.name = name := by
  simp [definitions]

theorem mem_of_results (computed : policy.results context name = .ok found) :
    value ∈ found ↔ policy.Contributes context name value :=
  (each_eq_ok computed).2 value

section Define

variable [DecidableEq Value] {document : Option (Document Value)}

theorem define_of_results (computed : policy.results context name = .ok found) :
    policy.define context name = policy.settle name found.dedup := by
  rw [define, computed]
  rfl

theorem exists_results_of_define (defined : policy.define context name = .ok document) :
    ∃ found, policy.results context name = .ok found ∧
      policy.settle name found.dedup = .ok document := by
  cases computed : policy.results context name with
  | error error =>
    rw [define, computed] at defined
    cases defined
  | ok found => exact ⟨found, rfl, by rw [← define_of_results computed, defined]⟩

/-- Where a document is defined, all its rules could be evaluated. -/
theorem succeeds_of_define (defined : policy.define context name = .ok document)
    (member : rule ∈ policy.definitions name) : ∃ found, rule.results context = .ok found := by
  obtain ⟨found, computed, -⟩ := exists_results_of_define defined
  exact (each_eq_ok computed).1 rule member

theorem exists_set_of_define (isSet : policy.IsSet name)
    (defined : policy.define context name = .ok document) :
    ∃ elements, document = some (.set elements) ∧
      ∀ value, value ∈ elements ↔ policy.Contributes context name value := by
  obtain ⟨found, computed, settled⟩ := exists_results_of_define defined
  unfold settle at settled
  rw [if_pos isSet] at settled
  cases settled
  exact ⟨found.dedup, rfl, fun value => by rw [List.mem_dedup, mem_of_results computed]⟩

/-- The value of a name is what all its rules yield, or else its default. -/
theorem define_complete (complete : ¬policy.IsSet name)
    (defined : policy.define context name = .ok document) :
    (∃ content, document = some (.value content) ∧
      ∀ value, policy.Contributes context name value ↔ value = content) ∨
    document = (policy.default name).map .value ∧
      ∀ value, ¬policy.Contributes context name value := by
  obtain ⟨found, computed, settled⟩ := exists_results_of_define defined
  have contributes : ∀ value, policy.Contributes context name value ↔ value ∈ found.dedup :=
    fun value => by rw [List.mem_dedup, mem_of_results computed]
  simp only [contributes]
  unfold settle at settled
  rw [if_neg complete] at settled
  split at settled
  · next none =>
    cases settled
    exact Or.inr ⟨rfl, by simp [none]⟩
  · next content one =>
    cases settled
    exact Or.inl ⟨content, rfl, by simp [one]⟩
  · cases settled

variable (succeeds : policy.Succeeds context name)

include succeeds

omit [DecidableEq Value] in
theorem exists_results : ∃ found, policy.results context name = .ok found :=
  exists_each_eq_ok succeeds

theorem exists_define_set (isSet : policy.IsSet name) :
    ∃ elements, policy.define context name = .ok (some (.set elements)) ∧
      ∀ value, value ∈ elements ↔ policy.Contributes context name value := by
  obtain ⟨found, computed⟩ := exists_results succeeds
  refine ⟨found.dedup, ?_, fun value => by rw [List.mem_dedup, mem_of_results computed]⟩
  rw [define_of_results computed]
  exact if_pos isSet

theorem define_eq_value (complete : ¬policy.IsSet name) {content : Value}
    (agree : ∀ value, policy.Contributes context name value ↔ value = content) :
    policy.define context name = .ok (some (.value content)) := by
  obtain ⟨found, computed⟩ := exists_results succeeds
  have one : found.dedup = [content] := by
    rw [← List.perm_singleton, List.perm_ext_iff_of_nodup (List.nodup_dedup found)
      (List.nodup_singleton content)]
    intro value
    rw [List.mem_dedup, mem_of_results computed, agree, List.mem_singleton]
  rw [define_of_results computed, one]
  exact if_neg complete

theorem define_eq_default (complete : ¬policy.IsSet name)
    (silent : ∀ value, ¬policy.Contributes context name value) :
    policy.define context name = .ok ((policy.default name).map .value) := by
  obtain ⟨found, computed⟩ := exists_results succeeds
  have none : found.dedup = [] := by
    refine List.eq_nil_iff_forall_not_mem.mpr fun value member => silent value ?_
    rwa [List.mem_dedup, mem_of_results computed] at member
  rw [define_of_results computed, none]
  exact if_neg complete

end Define

variable (policy)

/-- The documents which the given number of rounds can find. -/
def evaluate [DecidableEq Value] : ℕ → Input → Documents Value
  | 0, _, _ => .ok none
  | rounds + 1, input, name => policy.define ⟨input, evaluate rounds input⟩ name

/-- References from the name lead through at most the given number of names. -/
def Bounded : ℕ → String → Prop
  | 0, _ => False
  | rounds + 1, name => ∀ rule ∈ policy.definitions name, ∀ other ∈ rule.reads,
      Bounded rounds other

instance decidableBounded : (rounds : ℕ) → (name : String) → Decidable (policy.Bounded rounds name)
  | 0, _ => inferInstanceAs (Decidable False)
  | rounds + 1, name =>
    have (other : String) := decidableBounded rounds other
    inferInstanceAs (Decidable (∀ rule ∈ policy.definitions name, ∀ other ∈ rule.reads,
      policy.Bounded rounds other))

/-- As many rounds as a policy without recursion can need. -/
def rounds : ℕ :=
  policy.rules.length + 1

/-- What the compiler asks of a policy. -/
structure WellFormed : Prop where
  uniform : ∀ left ∈ policy.rules, ∀ right ∈ policy.rules, left.name = right.name →
    left.shape = right.shape
  defaults : (policy.defaults.map Prod.fst).Nodup
  complete : ∀ entry ∈ policy.defaults, ¬policy.IsSet entry.1
  nonrecursive : ∀ rule ∈ policy.rules, policy.Bounded policy.rounds rule.name

instance : Decidable policy.WellFormed :=
  decidable_of_iff ((∀ left ∈ policy.rules, ∀ right ∈ policy.rules, left.name = right.name →
      left.shape = right.shape) ∧ (policy.defaults.map Prod.fst).Nodup ∧
      (∀ entry ∈ policy.defaults, ¬policy.IsSet entry.1) ∧
      ∀ rule ∈ policy.rules, policy.Bounded policy.rounds rule.name)
    ⟨fun ⟨uniform, defaults, complete, nonrecursive⟩ =>
        ⟨uniform, defaults, complete, nonrecursive⟩,
      fun ⟨uniform, defaults, complete, nonrecursive⟩ =>
        ⟨uniform, defaults, complete, nonrecursive⟩⟩

def documents [DecidableEq Value] (input : Input) : Documents Value :=
  policy.evaluate policy.rounds input

abbrev contextOf [DecidableEq Value] (input : Input) : Context Input Value :=
  ⟨input, policy.documents input⟩

variable {policy}

theorem each_congr {items : List α} {left right : α → Except String (List β)}
    (same : ∀ item ∈ items, left item = right item) : each left items = each right items := by
  induction items with
  | nil => rfl
  | cons item rest ih =>
    have others := ih fun other member => same other (List.mem_cons_of_mem item member)
    simp only [each, same item List.mem_cons_self, others]

/-- The document of a name depends on the names which its rules read. -/
theorem define_congr [DecidableEq Value] {left right : Documents Value}
    (same : ∀ rule ∈ policy.definitions name, ∀ other ∈ rule.reads, left other = right other) :
    policy.define ⟨input, left⟩ name = policy.define ⟨input, right⟩ name := by
  have computed : policy.results ⟨input, left⟩ name = policy.results ⟨input, right⟩ name := by
    refine each_congr fun rule member => ?_
    have seen : Context.restrict ⟨input, left⟩ rule.reads =
        Context.restrict ⟨input, right⟩ rule.reads := by
      simp only [Context.restrict, Context.mk.injEq, true_and]
      funext other
      split
      · next reads => exact same rule member other reads
      · rfl
    rw [Rule.results, Rule.results, seen]
  unfold define
  rw [computed]

theorem default_eq_some_iff (wellFormed : policy.WellFormed) :
    policy.default name = some value ↔ (name, value) ∈ policy.defaults := by
  have distinct := wellFormed.defaults
  unfold default
  generalize policy.defaults = entries at distinct ⊢
  induction entries with
  | nil => simp
  | cons entry rest ih =>
    rw [List.map_cons, List.nodup_cons] at distinct
    by_cases same : entry.1 = name
    · have absent : (name, value) ∉ rest := fun member =>
        distinct.1 (same ▸ List.mem_map_of_mem member)
      simp [same, absent, Prod.ext_iff, eq_comm]
    · simp [same, ih distinct.2, Prod.ext_iff, Ne.symm same]

/-- More rounds than references do not change a document. -/
theorem evaluate_eq_of_bounded [DecidableEq Value] {count more : ℕ}
    (bounded : policy.Bounded count name) (le : count ≤ more) :
    policy.evaluate more input name = policy.evaluate count input name := by
  induction count generalizing name more with
  | zero => exact bounded.elim
  | succ count ih =>
    obtain ⟨more, rfl⟩ : ∃ fewer, more = fewer + 1 := ⟨more - 1, by omega⟩
    refine define_congr fun rule member other reads => ?_
    exact ih (bounded rule member other reads) (by omega)

theorem documents_eq [DecidableEq Value] (wellFormed : policy.WellFormed) (input : Input)
    (name : String) :
    policy.documents input name = policy.define (policy.contextOf input) name := by
  have bounded : policy.Bounded policy.rounds name := by
    by_cases defined : ∃ rule ∈ policy.rules, rule.name = name
    · obtain ⟨rule, member, rfl⟩ := defined
      exact wellFormed.nonrecursive rule member
    · intro rule member
      exact absurd ⟨rule, mem_definitions.mp member⟩ defined
  exact (evaluate_eq_of_bounded bounded (Nat.le_succ _)).symm

end Policy

/-- A policy which compiles. -/
structure Program (Input Value : Type) extends Policy Input Value where
  wellFormed : toPolicy.WellFormed

end Themisy.Rego
