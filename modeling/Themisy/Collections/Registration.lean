import Themisy.Collections.GoMap

/-!
# Registering items under their names

A loop which stores every item of a list under its name, and fails when an item is
not ready or when its name is taken, succeeds exactly when all items are ready and
their names are distinct. Neither condition mentions the order of the list, and the
table which is built has the same lookups for every order.
-/

namespace Themisy

section Registers

variable {Table Item Name Error : Type}

variable {result table : Table} {items : List Item}

theorem foldlM_cons_eq_ok {step : Table → Item → Except Error Table} {item : Item}
    {rest : List Item} :
    (item :: rest).foldlM step table = .ok result ↔
      ∃ next, step table item = .ok next ∧ rest.foldlM step next = .ok result := by
  rw [List.foldlM_cons]
  cases step table item <;> simp [bind, Except.bind]

/-- A loop body which stores an item, provided that it is ready and its name is free. -/
structure Registers (step : Table → Item → Except Error Table) (name : Item → Name)
    (ready : Item → Prop) (has : Table → Name → Prop) (store : Table → Item → Table) : Prop where
  step_eq_ok : ∀ table item next, step table item = .ok next ↔
    ready item ∧ ¬has table (name item) ∧ next = store table item
  has_store : ∀ table item other, has (store table item) other ↔ other = name item ∨ has table other

variable {step : Table → Item → Except Error Table} {name : Item → Name} {ready : Item → Prop}
  {has : Table → Name → Prop} {store : Table → Item → Table}

/-- A loop body which stores every item that is ready, whether its name is taken or not. -/
theorem foldlM_eq_ok_iff_of_checked (ready : Item → Prop)
    (checked : ∀ table item next, step table item = .ok next ↔
      ready item ∧ next = store table item) :
    items.foldlM step table = .ok result ↔
      (∀ item ∈ items, ready item) ∧ result = items.foldl store table := by
  induction items generalizing table with
  | nil => simp [pure, Except.pure, eq_comm]
  | cons item rest ih =>
    simp only [foldlM_cons_eq_ok, checked, ih, List.forall_mem_cons, List.foldl_cons]
    constructor
    · rintro ⟨next, ⟨itemReady, rfl⟩, restReady, rfl⟩
      exact ⟨⟨itemReady, restReady⟩, rfl⟩
    · rintro ⟨⟨itemReady, restReady⟩, rfl⟩
      exact ⟨_, ⟨itemReady, rfl⟩, restReady, rfl⟩

namespace Registers

theorem foldlM_eq_ok_iff (registers : Registers step name ready has store) :
    items.foldlM step table = .ok result ↔ (∀ item ∈ items, ready item) ∧
      (items.map name).Nodup ∧ (∀ item ∈ items, ¬has table (name item)) ∧
      result = items.foldl store table := by
  induction items generalizing table with
  | nil => simp [pure, Except.pure, eq_comm]
  | cons item rest ih =>
    simp only [foldlM_cons_eq_ok, registers.step_eq_ok, ih, List.forall_mem_cons, List.map_cons,
      List.nodup_cons, List.foldl_cons, List.mem_map, not_exists, not_and]
    constructor
    · rintro ⟨next, ⟨itemReady, free, rfl⟩, restReady, distinct, unused, rfl⟩
      refine ⟨⟨itemReady, restReady⟩, ⟨fun other member same => ?_, distinct⟩,
        ⟨free, fun other member taken => ?_⟩, rfl⟩
      · exact unused other member ((registers.has_store _ _ _).mpr (Or.inl same))
      · exact unused other member ((registers.has_store _ _ _).mpr (Or.inr taken))
    · rintro ⟨⟨itemReady, restReady⟩, ⟨different, distinct⟩, ⟨free, unused⟩, rfl⟩
      refine ⟨store table item, ⟨itemReady, free, rfl⟩, restReady, distinct,
        fun other member taken => ?_, rfl⟩
      rcases (registers.has_store _ _ _).mp taken with same | before
      · exact different other member same
      · exact unused other member before

/-- Starting from a table without names, only the items decide whether the loop succeeds. -/
theorem foldlM_empty_eq_ok_iff (registers : Registers step name ready has store)
    (empty : ∀ taken, ¬has table taken) :
    items.foldlM step table = .ok result ↔ (∀ item ∈ items, ready item) ∧
      (items.map name).Nodup ∧ result = items.foldl store table := by
  rw [registers.foldlM_eq_ok_iff]
  simp [empty]

end Registers

end Registers

section Tabulates

variable {Item Other Name Value : Type}

/-- The lookups of a table are those of the items under their names. -/
def Tabulates (lookup : Name → Option Value) (items : List Item) (name : Item → Name)
    (value : Item → Value) : Prop :=
  ∀ query found, lookup query = some found ↔ ∃ item ∈ items, name item = query ∧ value item = found

variable {lookup again : Name → Option Value} {items : List Item} {others : List Other}
  {name : Item → Name} {otherName : Other → Name} {value : Item → Value}
  {otherValue : Other → Value}

namespace Tabulates

section

variable (tabulates : Tabulates lookup items name value)

include tabulates

theorem eq_some {item : Item} (member : item ∈ items) : lookup (name item) = some (value item) :=
  (tabulates _ _).mpr ⟨item, member, rfl, rfl⟩

theorem isSome_iff {query : Name} :
    (lookup query).isSome ↔ query ∈ items.map name := by
  simp only [Option.isSome_iff_exists, tabulates query, List.mem_map]
  constructor
  · rintro ⟨_, item, member, named, -⟩
    exact ⟨item, member, named⟩
  · rintro ⟨item, member, named⟩
    exact ⟨value item, item, member, named, rfl⟩

theorem map {Result : Type} (view : Name → Value → Result) :
    Tabulates (fun query => (lookup query).map (view query)) items name
      fun item => view (name item) (value item) := by
  intro query found
  simp only [Option.map_eq_some_iff, tabulates query]
  constructor
  · rintro ⟨_, ⟨item, member, rfl, rfl⟩, viewed⟩
    exact ⟨item, member, rfl, viewed⟩
  · rintro ⟨item, member, rfl, viewed⟩
    exact ⟨_, ⟨item, member, rfl, rfl⟩, viewed⟩

theorem eq (tabulated : Tabulates again others otherName otherValue)
    (forth : ∀ item ∈ items, ∃ other ∈ others,
      otherName other = name item ∧ otherValue other = value item)
    (back : ∀ other ∈ others, ∃ item ∈ items,
      name item = otherName other ∧ value item = otherValue other) : lookup = again := by
  funext query
  apply Option.ext
  intro found
  rw [tabulates query found, tabulated query found]
  constructor
  · rintro ⟨item, member, rfl, rfl⟩
    exact forth item member
  · rintro ⟨other, member, rfl, rfl⟩
    exact back other member

end

end Tabulates

variable [DecidableEq Name]

theorem tabulates_foldl_set {items : List Item} (distinct : (items.map name).Nodup)
    (value : Item → Value) :
    Tabulates (items.foldl (fun table item => GoMap.set table (name item) (value item)) ∅).get?
      items name value := by
  induction items using List.reverseRecOn with
  | nil => simp [Tabulates]
  | append_singleton rest last ih =>
    rw [List.map_append, List.nodup_append] at distinct
    have earlier := ih distinct.1
    intro query found
    rw [List.foldl_append, List.foldl_cons, List.foldl_nil, GoMap.get?_set]
    split
    · next named =>
      subst named
      simp only [List.mem_append, List.mem_singleton, Option.some.injEq]
      constructor
      · rintro rfl
        exact ⟨last, Or.inr rfl, rfl, rfl⟩
      · rintro ⟨item, member | rfl, named, rfl⟩
        · exact absurd named
            (distinct.2.2 _ (List.mem_map_of_mem member) _ (by simp))
        · rfl
    · next different =>
      rw [earlier query found]
      simp only [List.mem_append, List.mem_singleton]
      constructor
      · rintro ⟨item, member, named⟩
        exact ⟨item, Or.inl member, named⟩
      · rintro ⟨item, member | rfl, named, valued⟩
        · exact ⟨item, member, named, valued⟩
        · exact absurd named.symm different

end Tabulates

end Themisy
