import Mathlib.Data.List.Nodup

/-!
# Tables with unique keys

A table is a list of rows, in the order of their insertion. Its keys are the
columns, or groups of columns, in which no two rows agree. An insertion which
would break this is refused; an update keeps the keys of every row.

A row is selected by a condition. A condition which fixes a key is satisfied by
at most one row, and further conditions on that row can be tested afterwards.
-/

namespace Themisy

variable {Row Key : Type}

/-- Rows of which no two share a key. -/
structure Table (keys : List (Row → Key)) where
  rows : List Row := []
  unique : ∀ key ∈ keys, (rows.map key).Nodup := by simp

variable {key : Row → Key} {change : Row → Row} {value : Key}

namespace Table

variable {keys : List (Row → Key)} (table : Table keys)

def select (condition : Row → Bool) : Option Row :=
  table.rows.find? condition

/-- The number of rows which an update with this condition changes. -/
def affected (condition : Row → Bool) : ℕ :=
  table.rows.countP condition

def touch (condition : Row → Bool) (change : Row → Row) (row : Row) : Row :=
  if condition row then change row else row

theorem map_touch {condition : Row → Bool} (keeps : ∀ row, key (change row) = key row)
    (rows : List Row) : (rows.map (touch condition change)).map key = rows.map key := by
  rw [List.map_map]
  refine List.map_congr_left fun row _ => ?_
  simp only [Function.comp_apply, touch]
  split
  · exact keeps row
  · rfl

def update (condition : Row → Bool) (change : Row → Row)
    (keeps : ∀ key ∈ keys, ∀ row, key (change row) = key row) : Table keys where
  rows := table.rows.map (touch condition change)
  unique key member := by
    rw [map_touch (keeps key member)]
    exact table.unique key member

variable [DecidableEq Key]

/-- A row is added unless it agrees with another one in a key. -/
def insert (row : Row) : Option (Table keys) :=
  if fresh : ∀ key ∈ keys, key row ∉ table.rows.map key then
    some {
      rows := table.rows ++ [row]
      unique := by
        intro key member
        rw [List.map_append, List.map_singleton, List.nodup_append_comm, List.singleton_append,
          List.nodup_cons]
        exact ⟨fresh key member, table.unique key member⟩ }
  else none

variable {table} {next : Table keys} {row : Row} {condition : Row → Bool}

theorem insert_eq_none_iff :
    table.insert row = none ↔ ∃ key ∈ keys, ∃ other ∈ table.rows, key other = key row := by
  simp [insert]

theorem exists_insert (fresh : ∀ key ∈ keys, key row ∉ table.rows.map key) :
    ∃ next, table.insert row = some next := by
  rw [insert, dif_pos fresh]
  exact ⟨_, rfl⟩

theorem rows_of_insert (inserted : table.insert row = some next) :
    next.rows = table.rows ++ [row] := by
  unfold insert at inserted
  split at inserted
  · cases inserted
    rfl
  · cases inserted

theorem select_of_insert (inserted : table.insert row = some next) (condition : Row → Bool) :
    next.select condition =
      (table.select condition).or (if condition row then some row else none) := by
  rw [select, rows_of_insert inserted, List.find?_append, List.find?_singleton]
  rfl

omit [DecidableEq Key] in
theorem mem_of_select (selected : table.select condition = some row) :
    row ∈ table.rows ∧ condition row = true :=
  ⟨List.mem_of_find?_eq_some selected, List.find?_some selected⟩

theorem key_of_select (selected : table.select (fun row => key row = value) = some row) :
    key row = value :=
  of_decide_eq_true (mem_of_select selected).2

omit [DecidableEq Key] in
theorem select_eq_none_iff :
    table.select condition = none ↔ ∀ row ∈ table.rows, condition row = false := by
  simp [select]

theorem not_mem_of_select_eq_none (absent : table.select (fun row => key row = value) = none) :
    value ∉ table.rows.map key := by
  rw [select_eq_none_iff] at absent
  simp only [List.mem_map, not_exists, not_and]
  exact fun row present same => of_decide_eq_false (absent row present) same

omit [DecidableEq Key] in
theorem affected_eq_zero_iff :
    table.affected condition = 0 ↔ table.select condition = none := by
  simp [affected, select]

variable {keeps : ∀ key ∈ keys, ∀ row, key (change row) = key row} {other : Row → Bool}
  {holds : Row → Prop}

omit [DecidableEq Key] in
theorem select_update {condition : Row → Bool} (same : ∀ row, other (change row) = other row) :
    (table.update condition change keeps).select other =
      (table.select other).map (touch condition change) := by
  have touched : other ∘ touch condition change = other := by
    funext row
    simp only [Function.comp_apply, touch]
    split
    · exact same row
    · rfl
  rw [select, update, List.find?_map, touched, select]

omit [DecidableEq Key] in
/-- What an update changes is not seen by a reader who looks at other columns. -/
theorem map_select_update {Value : Type} {condition : Row → Bool} {column : Row → Value}
    (same : ∀ row, other (change row) = other row)
    (unchanged : ∀ row, column (change row) = column row) :
    ((table.update condition change keeps).select other).map column =
      (table.select other).map column := by
  rw [select_update same, Option.map_map]
  congr 1
  funext row
  simp only [Function.comp_apply, touch]
  split
  · exact unchanged row
  · rfl

theorem forall_of_insert (inserted : table.insert row = some next)
    (old : ∀ row ∈ table.rows, holds row) (new : holds row) : ∀ row ∈ next.rows, holds row := by
  intro other member
  rw [rows_of_insert inserted] at member
  rcases List.mem_append.mp member with present | added
  · exact old other present
  · rw [List.mem_singleton.mp added]
    exact new

omit [DecidableEq Key] in
theorem forall_update (old : ∀ row ∈ table.rows, holds row)
    (changed : ∀ row, holds row → holds (change row)) :
    ∀ row ∈ (table.update condition change keeps).rows, holds row := by
  intro row member
  obtain ⟨before, present, rfl⟩ := List.mem_map.mp member
  unfold touch
  split
  · exact changed before (old before present)
  · exact old before present

omit [DecidableEq Key] in
theorem eq_of_key {other : Row} (member : key ∈ keys) (present : row ∈ table.rows)
    (otherPresent : other ∈ table.rows) (same : key row = key other) : row = other :=
  List.inj_on_of_nodup_map (table.unique key member) present otherPresent same

theorem select_key (member : key ∈ keys) (present : row ∈ table.rows) (same : key row = value) :
    table.select (fun other => key other = value) = some row := by
  subst same
  cases selected : table.select (fun other => key other = key row) with
  | none =>
    rw [select_eq_none_iff] at selected
    have differs := selected row present
    simp at differs
  | some other =>
    obtain ⟨otherPresent, same⟩ := mem_of_select selected
    rw [eq_of_key member otherPresent present (of_decide_eq_true same)]

/-- An update which fixes a key changes nothing unless the row with this key meets its condition. -/
theorem affected_eq_zero_iff_of_fixes (member : key ∈ keys)
    (fixes : ∀ row, condition row = true → key row = value) :
    table.affected condition = 0 ↔
      ∀ row, table.select (fun row => key row = value) = some row → condition row = false := by
  rw [affected_eq_zero_iff, select_eq_none_iff]
  constructor
  · intro none row selected
    exact none row (mem_of_select selected).1
  · intro none row present
    by_contra holds
    rw [Bool.not_eq_false] at holds
    have selected := select_key member present (fixes row holds)
    rw [none row selected] at holds
    cases holds

theorem select_key_of_insert (member : key ∈ keys) (inserted : table.insert row = some next)
    (value : Key) :
    next.select (fun other => key other = value) =
      if value = key row then some row else table.select fun other => key other = value := by
  rw [select_of_insert inserted]
  by_cases same : value = key row
  · have absent : table.select (fun other => key other = value) = none := by
      rw [select_eq_none_iff]
      intro other present
      rw [decide_eq_false_iff_not, same]
      intro clash
      have refused := insert_eq_none_iff.mpr ⟨key, member, other, present, clash⟩
      rw [refused] at inserted
      cases inserted
    rw [absent, if_pos same, Option.none_or, if_pos (decide_eq_true same.symm)]
  · simp [same, Ne.symm same]

theorem select_key_of_update (member : key ∈ keys)
    (fixes : ∀ row, condition row = true → key row = value)
    (selected : table.select (fun other => key other = value) = some row)
    (holds : condition row = true) (other : Key) :
    (table.update condition change keeps).select (fun row => key row = other) =
      if other = value then some (change row) else table.select fun row => key row = other := by
  rw [select_update (fun row => by rw [keeps key member])]
  split
  · next same =>
    subst same
    rw [selected, Option.map_some, touch, if_pos holds]
  · next different =>
    cases found : table.select (fun row => key row = other) with
    | none => rfl
    | some row =>
      have same := key_of_select found
      have untouched : ¬condition row = true := fun holds =>
        different (same.symm.trans (fixes row holds))
      rw [Option.map_some, touch, if_neg untouched]

end Table

end Themisy
