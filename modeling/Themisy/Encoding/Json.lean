import Themisy.Collections.GoMap
import Themisy.Collections.Sorting
import Mathlib.Data.Rat.Defs
import Mathlib.Data.Set.Function

/-!
# Canonical encodings and their digests

`json.Marshal` writes the fields of a struct in their declared order, drops an
`omitempty` field which holds its zero value, and sorts the keys of a map. A
`Json` value is the tree it writes; two values have the same bytes exactly when
they have the same tree.

Slices which are built by appending to a nil slice are nil when they are empty,
and a nil slice is written as null.

A digest is any function from trees to 64 hexadecimal characters.
-/

namespace Themisy

inductive Float64 where
  | finite (value : ℚ)
  | infinity (negative : Bool)
  | nan
  deriving DecidableEq, Inhabited

/-- A document of `encoding/json`. -/
inductive Json where
  | null
  | bool (value : Bool)
  | number (value : ℤ)
  | float (value : Float64)
  | text (value : String)
  /-- A time in RFC 3339 notation, given by its nanoseconds and its zone in minutes. -/
  | time (nanoseconds zone : ℤ)
  | array (items : List Json)
  | object (fields : List (String × Json))

namespace Json

-- equality of trees is decided along their structure
mutual

def decEq : (left right : Json) → Decidable (left = right)
  | null, other => match other with
    | null => isTrue rfl
    | bool _ | number _ | float _ | text _ | time _ _ | array _ | object _ => isFalse nofun
  | bool value, other => match other with
    | bool again => decidable_of_iff (value = again) (by simp)
    | null | number _ | float _ | text _ | time _ _ | array _ | object _ => isFalse nofun
  | number value, other => match other with
    | number again => decidable_of_iff (value = again) (by simp)
    | null | bool _ | float _ | text _ | time _ _ | array _ | object _ => isFalse nofun
  | float value, other => match other with
    | float again => decidable_of_iff (value = again) (by simp)
    | null | bool _ | number _ | text _ | time _ _ | array _ | object _ => isFalse nofun
  | text value, other => match other with
    | text again => decidable_of_iff (value = again) (by simp)
    | null | bool _ | number _ | float _ | time _ _ | array _ | object _ => isFalse nofun
  | time nanoseconds zone, other => match other with
    | time again place => decidable_of_iff (nanoseconds = again ∧ zone = place) (by simp)
    | null | bool _ | number _ | float _ | text _ | array _ | object _ => isFalse nofun
  | array items, other => match other with
    | array again =>
      have := decEqItems items again
      decidable_of_iff (items = again) (by simp)
    | null | bool _ | number _ | float _ | text _ | time _ _ | object _ => isFalse nofun
  | object fields, other => match other with
    | object again =>
      have := decEqFields fields again
      decidable_of_iff (fields = again) (by simp)
    | null | bool _ | number _ | float _ | text _ | time _ _ | array _ => isFalse nofun

def decEqItems : (left right : List Json) → Decidable (left = right)
  | [], [] => isTrue rfl
  | [], _ :: _ => isFalse nofun
  | _ :: _, [] => isFalse nofun
  | first :: rest, second :: others =>
    have := decEq first second
    have := decEqItems rest others
    decidable_of_iff (first = second ∧ rest = others) (by simp)

def decEqFields : (left right : List (String × Json)) → Decidable (left = right)
  | [], [] => isTrue rfl
  | [], _ :: _ => isFalse nofun
  | _ :: _, [] => isFalse nofun
  | (name, value) :: rest, (other, again) :: others =>
    have := decEq value again
    have := decEqFields rest others
    decidable_of_iff (name = other ∧ value = again ∧ rest = others) (by simp [and_assoc])

end

instance : DecidableEq Json := decEq

/-- The fields of an object under construction. -/
abbrev Fields := List (String × Json)

def field (name : String) (value : Json) : Fields :=
  [(name, value)]

/-- A text field with `omitempty`. -/
def optionalText (name value : String) : Fields :=
  if value = "" then [] else field name (.text value)

/-- A boolean field with `omitempty`. -/
def optionalBool (name : String) (value : Bool) : Fields :=
  if value then field name (.bool value) else []

/-- A slice which was appended to a nil slice. -/
def ofSlice {Item : Type} (encode : Item → Json) (items : List Item) : Json :=
  if items.isEmpty then .null else .array (items.map encode)

theorem ofSlice_inj {Item : Type} {encode : Item → Json} (injective : Function.Injective encode)
    {first second : List Item} (same : ofSlice encode first = ofSlice encode second) :
    first = second := by
  cases first <;> cases second <;>
    simp_all [ofSlice, injective.eq_iff, (List.map_injective_iff.mpr injective).eq_iff]

/-- A slice field with `omitempty`. -/
def optionalSlice {Item : Type} (name : String) (encode : Item → Json) (items : List Item) :
    Fields :=
  if items.isEmpty then [] else field name (.array (items.map encode))

/-- A map with text keys, written in the order of its keys. -/
def ofMap {Value : Type} (encode : Value → Json) (table : GoMap String Value) : Json :=
  let sorted := table.entries.insertionSort fun left right => left.1 ≤ right.1
  .object (sorted.map fun entry => (entry.1, encode entry.2))

def lookup (name : String) : Json → Option Json
  | object fields => (fields.find? fun entry => entry.1 = name).map Prod.snd
  | _ => none

@[simp]
theorem lookup_append (name : String) (first second : Fields) :
    lookup name (object (first ++ second)) =
      (lookup name (object first)).or (lookup name (object second)) := by
  simp only [lookup, List.find?_append]
  cases first.find? fun entry => entry.1 = name <;> rfl

@[simp]
theorem lookup_field (name other : String) (value : Json) :
    lookup name (object (field other value)) = if other = name then some value else none := by
  by_cases same : other = name <;> simp [lookup, field, same]

@[simp]
theorem lookup_optionalText (name other value : String) :
    lookup name (object (optionalText other value)) =
      if other = name ∧ value ≠ "" then some (text value) else none := by
  by_cases empty : value = "" <;> by_cases same : other = name <;>
    simp [lookup, optionalText, field, empty, same]

@[simp]
theorem lookup_optionalSlice {Item : Type} (name other : String) (encode : Item → Json)
    (items : List Item) :
    lookup name (object (optionalSlice other encode items)) =
      if other = name ∧ items ≠ [] then some (array (items.map encode)) else none := by
  by_cases empty : items = [] <;> by_cases same : other = name <;>
    simp [lookup, optionalSlice, field, empty, same]

variable {name : String} {value : Json}

/-- Among fields with distinct names, a name leads to its value. -/
theorem lookup_eq_some_iff {fields : Fields} (distinct : (fields.map Prod.fst).Nodup) :
    lookup name (object fields) = some value ↔ (name, value) ∈ fields := by
  simp only [lookup, Option.map_eq_some_iff, Prod.exists]
  constructor
  · rintro ⟨found, again, eq, rfl⟩
    have same : found = name := by simpa using List.find?_some eq
    exact same ▸ List.mem_of_find?_eq_some eq
  · intro member
    have present : (fields.find? fun entry => entry.1 = name).isSome :=
      List.find?_isSome.mpr ⟨(name, value), member, decide_eq_true rfl⟩
    obtain ⟨⟨other, found⟩, eq⟩ := Option.isSome_iff_exists.mp present
    have same : other = name := by simpa using List.find?_some eq
    have foundMem := List.mem_of_find?_eq_some eq
    subst same
    exact ⟨other, found, eq, congrArg Prod.snd
      (List.inj_on_of_nodup_map distinct foundMem member rfl)⟩

section Maps

variable {Value Other : Type} {encode : Value → Json} {again : Other → Json}

/-- The fields of a map before they are sorted. -/
theorem ofMap_eq (encode : Value → Json) (table : GoMap String Value) :
    ofMap encode table = object ((table.entries.map fun entry =>
      (entry.1, encode entry.2)).insertionSort fun left right => left.1 ≤ right.1) := by
  rw [ofMap, List.map_insertionSort _ (fun left right : String × Json => left.1 ≤ right.1)]
  intro left _ right _
  rfl

theorem nodup_map_fields (encode : Value → Json) (table : GoMap String Value) :
    ((table.entries.map fun entry => (entry.1, encode entry.2)).map Prod.fst).Nodup := by
  rw [List.map_map]
  exact table.nodupKeys

theorem mem_map_fields {table : GoMap String Value} :
    (name, value) ∈ table.entries.map (fun entry => (entry.1, encode entry.2)) ↔
      (table.get? name).map encode = some value := by
  simp only [List.mem_map, Prod.mk.injEq, Option.map_eq_some_iff]
  constructor
  · rintro ⟨⟨key, found⟩, entry, rfl, rfl⟩
    exact ⟨found, GoMap.mem_entries_iff.mp entry, rfl⟩
  · rintro ⟨found, eq, rfl⟩
    exact ⟨⟨name, found⟩, GoMap.mem_entries_iff.mpr eq, rfl, rfl⟩

theorem ofMap_congr {first : GoMap String Value} {second : GoMap String Other}
    (same : ∀ key, (first.get? key).map encode = (second.get? key).map again) :
    ofMap encode first = ofMap again second := by
  have distinct := nodup_map_fields encode first
  rw [ofMap_eq, ofMap_eq]
  refine congrArg object (insertionSort_eq_of_perm Prod.fst ?_ ?_)
  · refine (List.perm_ext_iff_of_nodup distinct.of_map
      (nodup_map_fields again second).of_map).mpr ?_
    rintro ⟨name, value⟩
    rw [mem_map_fields, mem_map_fields, same]
  · exact fun left leftMem right rightMem eq =>
      List.inj_on_of_nodup_map distinct leftMem rightMem eq

theorem lookup_ofMap (encode : Value → Json) (table : GoMap String Value) (name : String) :
    lookup name (ofMap encode table) = (table.get? name).map encode := by
  have perm := List.perm_insertionSort (fun left right : String × Json => left.1 ≤ right.1)
    (table.entries.map fun entry => (entry.1, encode entry.2))
  have distinct := ((perm.map Prod.fst).nodup_iff).mpr (nodup_map_fields encode table)
  apply Option.ext
  intro value
  rw [ofMap_eq]
  exact (lookup_eq_some_iff distinct).trans (perm.mem_iff.trans mem_map_fields)

end Maps

end Json

/-- A digest of canonical encodings, as hexadecimal text. -/
structure Digest where
  hex : Json → String
  length_hex : ∀ value, (hex value).length = 64

instance : Inhabited Digest :=
  ⟨⟨fun _ => String.ofList (List.replicate 64 '0'), fun _ => by decide⟩⟩

/-- The text form in which digests are stored and compared. -/
def Digest.hashValue (digest : Digest) (value : Json) : String :=
  "sha256:" ++ digest.hex value

/-- Where the digest has no collision, two encodings have one hash when they are equal. -/
theorem Digest.hashValue_eq_iff {digest : Digest} {documents : Set Json}
    (collisionFree : Set.InjOn digest.hex documents) {first second : Json}
    (firstMem : first ∈ documents) (secondMem : second ∈ documents) :
    digest.hashValue first = digest.hashValue second ↔ first = second := by
  constructor
  · intro same
    exact collisionFree firstMem secondMem ((String.append_right_inj _).mp same)
  · intro same
    rw [same]

/-- A digest which tells two documents apart from each other and from the rest. -/
def Digest.telling (one another : Json) : Digest where
  hex value := String.ofList (List.replicate 64
    (if value = one then 'a' else if value = another then 'b' else 'c'))
  length_hex value := by simp

theorem Digest.telling_injOn {one another : Json} (distinct : one ≠ another) :
    Set.InjOn (Digest.telling one another).hex {one, another} := by
  have apart : (Digest.telling one another).hex one ≠ (Digest.telling one another).hex another := by
    simp [Digest.telling, distinct.symm]
  rintro first (rfl | rfl) second (rfl | rfl) same
  · rfl
  · exact absurd same apart
  · exact absurd same.symm apart
  · rfl

end Themisy
