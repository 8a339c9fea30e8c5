import Mathlib.Data.List.Basic
import Mathlib.Data.String.Basic
import Themisy.Encoding.Float64

/-!
# Text functions of Go's standard library

`strings.TrimSpace` as far as it decides whether a text is blank, the quoting of
`%q`, `hex.EncodeToString`, and `time.ParseDuration`. A duration is a number of
nanoseconds.
-/

namespace Themisy.GoText

/-- The characters which `unicode.IsSpace` accepts. -/
def isSpace (character : Char) : Bool :=
  let code := character.toNat
  (9 ≤ code ∧ code ≤ 13) ∨ code = 0x20 ∨ code = 0x85 ∨ code = 0xA0 ∨ code = 0x1680 ∨
    (0x2000 ≤ code ∧ code ≤ 0x200A) ∨ code = 0x2028 ∨ code = 0x2029 ∨ code = 0x202F ∨
    code = 0x205F ∨ code = 0x3000

/-- The Go expression `strings.TrimSpace(text) == ""`. -/
def isBlank (text : String) : Bool :=
  text.toList.all isSpace

def escape (character : Char) : List Char :=
  match character with
  | '"' => ['\\', '"']
  | '\\' => ['\\', '\\']
  | '\n' => ['\\', 'n']
  | '\r' => ['\\', 'r']
  | '\t' => ['\\', 't']
  | other => [other]

/-- The verb `%q`, for texts of printable characters and common escapes. -/
def quote (text : String) : String :=
  String.ofList ('"' :: (text.toList.flatMap escape ++ ['"']))

/-- The verb `%v` of a slice of texts. -/
def showSlice (texts : List String) : String :=
  "[" ++ " ".intercalate texts ++ "]"

def hexDigit (number : ℕ) : Char :=
  ['0', '1', '2', '3', '4', '5', '6', '7', '8', '9', 'a', 'b', 'c', 'd', 'e', 'f'].getD number '0'

/-- The Go function `hex.EncodeToString`. -/
def hexEncode (bytes : List UInt8) : String :=
  String.ofList (bytes.flatMap fun byte =>
    [hexDigit (byte.toNat / 16), hexDigit (byte.toNat % 16)])

theorem hexDigit_isAlphanum (number : ℕ) : (hexDigit number).isAlphanum = true := by
  have digits : ['0', '1', '2', '3', '4', '5', '6', '7', '8', '9', 'a', 'b', 'c', 'd',
      'e', 'f'].all Char.isAlphanum = true := by
    decide
  unfold hexDigit
  rw [List.getD_eq_getElem?_getD]
  cases found : ['0', '1', '2', '3', '4', '5', '6', '7', '8', '9', 'a', 'b', 'c', 'd',
      'e', 'f'][number]? with
  | none => rfl
  | some digit => exact List.all_eq_true.mp digits digit (List.mem_of_getElem? found)

theorem isAlphanum_of_mem_hexEncode {bytes : List UInt8} {character : Char}
    (member : character ∈ (hexEncode bytes).toList) : character.isAlphanum = true := by
  simp only [hexEncode, String.toList_ofList, List.mem_flatMap, List.mem_cons, List.not_mem_nil,
    or_false] at member
  obtain ⟨byte, -, rfl | rfl⟩ := member
  · exact hexDigit_isAlphanum _
  · exact hexDigit_isAlphanum _

/-- Two lists with separators in them are split in the same way, or one of them later. -/
theorem append_cons_eq_append_cons_iff {Item : Type} {separator : Item}
    {first second left right : List Item} :
    first ++ separator :: left = second ++ separator :: right ↔
      (first = second ∧ left = right) ∨
      (∃ middle, second = first ++ separator :: middle ∧ left = middle ++ separator :: right) ∨
      ∃ middle, first = second ++ separator :: middle ∧ right = middle ++ separator :: left := by
  constructor
  · intro same
    rcases List.append_eq_append_iff.mp same with ⟨rest, rfl, eq⟩ | ⟨rest, rfl, eq⟩
    all_goals
      cases rest with
      | nil => simp_all
      | cons head middle =>
        obtain ⟨rfl, rfl⟩ : separator = head ∧ _ := List.cons.inj eq
        simp
  · rintro (⟨rfl, rfl⟩ | ⟨middle, rfl, rfl⟩ | ⟨middle, rfl, rfl⟩) <;> simp

/-- Two texts joined by a slash determine the parts, up to the slashes inside of them. -/
theorem join_eq_join_iff {first second left right : String} :
    first ++ "/" ++ left = second ++ "/" ++ right ↔
      (first = second ∧ left = right) ∨
      (∃ middle, second = first ++ "/" ++ middle ∧ left = middle ++ "/" ++ right) ∨
      ∃ middle, first = second ++ "/" ++ middle ∧ right = middle ++ "/" ++ left := by
  have slash : "/".toList = ['/'] := rfl
  have texts : ∀ condition : List Char → Prop,
      (∃ middle, condition middle) ↔ ∃ middle : String, condition middle.toList := fun condition =>
    ⟨fun ⟨middle, holds⟩ => ⟨String.ofList middle, by rwa [String.toList_ofList]⟩,
      fun ⟨middle, holds⟩ => ⟨middle.toList, holds⟩⟩
  simp only [← String.toList_inj, String.toList_append, slash, List.append_assoc,
    List.singleton_append, append_cons_eq_append_cons_iff, texts]

/-- Consume leading digits, failing when the number exceeds 2^63. -/
def leadingInt : List Char → ℕ → Option (ℕ × List Char)
  | [], number => some (number, [])
  | character :: rest, number =>
    if character.isDigit then
      if number > 2 ^ 63 / 10 then none
      else
        let next := number * 10 + (character.toNat - '0'.toNat)
        if next > 2 ^ 63 then none else leadingInt rest next
    else some (number, character :: rest)

/-- Consume leading digits of a fraction; digits beyond the precision are dropped. -/
def leadingFraction : List Char → ℕ → ℕ → Bool → ℕ × ℕ × List Char
  | [], number, scale, _ => (number, scale, [])
  | character :: rest, number, scale, overflow =>
    if character.isDigit then
      let next := number * 10 + (character.toNat - '0'.toNat)
      if overflow ∨ number > (2 ^ 63 - 1) / 10 ∨ next > 2 ^ 63 then
        leadingFraction rest number scale true
      else leadingFraction rest next (scale * 10) false
    else (number, scale, character :: rest)

/-- `uint64(float64(number) * (float64(unit) / scale))` -/
def fractionOf (unit number scale : ℕ) : ℕ :=
  ⌊Float64.nearest (Float64.nearest number * Float64.nearest (unit / scale))⌋.toNat

/-- The length of a unit in nanoseconds. -/
def unitOf (name : String) : Option ℕ :=
  if name = "ns" then some 1
  else if name = "us" ∨ name = "µs" ∨ name = "μs" then some 1000
  else if name = "ms" then some 1000000
  else if name = "s" then some 1000000000
  else if name = "m" then some 60000000000
  else if name = "h" then some 3600000000000
  else none

def isUnitCharacter (character : Char) : Bool :=
  character ≠ '.' ∧ ¬character.isDigit

/-- Read one number with its unit; the result is its length and the rest of the text. -/
def parseTerm (original : String) (text : List Char) : Except String (ℕ × List Char) :=
  let invalid : Except String (ℕ × List Char) :=
    .error ("time: invalid duration " ++ quote original)
  match leadingInt text 0 with
  | none => invalid
  | some (number, afterInt) =>
    let (fraction, scale, afterFraction) :=
      match afterInt with
      | '.' :: digits => leadingFraction digits 0 1 false
      | _ => (0, 1, afterInt)
    let hasInt := afterInt.length ≠ text.length
    let hasFraction := afterFraction.length + 1 < afterInt.length
    if ¬hasInt ∧ ¬hasFraction then invalid
    else
      let unitName := String.ofList (afterFraction.takeWhile isUnitCharacter)
      let rest := afterFraction.dropWhile isUnitCharacter
      if unitName = "" then .error ("time: missing unit in duration " ++ quote original)
      else
        match unitOf unitName with
        | none =>
          .error ("time: unknown unit " ++ quote unitName ++ " in duration " ++ quote original)
        | some unit =>
          if number > 2 ^ 63 / unit then invalid
          else
            let length := number * unit + if fraction > 0 then fractionOf unit fraction scale else 0
            if length > 2 ^ 63 then invalid else .ok (length, rest)

/-- Sum the terms of a duration. Every term consumes a character, so the length bounds them. -/
def parseTerms (original : String) : ℕ → List Char → ℕ → Except String ℕ
  | _, [], total => .ok total
  | 0, _ :: _, _ => .error ("time: invalid duration " ++ quote original)
  | fuel + 1, text, total =>
    match parseTerm original text with
    | .error error => .error error
    | .ok (length, rest) =>
      if total + length > 2 ^ 63 then
        .error ("time: invalid duration " ++ quote original)
      else parseTerms original fuel rest (total + length)

/-- The Go function `time.ParseDuration`. -/
def parseDuration (original : String) : Except String ℤ :=
  let (negative, text) :=
    match original.toList with
    | '-' :: rest => (true, rest)
    | '+' :: rest => (false, rest)
    | characters => (false, characters)
  if text = ['0'] then .ok 0
  else if text = [] then .error ("time: invalid duration " ++ quote original)
  else
    match parseTerms original text.length text 0 with
    | .error error => .error error
    | .ok total =>
      if negative then .ok (-total)
      else if total > 2 ^ 63 - 1 then .error ("time: invalid duration " ++ quote original)
      else .ok total

example : parseDuration "1h2m3.5s" = .ok 3723500000000 := by decide +kernel

example : parseDuration "0.00100000000000us" = .ok 0 := by decide +kernel

end Themisy.GoText
