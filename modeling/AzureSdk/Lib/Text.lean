import Mathlib

/-!
# Text as Rust's string functions read it

A `&str` as its characters. `str::split` with a character is core's `List.splitOn`;
`split_once` and the decimal integer parse (`from_str_radix` in base 10: an optional
`+`, or `-` for a signed type, then ASCII digits whose value must fit the type) are
defined here, with `Display` of integers as `Nat.toDigits`. Text an integer is
displayed as parses back to it, and contains no separator.
-/

namespace Text

set_option autoImplicit false

/-- `str::split_once`: what stands before the first separator and what after it. -/
def splitOnce (sep : Char) : List Char → Option (List Char × List Char)
  | [] => none
  | c :: rest =>
      if c = sep then some ([], rest) else (splitOnce sep rest).map fun parts => (c :: parts.1, parts.2)

def digitsValue (digits : List Char) : Option Nat :=
  if !digits.isEmpty && digits.all Char.isDigit then some (Nat.ofDigitChars 10 digits 0) else none

/-- `from_str_radix(text, 10)` for an integer type whose values are `lo ..= hi`. -/
def parseInteger (signed : Bool) (lo hi : Int) : List Char → Option Int
  | [] => none
  | c :: rest =>
      if (c = '+' ∨ c = '-') ∧ rest = [] then none
      else
        let (positive, digits) : Bool × List Char :=
          if c = '+' then (true, rest) else if c = '-' ∧ signed then (false, rest) else (true, c :: rest)
        (digitsValue digits).bind fun magnitude =>
          let value : Int := if positive then magnitude else -magnitude
          if lo ≤ value ∧ value ≤ hi then some value else none

/-- `str::parse::<u64>`. -/
def parseU64 (text : List Char) : Option Nat := (parseInteger false 0 (2 ^ 64 - 1) text).map Int.toNat

/-- `str::parse::<i64>`. -/
def parseI64 (text : List Char) : Option Int := parseInteger true (-2 ^ 63) (2 ^ 63 - 1) text

/-- `Display` of an unsigned integer. -/
def showNat (n : Nat) : List Char := Nat.toDigits 10 n

/-- `Display` of a signed integer. -/
def showInt (n : Int) : List Char :=
  if n < 0 then '-' :: Nat.toDigits 10 n.natAbs else Nat.toDigits 10 n.toNat

theorem splitOnce_append {sep : Char} {before : List Char} (absent : sep ∉ before) (after : List Char) :
    splitOnce sep (before ++ sep :: after) = some (before, after) := by
  induction before with
  | nil => simp [splitOnce]
  | cons c rest induction =>
      have other : c ≠ sep := fun same => absent (same ▸ List.mem_cons_self)
      simp only [List.cons_append, splitOnce, if_neg other,
        induction (fun member => absent (List.mem_cons_of_mem _ member)), Option.map_some]

theorem isDigit_of_mem_showNat {n : Nat} {c : Char} (member : c ∈ showNat n) : c.isDigit = true :=
  Nat.isDigit_of_mem_toDigits (by decide) (by decide) member

theorem not_mem_showNat {n : Nat} {c : Char} (other : c.isDigit = false) : c ∉ showNat n :=
  fun member => by simp [isDigit_of_mem_showNat member] at other

theorem not_mem_showInt {n : Int} {c : Char} (other : c.isDigit = false) (notMinus : c ≠ '-') :
    c ∉ showInt n := by
  unfold showInt
  split_ifs
  · rintro (_ | ⟨_, member⟩)
    · exact notMinus rfl
    · exact not_mem_showNat other member
  · exact not_mem_showNat other

theorem digitsValue_showNat (n : Nat) : digitsValue (showNat n) = some n := by
  have nonempty : (showNat n).isEmpty = false := List.isEmpty_eq_false_iff.mpr Nat.toDigits_ne_nil
  have digits : (showNat n).all Char.isDigit = true :=
    List.all_eq_true.mpr fun _ member => isDigit_of_mem_showNat member
  simp only [digitsValue, nonempty, digits, Bool.not_false, Bool.and_self, if_true]
  exact congrArg some Nat.ofDigitChars_ten_toDigits

theorem parseInteger_of_digits (signed : Bool) (lo hi : Int) {digits : List Char}
    (nonempty : digits ≠ []) (allDigits : ∀ c ∈ digits, c.isDigit = true) :
    parseInteger signed lo hi digits = (digitsValue digits).bind fun magnitude =>
      if lo ≤ (magnitude : Int) ∧ (magnitude : Int) ≤ hi then some (magnitude : Int) else none := by
  obtain ⟨c, rest, rfl⟩ := List.exists_cons_of_ne_nil nonempty
  have first := allDigits c List.mem_cons_self
  have notPlus : c ≠ '+' := by rintro rfl; simp at first
  have notMinus : c ≠ '-' := by rintro rfl; simp at first
  simp only [parseInteger, notPlus, notMinus, false_or, false_and, if_false, ite_true]

theorem parseInteger_showNat (signed : Bool) {lo hi : Int} {n : Nat} (low : lo ≤ n) (high : (n : Int) ≤ hi) :
    parseInteger signed lo hi (showNat n) = some (n : Int) := by
  have nonempty : showNat n ≠ [] := Nat.toDigits_ne_nil
  rw [parseInteger_of_digits signed lo hi nonempty (fun _ member => isDigit_of_mem_showNat member),
    digitsValue_showNat]
  simp [low, high]

theorem parseInteger_showInt {lo hi n : Int} (low : lo ≤ n) (high : n ≤ hi) :
    parseInteger true lo hi (showInt n) = some n := by
  unfold showInt
  split_ifs with negative
  · -- the minus sign, then the magnitude's digits
    have digits : showNat n.natAbs ≠ [] := Nat.toDigits_ne_nil
    change parseInteger true lo hi ('-' :: showNat n.natAbs) = some n
    simp [parseInteger, digits, digitsValue_showNat, abs_of_neg negative, low, high]
  · have cast : ((n.toNat : Nat) : Int) = n := Int.toNat_of_nonneg (not_lt.mp negative)
    have shown := @parseInteger_showNat true lo hi n.toNat (by omega) (by omega)
    rwa [cast] at shown

theorem parseU64_showNat {n : Nat} (fits : n < 2 ^ 64) : parseU64 (showNat n) = some n := by
  rw [parseU64, parseInteger_showNat false (by omega) (by omega)]
  rfl

theorem parseI64_showInt {n : Int} (low : -2 ^ 63 ≤ n) (high : n < 2 ^ 63) :
    parseI64 (showInt n) = some n :=
  parseInteger_showInt low (by omega)

theorem parseInteger_bounds {signed : Bool} {lo hi : Int} {text : List Char} {value : Int}
    (parsed : parseInteger signed lo hi text = some value) : lo ≤ value ∧ value ≤ hi := by
  -- whatever sign and digits the first character selects, the range check decides
  have checked : ∀ (found : Option Nat) (shown : Nat → Int),
      (found.bind fun magnitude => if lo ≤ shown magnitude ∧ shown magnitude ≤ hi then
        some (shown magnitude) else none) = some value → lo ≤ value ∧ value ≤ hi := by
    intro found shown result
    obtain ⟨magnitude, -, inRange⟩ := Option.bind_eq_some_iff.mp result
    split_ifs at inRange with within
    cases inRange
    exact within
  cases text with
  | nil => cases parsed
  | cons c rest =>
      simp only [parseInteger] at parsed
      split_ifs at parsed
      all_goals first
        | cases parsed
        | exact checked _ _ parsed

theorem parseU64_lt {text : List Char} {value : Nat} (parsed : parseU64 text = some value) :
    value < 2 ^ 64 := by
  obtain ⟨wide, found, rfl⟩ := Option.map_eq_some_iff.mp parsed
  have := parseInteger_bounds found
  omega

theorem parseI64_bounds {text : List Char} {value : Int} (parsed : parseI64 text = some value) :
    -2 ^ 63 ≤ value ∧ value < 2 ^ 63 := by
  have := parseInteger_bounds parsed
  omega

theorem splitOnce_eq_some {sep : Char} {text before after : List Char}
    (split : splitOnce sep text = some (before, after)) : sep ∉ before ∧ text = before ++ sep :: after := by
  induction text generalizing before with
  | nil => cases split
  | cons c rest induction =>
      simp only [splitOnce] at split
      split_ifs at split with isSep
      · cases split
        simp [isSep]
      · obtain ⟨⟨first, second⟩, found, shaped⟩ := Option.map_eq_some_iff.mp split
        cases shaped
        obtain ⟨absent, whole⟩ := induction found
        exact ⟨by simp [absent, Ne.symm isSep], by rw [whole]; rfl⟩

/-- `char::is_whitespace`: the characters of Unicode's `White_Space` property. -/
def isWhitespace (c : Char) : Bool :=
  (0x9 ≤ c.toNat && c.toNat ≤ 0xD) || c.toNat == 0x20 || c.toNat == 0x85 || c.toNat == 0xA0 ||
    c.toNat == 0x1680 || (0x2000 ≤ c.toNat && c.toNat ≤ 0x200A) || c.toNat == 0x2028 ||
    c.toNat == 0x2029 || c.toNat == 0x202F || c.toNat == 0x205F || c.toNat == 0x3000

def trim (text : List Char) : List Char :=
  (text.dropWhile isWhitespace).rdropWhile isWhitespace

theorem isWhitespace_of_isDigit {c : Char} (digit : c.isDigit = true) : isWhitespace c = false := by
  simp only [Char.isDigit, Bool.and_eq_true, decide_eq_true_eq] at digit
  have low : 48 ≤ c.toNat := digit.1
  have high : c.toNat ≤ 57 := digit.2
  simp only [isWhitespace]
  generalize c.toNat = n at low high ⊢
  revert n
  decide

theorem trim_of_ends {text : List Char} (first : ∀ c ∈ text.head?, isWhitespace c = false)
    (last : ∀ c ∈ text.getLast?, isWhitespace c = false) : trim text = text := by
  have front : text.dropWhile isWhitespace = text := by
    rw [List.dropWhile_eq_self_iff]
    intro nonempty
    simp [first text[0] (by simp [List.head?_eq_getElem?])]
  rw [trim, front, List.rdropWhile_eq_self_iff]
  intro nonempty
  simp [last _ (List.getLast?_eq_some_getLast nonempty)]

theorem trim_sublist (text : List Char) : (trim text).Sublist text :=
  (List.rdropWhile_prefix _ _).sublist.trans (List.dropWhile_sublist _)

theorem head_trim (text : List Char) : ∀ c ∈ (trim text).head?, isWhitespace c = false := by
  intro c first
  have start := List.head?_dropWhile_not isWhitespace text
  -- the trim is a prefix of the text without its leading whitespace, so they start alike
  obtain ⟨rest, whole⟩ := List.rdropWhile_prefix isWhitespace (text.dropWhile isWhitespace)
  rw [trim] at first
  rw [← whole, List.head?_append, first] at start
  simpa using start

theorem not_mem_of_mem_splitOn {sep : Char} {text piece : List Char} (member : piece ∈ text.splitOn sep) :
    sep ∉ piece := by
  induction text generalizing piece with
  | nil =>
      rw [List.splitOn_nil, List.mem_singleton] at member
      simp [member]
  | cons c rest induction =>
      rw [List.splitOn_cons_eq_if_modifyHead] at member
      split_ifs at member with isSep
      · rcases List.mem_cons.mp member with rfl | later
        · simp
        · exact induction later
      · -- the first piece gains `c`, which is no separator; the others stay
        obtain ⟨first, others, split⟩ := List.exists_cons_of_ne_nil (List.splitOn_ne_nil sep rest)
        rw [split, List.modifyHead_cons] at member
        rcases List.mem_cons.mp member with rfl | later
        · have other : c ≠ sep := fun same => by simp [same] at isSep
          exact fun inside => (List.mem_cons.mp inside).elim (fun same => other same.symm)
            (induction (split ▸ List.mem_cons_self))
        · exact induction (split ▸ List.mem_cons_of_mem _ later)

end Text
