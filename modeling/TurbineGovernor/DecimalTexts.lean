import Mathlib

/-!
# Numbers in texts

A text is scanned as blanks, a sign and digits. `written` is the integer that
the whole text stands for; `atoi` reads a beginning of it and reports nothing,
`toUInt` answers 0 for everything that it cannot represent.
-/

namespace DecimalTexts

abbrev Text : Type := List Char

def isSpace (c : Char) : Bool := c ∈ [' ', '\t', '\n', '\x0b', '\x0c', '\r']

structure Numeral where
  negative : Bool
  digits : Text
  rest : Text

def scanDigits (negative : Bool) (text : Text) : Numeral :=
  ⟨negative, text.takeWhile Char.isDigit, text.dropWhile Char.isDigit⟩

def scan (text : Text) : Numeral :=
  match text.dropWhile isSpace with
  | '-' :: rest => scanDigits true rest
  | '+' :: rest => scanDigits false rest
  | rest => scanDigits false rest

def natValue (digits : Text) : Nat := digits.foldl (fun v c => 10 * v + (c.toNat - '0'.toNat)) 0

def Numeral.value (n : Numeral) : Int :=
  if n.negative then -natValue n.digits else natValue n.digits

/-- The integer that the text is, blanks around it apart. -/
def written (text : Text) : Option Int :=
  if (scan text).digits ≠ [] ∧ (scan text).rest.all isSpace then some (scan text).value else none

/-- The integer that the text is, when it lies below a bound. -/
def writtenBelow (bound : Int) (text : Text) : Option Int :=
  (written text).filter (fun n => decide (0 ≤ n ∧ n < bound))

theorem value_of_written {text : Text} {n : Int} (h : written text = some n) :
    (scan text).value = n := by
  rw [written] at h
  split at h
  · exact Option.some.inj h
  · cases h

theorem writtenBelow_eq_some {bound : Int} {text : Text} {n : Int} :
    writtenBelow bound text = some n ↔ written text = some n ∧ 0 ≤ n ∧ n < bound := by
  rw [writtenBelow, Option.filter_eq_some_iff, decide_eq_true_iff]

/-- The size of a `long`. -/
inductive LongWidth where
  | bits32
  | bits64
  deriving DecidableEq

def LongWidth.LONG_MAX : LongWidth → Int
  | bits32 => 2 ^ 31 - 1
  | bits64 => 2 ^ 63 - 1

def strtol (w : LongWidth) (text : Text) : Int :=
  if (scan text).value > w.LONG_MAX then w.LONG_MAX
  else if (scan text).value < -w.LONG_MAX - 1 then -w.LONG_MAX - 1
  else (scan text).value

/-- A text without digits is 0, what follows the digits is not looked at, and the
conversion to `int` keeps the low bits. -/
def atoi (w : LongWidth) (text : Text) : BitVec 32 := BitVec.ofInt 32 (strtol w text)

theorem strtol_of_written {w : LongWidth} {text : Text} {n : Int} (h : written text = some n)
    (hlow : -w.LONG_MAX - 1 ≤ n) (hhigh : n ≤ w.LONG_MAX) : strtol w text = n := by
  rw [strtol, value_of_written h, if_neg (not_lt.mpr hhigh), if_neg (not_lt.mpr hlow)]

theorem int_le_LONG_MAX (w : LongWidth) : 2 ^ 31 - 1 ≤ w.LONG_MAX := by
  cases w <;> decide

/-- Within the range of `int` the text is read as it is written. -/
theorem atoi_of_written {w : LongWidth} {text : Text} {n : Int} (h : written text = some n)
    (hlow : -2 ^ 31 ≤ n) (hhigh : n < 2 ^ 31) : atoi w text = BitVec.ofInt 32 n := by
  have hmax := int_le_LONG_MAX w
  rw [atoi, strtol_of_written h (by omega) (by omega)]

theorem toInt_atoi {w : LongWidth} {text : Text} {n : Int} (h : written text = some n)
    (hlow : -2 ^ 31 ≤ n) (hhigh : n < 2 ^ 31) : (atoi w text).toInt = n := by
  rw [atoi_of_written h hlow hhigh]
  exact BitVec.toInt_ofInt_eq_self (by decide) hlow hhigh

theorem setWidth_atoi {w : LongWidth} {text : Text} {n : Int}
    (h : writtenBelow (2 ^ 8) text = some n) :
    (atoi w text).setWidth 8 = BitVec.ofInt 8 n := by
  obtain ⟨hwritten, hlow, hhigh⟩ := writtenBelow_eq_some.mp h
  rw [atoi_of_written hwritten (by omega) (by omega)]
  apply BitVec.eq_of_toNat_eq
  rw [BitVec.toNat_setWidth, BitVec.toNat_ofInt, BitVec.toNat_ofInt]
  omega

theorem strtol_unsigned (w : LongWidth) {text : Text} {n : Int}
    (h : writtenBelow (2 ^ 32) text = some n) : strtol w text = min n w.LONG_MAX := by
  obtain ⟨hwritten, hlow, hhigh⟩ := writtenBelow_eq_some.mp h
  have hmax := int_le_LONG_MAX w
  rw [strtol, value_of_written hwritten]
  by_cases hfits : n ≤ w.LONG_MAX
  · rw [if_neg (not_lt.mpr hfits), if_neg (by omega), min_eq_left hfits]
  · rw [if_pos (not_le.mp hfits), min_eq_right (le_of_not_ge hfits)]

theorem ofInt_inj {n m : Int} (hn : 0 ≤ n ∧ n < 2 ^ 32) (hm : 0 ≤ m ∧ m < 2 ^ 32) :
    BitVec.ofInt 32 n = BitVec.ofInt 32 m ↔ n = m := by
  constructor
  · intro heq
    have hnat := congrArg BitVec.toNat heq
    rw [BitVec.toNat_ofInt, BitVec.toNat_ofInt] at hnat
    omega
  · rintro rfl
    rfl

/-- A `long` of 64 bits keeps the whole range of an unsigned `int`, one of 32
bits its lower half. -/
theorem atoi_unsigned_iff (w : LongWidth) {text : Text} {n m : Int}
    (h : writtenBelow (2 ^ 32) text = some n) (hm : 0 ≤ m ∧ m < 2 ^ 32) :
    atoi w text = BitVec.ofInt 32 m ↔ min n w.LONG_MAX = m := by
  obtain ⟨_, hlow, hhigh⟩ := writtenBelow_eq_some.mp h
  have hmax := int_le_LONG_MAX w
  rw [atoi, strtol_unsigned w h]
  exact ofInt_inj (by omega) hm

def toUInt (text : Text) : BitVec 32 :=
  match writtenBelow (2 ^ 32) text with
  | some n => BitVec.ofInt 32 n
  | none => 0

end DecimalTexts
