import Mathlib.Data.List.TakeWhile
import Mathlib.Tactic

/-!
# Strings and number conversions of the C++ standard library

A `std::string` is its list of bytes, one `Char` for each byte; a byte of value
at least 128 is an ordinary character of the "C" locale.
-/

namespace LeaderlessDatastore

abbrev Text := List Char

/-- `'\e'`, which ends the text of a message. -/
def escape : Char := Char.ofNat 27

def nul : Char := Char.ofNat 0

namespace Text

/-- `isspace` in the "C" locale. -/
def isSpace (c : Char) : Bool :=
  c = ' ' || c = '\t' || c = '\n' || c = '\x0b' || c = '\x0c' || c = '\r'

/-- `std::to_string`. -/
def ofInt : ℤ → Text
  | .ofNat n => Nat.toDigits 10 n
  | .negSucc n => '-' :: Nat.toDigits 10 (n + 1)

/-- The two exceptions of `stoi` and `stoll`, both derived from `std::logic_error`. -/
inductive ConversionError
  | invalidArgument
  | outOfRange
  deriving DecidableEq

/-- `strtol` in base ten: blanks, a sign, the longest run of digits; the rest is ignored. -/
def strtol (s : Text) : Option ℤ :=
  let digits (t : Text) := t.takeWhile Char.isDigit
  let value (t : Text) : Option ℤ :=
    if digits t = [] then none else some (Nat.ofDigitChars 10 (digits t) 0)
  match s.dropWhile isSpace with
  | '-' :: t => (value t).map fun n => -n
  | '+' :: t => value t
  | t => value t

/-- Conversion to a signed type of `bits` bits. -/
def toSigned (bits : ℕ) (s : Text) : Except ConversionError ℤ :=
  match strtol s with
  | none => .error .invalidArgument
  | some n => if -2 ^ (bits - 1) ≤ n ∧ n < 2 ^ (bits - 1) then .ok n else .error .outOfRange

def stoi (s : Text) : Except ConversionError ℤ := toSigned 32 s

def stoll (s : Text) : Except ConversionError ℤ := toSigned 64 s

/-! ## Decimal numerals -/

theorem isDigit_of_mem_toDigits {n : ℕ} {c : Char} (h : c ∈ Nat.toDigits 10 n) : c.isDigit :=
  Nat.isDigit_of_mem_toDigits (by decide) (by decide) h

theorem not_isSpace_of_isDigit {c : Char} (h : c.isDigit) : isSpace c = false := by
  by_contra hs
  simp only [isSpace, Bool.not_eq_false, Bool.or_eq_true, decide_eq_true_eq] at hs
  rcases hs with ((((rfl | rfl) | rfl) | rfl) | rfl) | rfl <;> simp at h

theorem strtol_of_digits {s : Text} (h : ∀ c ∈ s, c.isDigit) :
    strtol s = if s = [] then none else some ((Nat.ofDigitChars 10 s 0 : ℕ) : ℤ) := by
  cases s with
  | nil => rfl
  | cons c s =>
    have hc : c.isDigit := h c List.mem_cons_self
    have hdrop : (c :: s).dropWhile isSpace = c :: s := by
      rw [List.dropWhile_cons_of_neg]
      simp [not_isSpace_of_isDigit hc]
    have htake : (c :: s).takeWhile Char.isDigit = c :: s := List.takeWhile_eq_self_iff.mpr h
    unfold strtol
    rw [hdrop]
    split
    · simp_all
    · simp_all
    · simp [htake]

theorem toSigned_of_digits {bits : ℕ} {s : Text} (h : ∀ c ∈ s, c.isDigit) :
    toSigned bits s =
      if s = [] then .error .invalidArgument
      else if (Nat.ofDigitChars 10 s 0 : ℤ) < 2 ^ (bits - 1) then
        .ok (Nat.ofDigitChars 10 s 0 : ℤ)
      else .error .outOfRange := by
  rw [toSigned, strtol_of_digits h]
  split_ifs with hempty hlt
  · rfl
  · have hneg : (-2 ^ (bits - 1) : ℤ) ≤ Nat.ofDigitChars 10 s 0 := by
      have : (0 : ℤ) < 2 ^ (bits - 1) := by positivity
      omega
    exact if_pos ⟨hneg, hlt⟩
  · exact if_neg fun h => hlt h.2

/-- A numeral is read back whole. -/
theorem toSigned_ofInt {bits : ℕ} {n : ℤ} (h0 : 0 ≤ n) (h : n < 2 ^ (bits - 1)) :
    toSigned bits (ofInt n) = .ok n := by
  obtain ⟨m, rfl⟩ := Int.eq_ofNat_of_zero_le h0
  have hm : ofInt (m : ℤ) = Nat.toDigits 10 m := rfl
  rw [hm, toSigned_of_digits fun c => isDigit_of_mem_toDigits, if_neg Nat.toDigits_ne_nil]
  simp [h]

theorem stoi_ofInt {n : ℤ} (h0 : 0 ≤ n) (h : n < 2 ^ 31) : stoi (ofInt n) = .ok n :=
  toSigned_ofInt h0 h

example : stoi " -42;".toList = .ok (-42) := by decide

end Text
end LeaderlessDatastore
