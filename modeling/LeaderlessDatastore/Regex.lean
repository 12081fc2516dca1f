import LeaderlessDatastore.Pattern
import LeaderlessDatastore.Text

/-!
# `Regex`

The regular expressions of the program, all with `regex::icase`.  The anchors `^` and
`$` say nothing in a match of the whole text and are left out.
-/

namespace LeaderlessDatastore

/-- Characters that `icase` does not tell apart. -/
def sameLetter (a b : Char) : Bool := a.toLower = b.toLower

/-- What `.` stands for. -/
def isDot (c : Char) : Bool := c ≠ '\n' && c ≠ '\r'

/-- `regex_match`, with the groups `sm[1]`, `sm[2]`, … of the first match. -/
def regexMatch (s : Text) (regex : Pattern Char) : Option (List Text) :=
  regex.exec sameLetter s

namespace Regex

/-- `\s*` -/
def space : Item Char := .run Text.isSpace true false

/-- `(.*?)` -/
def text : Item Char := .run isDot false true

/-- `(\d*)` -/
def digits : Item Char := .run Char.isDigit true true

def lit (word : String) : Item Char := .lit word.toList

def split : Pattern Char := [space, text, lit ";", space, text, space]

def ack : Pattern Char := [space, lit "ACK;", space, text, space]

def nack : Pattern Char := [space, lit "NACK;", space, text, space]

def value : Pattern Char := [space, lit "VALUE;", space, text, space]

def fetch : Pattern Char := [space, lit "FETCH;", space, lit "k:\"", text, lit "\"", space]

def fetchedValue : Pattern Char :=
  [space, lit "FETCHED_VALUE;", space, lit "k:\"", text, lit "\",", space, lit "v:\"", text,
    lit "\",", space, lit "ts:", digits, space]

def fetchedValueNull : Pattern Char :=
  [space, lit "FETCHED_VALUE;", space, lit "k:\"", text, lit "\",", space, lit "v:null", space]

def get : Pattern Char := [space, lit "GET;", space, lit "k:\"", text, lit "\"", space]

def globalAbort : Pattern Char :=
  [space, lit "GLOBAL_ABORT;", space, lit "tId:", digits, lit ",", space, lit "k:\"", text,
    lit "\"", space]

def globalCommit : Pattern Char :=
  [space, lit "GLOBAL_COMMIT;", space, lit "tId:", digits, lit ",", space, lit "k:\"", text,
    lit "\",", space, lit "v:\"", text, lit "\",", space, lit "ts:", digits, space]

def prepare : Pattern Char :=
  [space, lit "PREPARE;", space, lit "tId:", digits, lit ",", space, lit "k:\"", text,
    lit "\",", space, lit "v:\"", text, lit "\"", space]

def put : Pattern Char :=
  [space, lit "PUT;", space, lit "k:\"", text, lit "\",", space, lit "v:\"", text, lit "\"", space]

def repair : Pattern Char :=
  [space, lit "REPAIR;", space, lit "k:\"", text, lit "\",", space, lit "v:\"", text,
    lit "\",", space, lit "ts:", digits, space]

def sync : Pattern Char :=
  [lit "(k:\"", text, lit "\",", space, lit "ts:", digits, lit "),", space, text]

def syncEnd : Pattern Char := [lit "(k:\"", text, lit "\",", space, lit "ts:", digits, lit ")"]

def syncStart : Pattern Char := [space, lit "SYNC;", space, text, space]

def update : Pattern Char :=
  [lit "(k:\"", text, lit "\",", space, lit "v:\"", text, lit "\",", space, lit "ts:", digits,
    lit "),", space, text]

def updateEnd : Pattern Char :=
  [lit "(k:\"", text, lit "\",", space, lit "v:\"", text, lit "\",", space, lit "ts:", digits,
    lit ")"]

def updateStart : Pattern Char := [space, lit "UPDATE;", space, text, space]

def voteAbort : Pattern Char :=
  [space, lit "VOTE_ABORT;", space, lit "tId:", digits, lit ",", space, lit "k:\"", text,
    lit "\"", space]

def voteCommit : Pattern Char :=
  [space, lit "VOTE_COMMIT;", space, lit "tId:", digits, lit ",", space, lit "k:\"", text,
    lit "\",", space, lit "ts:", digits, space]

example : regexMatch "put; k:\"a\", v:\"b\", V: \"c\" ".toList put =
    some ["a".toList, "b\", V: \"c".toList] := by decide +kernel

end Regex

theorem sameLetter_refl (a : Char) : sameLetter a a := by simp [sameLetter]

theorem isLower_of_val {c : Char} (h : 97 ≤ c.val.toNat) (h' : c.val.toNat ≤ 122) :
    c.isLower := by
  have hlow : 'a'.val ≤ c.val := UInt32.le_iff_toNat_le.mpr h
  have hhigh : c.val ≤ 'z'.val := UInt32.le_iff_toNat_le.mpr h'
  exact Bool.and_eq_true_iff.mpr ⟨decide_eq_true hlow, decide_eq_true hhigh⟩

theorem toLower_cases (c : Char) : c.toLower = c ∨ c.isAlpha ∧ c.toLower.isAlpha := by
  unfold Char.toLower
  split
  · next h =>
    have hlow : 65 ≤ c.val.toNat := UInt32.le_iff_toNat_le.mp h.1
    have hhigh : c.val.toNat ≤ 90 := UInt32.le_iff_toNat_le.mp h.2
    have hval : (c.val + ('a'.val - 'A'.val)).toNat = c.val.toNat + 32 := by
      have hdiff : ('a'.val - 'A'.val).toNat = 32 := by decide
      rw [UInt32.toNat_add, hdiff]
      omega
    have hupper : c.isUpper := decide_eq_true h
    exact .inr ⟨Bool.or_eq_true_iff.mpr (.inl hupper), Bool.or_eq_true_iff.mpr
      (.inr (isLower_of_val (by rw [hval]; omega) (by rw [hval]; omega)))⟩
  · exact .inl rfl

/-- Only letters have another case. -/
theorem sharp_of_not_isAlpha {a : Char} (h : a.isAlpha = false) : Pattern.Sharp sameLetter a := by
  have ha : a.toLower = a := (toLower_cases a).resolve_right fun hc => by simp [h] at hc
  have hb : ∀ b : Char, a = b.toLower → b = a := by
    intro b heq
    rcases toLower_cases b with hb | ⟨-, hb⟩
    · rw [heq, hb]
    · rw [← heq, h] at hb
      cases hb
  intro b
  simp only [sameLetter, decide_eq_true_eq, ha]
  exact ⟨hb b, fun heq => hb b heq.symm⟩

theorem not_isSpace_of_sameLetter {c d : Char} (h : sameLetter c d) (hc : ¬ Text.isSpace c) :
    ¬ Text.isSpace d := by
  intro hd
  have hletter : d.isAlpha = false := by
    simp only [Text.isSpace, Bool.or_eq_true, decide_eq_true_eq] at hd
    rcases hd with ((((rfl | rfl) | rfl) | rfl) | rfl) | rfl <;> rfl
  obtain rfl : c = d := (sharp_of_not_isAlpha hletter c).2 h
  exact hc hd

end LeaderlessDatastore
