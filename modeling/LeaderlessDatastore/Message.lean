import LeaderlessDatastore.Text

/-!
# Messages

The message classes that are exchanged, with the fields they carry.  The two
maps are lists of entries in iteration order.
-/

namespace LeaderlessDatastore

inductive Message (Key Value : Type) where
  | ack (info : Text)
  | nack (info : Text)
  /-- `none` is the message that says `null`. -/
  | value (value : Option Value)
  | put (key : Key) (value : Value)
  | get (key : Key)
  | fetch (key : Key)
  /-- `none` is the message without a valid value. -/
  | fetchedValue (key : Key) (entry : Option (Value × ℤ))
  | prepare (uid : ℤ) (key : Key) (value : Value)
  | voteCommit (uid : ℤ) (key : Key) (timestamp : ℤ)
  | voteAbort (uid : ℤ) (key : Key)
  | globalAbort (uid : ℤ) (key : Key)
  | globalCommit (uid : ℤ) (key : Key) (value : Value) (timestamp : ℤ)
  | repair (key : Key) (value : Value) (timestamp : ℤ)
  | sync (entries : List (Key × ℤ))
  | update (newValues : List (Key × Value × ℤ))
  deriving DecidableEq

/-- A number that `to_string` writes and `stoi` reads back. -/
def IsInt (number : ℤ) : Prop := 0 ≤ number ∧ number < 2 ^ 31

/-- The keys satisfy `K`, the values `V`, and the numbers are small. -/
def Message.Fits {Key Value : Type} (K : Key → Prop) (V : Value → Prop) :
    Message Key Value → Prop
  | .fetch key => K key
  | .fetchedValue key entry => K key ∧ ∀ e ∈ entry, V e.1 ∧ IsInt e.2
  | .prepare uid key new => IsInt uid ∧ K key ∧ V new
  | .voteCommit uid key timestamp => IsInt uid ∧ K key ∧ IsInt timestamp
  | .voteAbort uid key | .globalAbort uid key => IsInt uid ∧ K key
  | .globalCommit uid key new timestamp => IsInt uid ∧ K key ∧ V new ∧ IsInt timestamp
  | .repair key latest timestamp => K key ∧ V latest ∧ IsInt timestamp
  -- the two that `prepare2PC` sends at its end
  | .ack info => info = "Aborting transaction".toList ∨ info = "Commit successful".toList
  | _ => False

/-- The conversion of a 64-bit version to the `int` of a `GLOBAL_COMMIT`. -/
def castInt (version : ℤ) : ℤ := version.bmod (2 ^ 32)

theorem castInt_of_lt {version : ℤ} (h0 : 0 ≤ version) (h : version < 2 ^ 31) :
    castInt version = version :=
  Int.bmod_eq_of_le (by omega) (by omega)

end LeaderlessDatastore
