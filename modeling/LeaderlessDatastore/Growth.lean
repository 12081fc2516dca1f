import LeaderlessDatastore.DatastoreManager

/-!
# What a datastore never takes back

Runs of all operations of `DatastoreManager` in any order, with any arguments.
-/

namespace LeaderlessDatastore

open Function

/-! ## Entries that grow -/

section Entries

variable {Value Version : Type*} [Preorder Version]

/-- An entry that is there stays, its version does not decrease, and it has another value only
with a higher version. -/
def Grows : Option (Value × Version) → Option (Value × Version) → Prop
  | none, _ => True
  | some _, none => False
  | some (value, version), some (value', version') =>
    version ≤ version' ∧ (value' ≠ value → version < version')

theorem Grows.refl (e : Option (Value × Version)) : Grows e e := by
  cases e with
  | none => trivial
  | some entry => exact ⟨le_rfl, fun h => absurd rfl h⟩

theorem Grows.trans {e e' e'' : Option (Value × Version)} (h : Grows e e') (h' : Grows e' e'') :
    Grows e e'' := by
  match e, e', e'', h, h' with
  | none, _, _, _, _ => trivial
  | some (value, version), some (value', version'), some (value'', version''), h, h' =>
    obtain ⟨hle, hlt⟩ := h
    obtain ⟨hle', hlt'⟩ := h'
    refine ⟨hle.trans hle', fun hne => ?_⟩
    by_cases heq : value' = value
    · exact hle.trans_lt (hlt' (heq ▸ hne))
    · exact (hlt heq).trans_le hle'

end Entries

namespace DatastoreManager

/-! ## The operations -/

inductive Call (Key Value : Type) where
  | prepare (key : Key) (uid : ℤ)
  | commit (key : Key) (value : Value) (version : ℤ)
  | abort (key : Key) (uid : ℤ)
  | tryUpdate (key : Key) (value : Value) (version : ℤ)
  | get (key : Key) (result : Value × ℤ)
  | getStatus

variable {Key Value : Type} [DecidableEq Key]

/-- The key a call is on. -/
def Call.key : Call Key Value → Option Key
  | .prepare key _ | .commit key _ _ | .abort key _ | .tryUpdate key _ _ | .get key _ => some key
  | .getStatus => none

/-- The state that a call leaves; an `abort` that throws changes nothing. -/
def run (ds : DatastoreManager Key Value) : Call Key Value → DatastoreManager Key Value
  | .prepare key uid => ((ds.prepare key uid).map Prod.fst).getD ds
  | .commit key value version => ds.commit key value version
  | .abort key uid => (ds.abort key uid).getD ds
  | .tryUpdate key value version => ds.tryUpdate key value version
  | .get _ _ => ds
  | .getStatus => ds

def runAll (ds : DatastoreManager Key Value) (calls : List (Call Key Value)) :
    DatastoreManager Key Value := calls.foldl run ds

variable {ds : DatastoreManager Key Value} {key k : Key}

theorem commit_of_ne (ds : DatastoreManager Key Value) (hk : k ≠ key) (value : Value)
    (version : ℤ) : (ds.commit key value version).datastore k = ds.datastore k := by
  rw [commit_datastore]
  split
  · split_ifs
    · exact update_of_ne hk _ _
    · rfl
  · exact update_of_ne hk _ _

theorem tryUpdate_of_ne (ds : DatastoreManager Key Value) (hk : k ≠ key) (value : Value)
    (version : ℤ) : (ds.tryUpdate key value version).datastore k = ds.datastore k :=
  update_of_ne hk _ _

theorem grows_commit (ds : DatastoreManager Key Value) (key k : Key) (value : Value)
    (version : ℤ) : Grows (ds.datastore k) ((ds.commit key value version).datastore k) := by
  by_cases hk : k = key
  · subst hk
    rw [commit_datastore]
    cases hentry : ds.datastore k with
    | none => trivial
    | some entry =>
      dsimp only
      split_ifs with hlt
      · simpa [Grows] using ⟨hlt.le, fun _ => hlt⟩
      · rw [hentry]
        exact .refl _
  · rw [commit_of_ne ds hk]
    exact .refl _

theorem grows_tryUpdate (ds : DatastoreManager Key Value) (key k : Key) (value : Value)
    (version : ℤ) : Grows (ds.datastore k) ((ds.tryUpdate key value version).datastore k) := by
  by_cases hk : k = key
  · subst hk
    rw [tryUpdate_datastore, update_self]
    cases ds.datastore k with
    | none => trivial
    | some entry => exact .refl _
  · rw [tryUpdate_of_ne ds hk]
    exact .refl _

theorem run_prepare (ds : DatastoreManager Key Value) (key : Key) (uid : ℤ) :
    (ds.run (.prepare key uid)).datastore = ds.datastore ∧
      ((ds.run (.prepare key uid)).owner2pc = ds.owner2pc ∨
        (ds.run (.prepare key uid)).owner2pc = update ds.owner2pc key (some uid)) := by
  simp only [run]
  cases hprepare : ds.prepare key uid with
  | none => exact ⟨rfl, .inl rfl⟩
  | some prepared =>
    obtain ⟨-, hdatastore, -, howner⟩ := prepare_eq_some hprepare
    exact ⟨hdatastore, .inr howner⟩

theorem run_abort (ds : DatastoreManager Key Value) (key : Key) (uid : ℤ) :
    (ds.run (.abort key uid)).datastore = ds.datastore ∧
      ((ds.run (.abort key uid)).owner2pc = ds.owner2pc ∨
        (ds.run (.abort key uid)).owner2pc = update ds.owner2pc key none) := by
  simp only [run]
  cases habort : ds.abort key uid with
  | none => exact ⟨rfl, .inl rfl⟩
  | some released =>
    obtain ⟨hdatastore, owner, -, howner⟩ := abort_eq_some habort
    refine ⟨hdatastore, ?_⟩
    rw [Option.getD_some, howner]
    split_ifs
    · exact .inr rfl
    · exact .inl rfl

theorem grows_run (ds : DatastoreManager Key Value) (c : Call Key Value) (key : Key) :
    Grows (ds.datastore key) ((ds.run c).datastore key) := by
  cases c with
  | commit k value version => exact grows_commit ds k key value version
  | tryUpdate k value version => exact grows_tryUpdate ds k key value version
  | prepare k uid =>
    rw [(run_prepare ds k uid).1]
    exact .refl _
  | abort k uid =>
    rw [(run_abort ds k uid).1]
    exact .refl _
  | get k result => exact .refl _
  | getStatus => exact .refl _

theorem grows_runAll (ds : DatastoreManager Key Value) (calls : List (Call Key Value))
    (key : Key) : Grows (ds.datastore key) ((ds.runAll calls).datastore key) := by
  induction calls generalizing ds with
  | nil => exact .refl _
  | cons c calls ih => exact (grows_run ds c key).trans (ih (ds.run c))

/-- Nothing happens to other keys. -/
theorem run_of_ne (ds : DatastoreManager Key Value) {c : Call Key Value}
    (h : c.key ≠ some key) :
    (ds.run c).datastore key = ds.datastore key ∧ (ds.run c).owner2pc key = ds.owner2pc key := by
  have hne : ∀ k, c.key = some k → key ≠ k := by
    rintro k hk rfl
    exact h hk
  cases c with
  | prepare k uid =>
    obtain ⟨hdatastore, howner | howner⟩ := run_prepare ds k uid
    · exact ⟨congrFun hdatastore key, congrFun howner key⟩
    · exact ⟨congrFun hdatastore key, by rw [howner, update_of_ne (hne k rfl)]⟩
  | abort k uid =>
    obtain ⟨hdatastore, howner | howner⟩ := run_abort ds k uid
    · exact ⟨congrFun hdatastore key, congrFun howner key⟩
    · exact ⟨congrFun hdatastore key, by rw [howner, update_of_ne (hne k rfl)]⟩
  | commit k value version =>
    exact ⟨commit_of_ne ds (hne k rfl) value version,
      by rw [run, commit_owner2pc, update_of_ne (hne k rfl)]⟩
  | tryUpdate k value version =>
    exact ⟨tryUpdate_of_ne ds (hne k rfl) value version, rfl⟩
  | get k result => exact ⟨rfl, rfl⟩
  | getStatus => exact ⟨rfl, rfl⟩

/-- Between any two states of a run every entry grows, and a call leaves the entry and the lock
of every other key as they are. -/
theorem versions_grow (ds : DatastoreManager Key Value) (before after : List (Call Key Value)) :
    (∀ key, Grows ((ds.runAll before).datastore key)
      ((ds.runAll (before ++ after)).datastore key)) ∧
    ∀ c key, c.key ≠ some key →
      (ds.runAll (before ++ [c])).datastore key = (ds.runAll before).datastore key ∧
      (ds.runAll (before ++ [c])).owner2pc key = (ds.runAll before).owner2pc key := by
  constructor
  · intro key
    rw [runAll, runAll, List.foldl_append]
    exact grows_runAll _ after key
  · intro c key h
    rw [runAll, runAll, List.foldl_append]
    exact run_of_ne _ h

example : ((empty : DatastoreManager ℕ ℕ).runAll
    [.commit 0 7 2, .tryUpdate 0 8 3, .commit 0 9 2, .abort 0 1]).datastore 0 = some (7, 2) := by
  decide

end DatastoreManager
end LeaderlessDatastore
