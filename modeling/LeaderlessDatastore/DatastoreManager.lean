import Mathlib.Logic.Function.Basic
import Mathlib.Tactic

/-!
# `DatastoreManager`

The in-memory part of a replica: the stored pairs, the keys locked by a running
two-phase commit and the flag that asks the dump thread for a write.  Each
function is one critical section of `datastoreMutex`.

Keys and values are parameters; the program uses `std::string` for both.
-/

namespace LeaderlessDatastore

open Function

structure DatastoreManager (Key Value : Type) where
  datastore : Key → Option (Value × ℤ)
  owner2pc : Key → Option ℤ
  pending : Bool

namespace DatastoreManager

variable {Key Value : Type} [DecidableEq Key]

/-- A datastore with the given contents, as `load` leaves it: nothing is locked. -/
def loaded (contents : Key → Option (Value × ℤ)) : DatastoreManager Key Value :=
  ⟨contents, fun _ => none, false⟩

def empty : DatastoreManager Key Value := loaded fun _ => none

/-- An iterator of `datastore` points to the entry of a key; `none` is `end()`. -/
abbrev Iterator (Key : Type) := Option Key

/-- In libstdc++ a default-constructed iterator compares equal to `end()`. -/
def Iterator.default : Iterator Key := none

def find (ds : DatastoreManager Key Value) (key : Key) : Iterator Key :=
  if (ds.datastore key).isSome then some key else none

/-- The text `commit` and `tryUpdate` share once `entry` has been set: write through
the iterator when the version there is lower, emplace when the iterator is `end()`. -/
def writeOrEmplace (ds : DatastoreManager Key Value) (entry : Iterator Key)
    (key : Key) (value : Value) (version : ℤ) : DatastoreManager Key Value :=
  match entry with
  | some location =>
    match ds.datastore location with
    | some (_, current) =>
      if current < version then
        { ds with
          datastore := update ds.datastore location (some (value, version))
          pending := true }
      else ds
    | none => ds
  | none =>
    { ds with
      -- `emplace` leaves an entry that is already there
      datastore := update ds.datastore key (some ((ds.datastore key).getD (value, version)))
      pending := true }

def commit (ds : DatastoreManager Key Value) (key : Key) (value : Value) (version : ℤ) :
    DatastoreManager Key Value :=
  let ds := ds.writeOrEmplace (ds.find key) key value version
  { ds with owner2pc := update ds.owner2pc key none }

/-- The iterator `entry` is declared but never assigned from a lookup. -/
def tryUpdate (ds : DatastoreManager Key Value) (key : Key) (value : Value) (version : ℤ) :
    DatastoreManager Key Value :=
  ds.writeOrEmplace Iterator.default key value version

/-- `none` is the `std::out_of_range` of `owner2pc.at(key)`. -/
def abort (ds : DatastoreManager Key Value) (key : Key) (uid : ℤ) :
    Option (DatastoreManager Key Value) :=
  (ds.owner2pc key).map fun owner =>
    if owner = uid then { ds with owner2pc := update ds.owner2pc key none } else ds

/-- `none` is the result `false`; otherwise the locked datastore and the value `version` gets. -/
def prepare (ds : DatastoreManager Key Value) (key : Key) (uid : ℤ) :
    Option (DatastoreManager Key Value × ℤ) :=
  if (ds.owner2pc key).isSome then none
  else some ({ ds with owner2pc := update ds.owner2pc key (some uid) },
    match ds.datastore key with
    | some (_, version) => version
    | none => 0)

/-- `none` is the result `false`; otherwise what `result` holds afterwards. -/
def get (ds : DatastoreManager Key Value) (key : Key) (result : Value × ℤ) :
    Option (Value × ℤ) :=
  if (ds.owner2pc key).isSome then none
  else some (match ds.datastore key with
    | some entry => entry
    | none => (result.1, 0))

def getStatus (ds : DatastoreManager Key Value) (key : Key) : Option ℤ :=
  (ds.datastore key).map Prod.snd

/-- The version stored for a key, `0` when there is none. -/
def storedVersion (ds : DatastoreManager Key Value) (key : Key) : ℤ :=
  match ds.datastore key with
  | some (_, version) => version
  | none => 0

/-! ## What each operation does to the entries -/

theorem commit_datastore (ds : DatastoreManager Key Value) (key : Key) (value : Value)
    (version : ℤ) : (ds.commit key value version).datastore =
      match ds.datastore key with
      | some (_, current) =>
        if current < version then update ds.datastore key (some (value, version))
        else ds.datastore
      | none => update ds.datastore key (some (value, version)) := by
  cases h : ds.datastore key with
  | none => simp [commit, find, writeOrEmplace, h]
  | some entry =>
    simp only [commit, find, writeOrEmplace, h, Option.isSome_some, ↓reduceIte]
    split_ifs <;> rfl

/-- `commit` leaves the entry of a key that is not older. -/
theorem commit_keeps_iff (ds : DatastoreManager Key Value) (key : Key) (value : Value)
    (version : ℤ) : (ds.commit key value version).datastore key = ds.datastore key ↔
      ¬ ∀ value' version', ds.datastore key = some (value', version') → version' < version := by
  rw [commit_datastore]
  cases hentry : ds.datastore key with
  | none => simp
  | some entry =>
    obtain ⟨value', version'⟩ := entry
    by_cases hlt : version' < version
    · simp [hlt, hlt.ne']
    · simp [hlt, hentry]

theorem tryUpdate_datastore (ds : DatastoreManager Key Value) (key : Key) (value : Value)
    (version : ℤ) : (ds.tryUpdate key value version).datastore =
      update ds.datastore key (some ((ds.datastore key).getD (value, version))) := rfl

@[simp] theorem commit_owner2pc (ds : DatastoreManager Key Value) (key : Key) (value : Value)
    (version : ℤ) : (ds.commit key value version).owner2pc = update ds.owner2pc key none := by
  cases h : ds.datastore key with
  | none => simp [commit, find, writeOrEmplace, h]
  | some entry =>
    simp only [commit, find, writeOrEmplace, h, Option.isSome_some, ↓reduceIte]
    split_ifs <;> rfl

@[simp] theorem tryUpdate_owner2pc (ds : DatastoreManager Key Value) (key : Key) (value : Value)
    (version : ℤ) : (ds.tryUpdate key value version).owner2pc = ds.owner2pc := rfl

theorem abort_eq_some {ds ds' : DatastoreManager Key Value} {key : Key} {uid : ℤ}
    (h : ds.abort key uid = some ds') :
    ds'.datastore = ds.datastore ∧ ∃ owner, ds.owner2pc key = some owner ∧
      ds'.owner2pc = if owner = uid then update ds.owner2pc key none else ds.owner2pc := by
  obtain ⟨owner, ho, rfl⟩ := Option.map_eq_some_iff.mp h
  refine ⟨by split_ifs <;> rfl, owner, ho, by split_ifs <;> rfl⟩

theorem prepare_eq_some {ds ds' : DatastoreManager Key Value} {key : Key} {uid version : ℤ}
    (h : ds.prepare key uid = some (ds', version)) :
    ds.owner2pc key = none ∧ ds'.datastore = ds.datastore ∧ version = ds.storedVersion key ∧
      ds'.owner2pc = update ds.owner2pc key (some uid) := by
  unfold prepare at h
  split_ifs at h with ho
  cases h
  exact ⟨by simpa using ho, rfl, rfl, rfl⟩

omit [DecidableEq Key] in
theorem get_eq_some {ds : DatastoreManager Key Value} {key : Key} {result result' : Value × ℤ}
    (h : ds.get key result = some result') :
    ds.owner2pc key = none ∧ result'.2 = ds.storedVersion key ∧
      (ds.datastore key = some result' ∨ ds.datastore key = none ∧ result'.2 = 0) := by
  unfold get at h
  split_ifs at h with ho
  refine ⟨by simpa using ho, ?_⟩
  cases hd : ds.datastore key <;> simp_all [storedVersion]; simp [← h]

theorem prepare_ne_none {ds : DatastoreManager Key Value} {key : Key} {uid : ℤ}
    (h : ds.owner2pc key = none) : ds.prepare key uid ≠ none := by
  simp [prepare, h]

theorem abort_ne_none {ds : DatastoreManager Key Value} {key : Key} {uid owner : ℤ}
    (h : ds.owner2pc key = some owner) : ds.abort key uid ≠ none := by
  simp [abort, h]

omit [DecidableEq Key] in
theorem get_ne_none {ds : DatastoreManager Key Value} {key : Key} (h : ds.owner2pc key = none)
    (result : Value × ℤ) : ds.get key result ≠ none := by
  simp [get, h]

/-! ## Stored versions -/

omit [DecidableEq Key] in
theorem storedVersion_congr {ds ds' : DatastoreManager Key Value}
    (h : ds'.datastore = ds.datastore) (key : Key) :
    ds'.storedVersion key = ds.storedVersion key := by rw [storedVersion, storedVersion, h]

/-- What a key holds after `commit` is what it held before or the committed entry. -/
theorem commit_eq_some {ds : DatastoreManager Key Value} {key k : Key} {value : Value}
    {version : ℤ} {entry : Value × ℤ}
    (h : (ds.commit key value version).datastore k = some entry) :
    ds.datastore k = some entry ∨ k = key ∧ entry = (value, version) := by
  rw [commit_datastore] at h
  by_cases hk : k = key
  · subst hk
    cases hd : ds.datastore k with
    | none => simp_all
    | some e =>
      simp only [hd] at h
      split_ifs at h <;> simp_all
  · left
    cases hd : ds.datastore key with
    | none => simpa [hd, hk] using h
    | some e =>
      simp only [hd] at h
      split_ifs at h <;> simpa [hk] using h

theorem tryUpdate_eq_some {ds : DatastoreManager Key Value} {key k : Key} {value : Value}
    {version : ℤ} {entry : Value × ℤ}
    (h : (ds.tryUpdate key value version).datastore k = some entry) :
    ds.datastore k = some entry ∨ k = key ∧ entry = (value, version) := by
  rw [tryUpdate_datastore] at h
  by_cases hk : k = key
  · subst hk
    cases hd : ds.datastore k <;> simp_all
  · exact .inl (by simpa [hk] using h)

theorem storedVersion_le_commit (ds : DatastoreManager Key Value) (key k : Key) (value : Value)
    {version : ℤ} (h : 0 ≤ version) :
    ds.storedVersion k ≤ (ds.commit key value version).storedVersion k := by
  unfold storedVersion
  rw [commit_datastore]
  by_cases hk : k = key
  · subst hk
    cases hd : ds.datastore k with
    | none => simpa using h
    | some e =>
      dsimp only
      split_ifs with hlt
      · simpa using hlt.le
      · simp [hd]
  · cases hd : ds.datastore key with
    | none => simp [hk]
    | some e =>
      dsimp only
      split_ifs <;> simp [hk]

theorem le_storedVersion_commit (ds : DatastoreManager Key Value) (key : Key) (value : Value)
    (version : ℤ) : version ≤ (ds.commit key value version).storedVersion key := by
  unfold storedVersion
  rw [commit_datastore]
  cases hd : ds.datastore key with
  | none => simp
  | some e =>
    dsimp only
    split_ifs with hlt
    · simp
    · simpa [hd] using not_lt.mp hlt

theorem storedVersion_le_tryUpdate (ds : DatastoreManager Key Value) (key k : Key)
    (value : Value) {version : ℤ} (h : 0 ≤ version) :
    ds.storedVersion k ≤ (ds.tryUpdate key value version).storedVersion k := by
  unfold storedVersion
  rw [tryUpdate_datastore]
  by_cases hk : k = key
  · subst hk
    cases hd : ds.datastore k <;> simp [h]
  · simp [hk]

end DatastoreManager
end LeaderlessDatastore
