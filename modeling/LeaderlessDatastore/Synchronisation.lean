import LeaderlessDatastore.Coordinator
import LeaderlessDatastore.EntryLists
import LeaderlessDatastore.Receiving
import Mathlib.Data.List.AList

/-!
# Start-up synchronisation

`Coordinator::sync` on a replica that starts, while nothing is written and the other
replicas answer.  A `SYNC` with the own versions goes to the replicas that are contacted,
each of which sends back what is newer there in an `UPDATE`.  Both are texts that arrive in
chunks; what `toMessage` does not read is lost.
-/

namespace LeaderlessDatastore

open Function

/-- An `unordered_map` with its entries in iteration order. -/
abbrev Entries (Key Value : Type) := AList fun _ : Key => Value × ℤ

section Messages

variable {Key Value : Type}

namespace ServerMessage

/-- The loop body of `Sync::manage`.  No key is locked while nothing is written, so that `get`
succeeds at once. -/
def Sync.newer [Inhabited Value] (ds : DatastoreManager Key Value) (entries : Key → Option ℤ)
    (key : Key) : Option (Key × Value × ℤ) := do
  let version ← ds.getStatus key
  if (entries key).all (· < version) then
    let value ← ds.get key default
    some (key, value)
  else none

/-- `Sync::manage`, with the keys of `getStatus` in iteration order. -/
def Sync.manage [Inhabited Value] (ds : DatastoreManager Key Value) (keys : List Key)
    (entries : Key → Option ℤ) : List (Key × Value × ℤ) :=
  keys.filterMap (Sync.newer ds entries)

theorem Sync.newer_loaded [Inhabited Value] {contents : Key → Option (Value × ℤ)}
    {entries : Key → Option ℤ} {key key' : Key} {entry : Value × ℤ} :
    newer (.loaded contents) entries key' = some (key, entry) ↔
      key' = key ∧ contents key = some entry ∧ (entries key).all (· < entry.2) := by
  constructor
  · intro h
    cases hkey : contents key' with
    | none => simp [newer, DatastoreManager.getStatus, DatastoreManager.loaded, hkey] at h
    | some entry' =>
      simp only [newer, DatastoreManager.getStatus, DatastoreManager.get, DatastoreManager.loaded,
        hkey, Option.map_some, Option.bind_eq_bind, Option.bind_some, Option.isSome_none,
        Bool.false_eq_true, if_false, Option.ite_none_right_eq_some, Option.some.injEq,
        Prod.mk.injEq] at h
      obtain ⟨hall, rfl, rfl⟩ := h
      exact ⟨rfl, hkey, hall⟩
  · rintro ⟨rfl, hkey, hall⟩
    simp [newer, DatastoreManager.getStatus, DatastoreManager.get, DatastoreManager.loaded, hkey,
      hall]

variable [DecidableEq Key]

/-- `Update::manage`, with the entries in iteration order. -/
def Update.manage (ds : DatastoreManager Key Value) (newValues : List (Key × Value × ℤ)) :
    DatastoreManager Key Value :=
  newValues.foldl (fun ds entry => ds.tryUpdate entry.1 entry.2.1 entry.2.2) ds

theorem Update.manage_datastore (ds : DatastoreManager Key Value)
    (newValues : List (Key × Value × ℤ)) (key : Key) :
    (manage ds newValues).datastore key = (ds.datastore key).or (newValues.lookup key) := by
  induction newValues generalizing ds with
  | nil => simp [manage]
  | cons entry newValues ih =>
    obtain ⟨key', entry⟩ := entry
    change (manage (ds.tryUpdate ..) newValues).datastore key = _
    rw [ih, DatastoreManager.tryUpdate_datastore]
    by_cases h : key = key'
    · subst h
      cases ds.datastore key <;> simp
    · simp [List.lookup_cons, update_of_ne h, beq_eq_false_iff_ne.mpr h]

end ServerMessage

variable [DecidableEq Key]

/-- What a replica with the given entries sends back. -/
def newerEntries [Inhabited Value] (contents : Entries Key Value) (entries : Key → Option ℤ) :
    List (Key × Value × ℤ) :=
  ServerMessage.Sync.manage (.loaded contents.lookup) contents.keys entries

theorem mem_newerEntries [Inhabited Value] {contents : Entries Key Value}
    {entries : Key → Option ℤ} {key : Key} {entry : Value × ℤ} :
    (key, entry) ∈ newerEntries contents entries ↔
      contents.lookup key = some entry ∧ (entries key).all (· < entry.2) := by
  simp only [newerEntries, ServerMessage.Sync.manage, List.mem_filterMap,
    ServerMessage.Sync.newer_loaded]
  constructor
  · rintro ⟨_, -, rfl, h⟩
    exact h
  · intro h
    exact ⟨key, AList.mem_keys.mp (AList.lookup_isSome.mp (by simp [h.1])), rfl, h⟩

theorem nodup_newerEntries [Inhabited Value] {contents : Entries Key Value}
    {entries : Key → Option ℤ} : ((newerEntries contents entries).map Prod.fst).Nodup := by
  have hkeys : (newerEntries contents entries).map Prod.fst = contents.keys.filterMap fun key =>
      (ServerMessage.Sync.newer (.loaded contents.lookup) entries key).map Prod.fst := by
    rw [newerEntries, ServerMessage.Sync.manage, List.map_filterMap]
  rw [hkeys]
  refine contents.keys_nodup.filterMap fun key key' k hk hk' => ?_
  obtain ⟨entry, hentry, rfl⟩ := Option.map_eq_some_iff.mp hk
  obtain ⟨entry', hentry', heq⟩ := Option.map_eq_some_iff.mp hk'
  rw [(ServerMessage.Sync.newer_loaded.mp hentry).1,
    (ServerMessage.Sync.newer_loaded.mp hentry').1, heq]

end Messages

/-- The replicas that `sync` contacts, itself counted as one of the quorum. -/
def Coordinator.syncQuorum {Peer : Type} (shuffled : List Peer) : List Peer :=
  connectToQuorum (fun _ => true) shuffled (castInt shuffled.length) false

/-- One replica is left out: the first of the shuffled addresses. -/
theorem Coordinator.syncQuorum_eq {Peer : Type} {shuffled : List Peer}
    (h : shuffled.length < 2 ^ 31) : syncQuorum shuffled = shuffled.tail.reverse := by
  have hcast : castInt (shuffled.length : ℤ) = shuffled.length :=
    castInt_of_lt (by omega) (by exact_mod_cast h)
  rw [syncQuorum, connectToQuorum, hcast]
  simp only [Bool.false_eq_true, false_and, if_false]
  rw [connectLoop_eq _ _ _ _ (by simp), List.filter_true, List.nil_append, List.length_nil,
    Nat.sub_zero]
  cases shuffled with
  | nil => simp
  | cons address shuffled =>
    have hsize : toSize (((address :: shuffled).length : ℤ) - 1) = shuffled.length := by
      simp only [toSize, List.length_cons]
      simp only [List.length_cons] at h
      omega
    rw [hsize, List.reverse_cons, List.tail_cons,
      List.take_append_of_le_length (by simp), List.take_of_length_le (by simp)]

/-- A thread of `sendToReplicas` in `sync`. -/
inductive SyncThread (Key Value : Type) where
  | unsent
  /-- the `SYNC` has been sent -/
  | asked
  /-- in `Update::manage`, with the entries that `tryUpdate` has not been called for; without
  any the thread has ended -/
  | updating (newValues : List (Key × Value × ℤ))

/-- The replica that starts, with one thread for each replica that it has contacted. -/
structure StartUp (Peer Key Value : Type) where
  ds : DatastoreManager Key Value
  thread : Peer → Option (SyncThread Key Value)

namespace StartUp

variable {Peer Key Value : Type}

inductive Event (Peer Key Value : Type) where
  | send (p : Peer)
  /-- `receive` is at `manage`, with the entries in some order again, or it ends -/
  | reply (p : Peer) (newValues : List (Key × Value × ℤ))
  | tryUpdate (p : Peer)

variable [DecidableEq Peer]

def setThread (s : StartUp Peer Key Value) (p : Peer) (thread : SyncThread Key Value) :
    StartUp Peer Key Value := { s with thread := update s.thread p (some thread) }

theorem thread_setThread (s : StartUp Peer Key Value) (p q : Peer)
    (thread : SyncThread Key Value) :
    (s.setThread p thread).thread q = if q = p then some thread else s.thread q :=
  update_apply ..

theorem thread_setThread_eq_some {s : StartUp Peer Key Value} {p q : Peer}
    {thread thread' : SyncThread Key Value} (h : (s.setThread p thread).thread q = some thread') :
    q = p ∧ thread' = thread ∨ q ≠ p ∧ s.thread q = some thread' := by
  rw [thread_setThread] at h
  split_ifs at h with hq
  · cases h
    exact .inl ⟨hq, rfl⟩
  · exact .inr ⟨hq, h⟩

@[simp] theorem setThread_setThread (s : StartUp Peer Key Value) (p : Peer)
    (thread thread' : SyncThread Key Value) :
    (s.setThread p thread).setThread p thread' = s.setThread p thread' := by
  simp [setThread]

variable [DecidableEq Key]

/-- `sync` on a replica that has loaded its entries, with the addresses of the others as they
have been shuffled. -/
def initial (start : Entries Key Value) (shuffled : List Peer) : StartUp Peer Key Value where
  ds := .loaded start.lookup
  thread p := if p ∈ Coordinator.syncQuorum shuffled then some .unsent else none

/-- All threads have been joined. -/
def Returned (s : StartUp Peer Key Value) : Prop :=
  ∀ p thread, s.thread p = some thread → thread = .updating []

/-- Every key of the contents is stored, at a version no lower. -/
def AtLeast (ds : DatastoreManager Key Value) (contents : Entries Key Value) : Prop :=
  ∀ key entry, contents.lookup key = some entry →
    ∃ entry', ds.datastore key = some entry' ∧ entry.2 ≤ entry'.2

/-- What `sync` is for. -/
def UpToDate (start : Entries Key Value) (contents : Peer → Entries Key Value)
    (shuffled : List Peer) (s : StartUp Peer Key Value) : Prop :=
  (∀ p ∈ shuffled, AtLeast s.ds (contents p)) ∧ AtLeast s.ds start

/-- A key that another replica stores is stored at the start, at a version no lower, or else
some contacted replica brings it and all that do so bring a version no lower. -/
def Covered (start : Entries Key Value) (contents : Peer → Entries Key Value)
    (shuffled contacted : List Peer) (arrived : Peer → List (Key × Value × ℤ)) : Prop :=
  ∀ p ∈ shuffled, ∀ key entry, (contents p).lookup key = some entry →
    match start.lookup key with
    | some own => entry.2 ≤ own.2
    | none => (∃ q ∈ contacted, ∃ entry', (key, entry') ∈ arrived q) ∧
      ∀ q ∈ contacted, ∀ entry', (key, entry') ∈ arrived q → entry.2 ≤ entry'.2

/-! ## The invariant -/

variable {contents : Peer → Entries Key Value} {start : Entries Key Value}
  {arrived : Peer → List (Key × Value × ℤ)} {shuffled : List Peer}
  {s t : StartUp Peer Key Value} {e : Event Peer Key Value}

/-- What the stored entries and the entries in the threads come from. -/
structure Inv (start : Entries Key Value) (arrived : Peer → List (Key × Value × ℤ))
    (contacted : List Peer) (s : StartUp Peer Key Value) : Prop where
  thread : ∀ p, s.thread p ≠ none ↔ p ∈ contacted
  origin : ∀ key entry, s.ds.datastore key = some entry → start.lookup key = some entry ∨
    ∃ q ∈ contacted, (key, entry) ∈ arrived q
  updating : ∀ p newValues, s.thread p = some (.updating newValues) →
    (∀ entry ∈ newValues, entry ∈ arrived p) ∧ ∀ entry ∈ arrived p,
      s.ds.datastore entry.1 ≠ none ∨ entry ∈ newValues

theorem thread_initial {p : Peer} {thread : SyncThread Key Value}
    (h : (initial start shuffled).thread p = some thread) :
    p ∈ Coordinator.syncQuorum shuffled ∧ thread = .unsent := by
  simp only [initial] at h
  split_ifs at h with hp
  cases h
  exact ⟨hp, rfl⟩

theorem inv_initial : Inv start arrived (Coordinator.syncQuorum shuffled)
    (initial start shuffled) where
  thread p := by simp [initial]
  origin key entry h := .inl h
  updating p newValues h := nomatch (thread_initial h).2

theorem Inv.thread_setThread {contacted : List Peer} (hs : Inv start arrived contacted s)
    {p : Peer} (hp : s.thread p ≠ none) (thread : SyncThread Key Value) (q : Peer) :
    (s.setThread p thread).thread q ≠ none ↔ q ∈ contacted := by
  rw [StartUp.thread_setThread]
  split_ifs with hq
  · subst hq
    simpa using (hs.thread q).mp hp
  · exact hs.thread q

variable [DecidableEq Value]

/-- `arrived` is what is read of the answers. -/
def step (arrived : Peer → List (Key × Value × ℤ)) (s : StartUp Peer Key Value) :
    Event Peer Key Value → Option (StartUp Peer Key Value)
  | .send p =>
    match s.thread p with
    | some .unsent => some (s.setThread p .asked)
    | _ => none
  | .reply p newValues =>
    match s.thread p with
    | some .asked =>
      if newValues.Perm (arrived p) then some (s.setThread p (.updating newValues)) else none
    | _ => none
  | .tryUpdate p =>
    match s.thread p with
    | some (.updating ((key, value, version) :: rest)) =>
      some { s.setThread p (.updating rest) with ds := s.ds.tryUpdate key value version }
    | _ => none

def Run (arrived : Peer → List (Key × Value × ℤ)) :
    StartUp Peer Key Value → StartUp Peer Key Value → Prop :=
  Transition.Run (step arrived) fun _ _ => True

/-! ## Steps -/

/-- An event moves one thread; only `tryUpdate` writes. -/
theorem step_cases (h : step arrived s e = some t) :
    (∃ p, s.thread p = some .unsent ∧ t = s.setThread p .asked) ∨
    (∃ p newValues, s.thread p = some .asked ∧ newValues.Perm (arrived p) ∧
      t = s.setThread p (.updating newValues)) ∨
    ∃ p key value version rest, s.thread p = some (.updating ((key, value, version) :: rest)) ∧
      t = { s.setThread p (.updating rest) with ds := s.ds.tryUpdate key value version } := by
  cases e with
  | send p =>
    simp only [step] at h
    split at h <;> cases h
    exact .inl ⟨p, ‹_›, rfl⟩
  | reply p newValues =>
    simp only [step] at h
    split at h
    · split_ifs at h with hperm
      cases h
      exact .inr (.inl ⟨p, newValues, ‹_›, hperm, rfl⟩)
    · cases h
  | tryUpdate p =>
    simp only [step] at h
    split at h <;> cases h
    exact .inr (.inr ⟨p, _, _, _, _, ‹_›, rfl⟩)

/-- An entry that is stored stays as it is. -/
theorem step_persists (h : step arrived s e = some t) {key : Key} {entry : Value × ℤ}
    (hs : s.ds.datastore key = some entry) : t.ds.datastore key = some entry := by
  obtain ⟨p, -, rfl⟩ | ⟨p, _, -, -, rfl⟩ | ⟨p, key', value, version, rest, -, rfl⟩ := step_cases h
  · exact hs
  · exact hs
  · change (s.ds.tryUpdate key' value version).datastore key = some entry
    rw [DatastoreManager.tryUpdate_datastore]
    by_cases hk : key = key'
    · subst hk
      simp [hs]
    · rw [update_of_ne hk, hs]

theorem Run.persists (h : Run arrived s t) {key : Key} {entry : Value × ℤ}
    (hs : s.ds.datastore key = some entry) : t.ds.datastore key = some entry :=
  Transition.Run.preserves (fun _ _ _ hs _ hstep => step_persists hstep hs) h hs

theorem Inv.step {contacted : List Peer} (hs : Inv start arrived contacted s)
    (h : step arrived s e = some t) : Inv start arrived contacted t := by
  have hpersists : ∀ key, s.ds.datastore key ≠ none → t.ds.datastore key ≠ none := by
    intro key hkey
    obtain ⟨entry, hentry⟩ := Option.ne_none_iff_exists'.mp hkey
    simp [step_persists h hentry]
  obtain ⟨p, hp, rfl⟩ | ⟨p, newValues, hp, hperm, rfl⟩ |
    ⟨p, key', value, version, rest, hp, rfl⟩ := step_cases h
  · refine ⟨hs.thread_setThread (by simp [hp]) _, hs.origin, fun q newValues hq => ?_⟩
    rcases thread_setThread_eq_some hq with ⟨-, h⟩ | ⟨-, hq⟩
    · cases h
    · exact hs.updating q newValues hq
  · refine ⟨hs.thread_setThread (by simp [hp]) _, hs.origin, fun q newValues' hq => ?_⟩
    rcases thread_setThread_eq_some hq with ⟨rfl, hthread⟩ | ⟨-, hq⟩
    · cases hthread
      exact ⟨fun entry => hperm.mem_iff.mp, fun entry hentry => .inr (hperm.mem_iff.mpr hentry)⟩
    · exact hs.updating q newValues' hq
  · obtain ⟨hrest, hkeys⟩ := hs.updating p _ hp
    refine ⟨hs.thread_setThread (by simp [hp]) _, fun key entry hentry => ?_,
      fun q newValues' hq => ?_⟩
    · change (s.ds.tryUpdate key' value version).datastore key = some entry at hentry
      rw [DatastoreManager.tryUpdate_datastore] at hentry
      by_cases hk : key = key'
      · subst hk
        rw [update_self] at hentry
        cases hold : s.ds.datastore key with
        | some old =>
          rw [hold] at hentry
          cases hentry
          exact hs.origin key old hold
        | none =>
          rw [hold] at hentry
          cases hentry
          exact .inr ⟨p, (hs.thread p).mp (by simp [hp]), hrest _ List.mem_cons_self⟩
      · rw [update_of_ne hk] at hentry
        exact hs.origin key entry hentry
    · change (s.setThread p (.updating rest)).thread q = some (.updating newValues') at hq
      rcases thread_setThread_eq_some hq with ⟨rfl, hthread⟩ | ⟨-, hq⟩
      · cases hthread
        refine ⟨fun entry hentry => hrest entry (List.mem_cons_of_mem _ hentry),
          fun entry hentry => ?_⟩
        rcases hkeys entry hentry with hstored | hmem
        · exact .inl (hpersists _ hstored)
        · rcases List.mem_cons.mp hmem with rfl | hmem
          · refine .inl ?_
            change (s.ds.tryUpdate key' value version).datastore key' ≠ none
            simp [DatastoreManager.tryUpdate_datastore]
          · exact .inr hmem
      · obtain ⟨hall, hkeys'⟩ := hs.updating q newValues' hq
        exact ⟨hall, fun entry hentry => (hkeys' entry hentry).imp_left (hpersists _)⟩

theorem Run.inv (h : Run arrived (initial start shuffled) s) :
    Inv start arrived (Coordinator.syncQuorum shuffled) s :=
  Transition.Run.preserves (fun _ _ _ hs _ hstep => hs.step hstep) h inv_initial

theorem Run.start_persists (h : Run arrived (initial start shuffled) s) {key : Key}
    {entry : Value × ℤ} (hstart : start.lookup key = some entry) :
    s.ds.datastore key = some entry := h.persists hstart

/-- Whatever the order of the steps. -/
theorem upToDate_of_covered
    (hcovered : Covered start contents shuffled (Coordinator.syncQuorum shuffled) arrived)
    (h : Run arrived (initial start shuffled) s) (hreturned : s.Returned) :
    UpToDate start contents shuffled s := by
  have hinv := h.inv
  refine ⟨fun p hp key entry hentry => ?_, fun key entry hentry =>
    ⟨entry, h.start_persists hentry, le_rfl⟩⟩
  have hkey := hcovered p hp key entry hentry
  cases hstart : start.lookup key with
  | some own =>
    rw [hstart] at hkey
    exact ⟨own, h.start_persists hstart, hkey⟩
  | none =>
    rw [hstart] at hkey
    obtain ⟨⟨q, hq, brought, hbrought⟩, hnewest⟩ := hkey
    obtain ⟨thread, hthread⟩ := Option.ne_none_iff_exists'.mp ((hinv.thread q).mpr hq)
    obtain rfl := hreturned q thread hthread
    have hstored := ((hinv.updating q [] hthread).2 _ hbrought).resolve_right List.not_mem_nil
    obtain ⟨entry', hentry'⟩ := Option.ne_none_iff_exists'.mp hstored
    obtain hfalse | ⟨q', hq', hmem⟩ := hinv.origin key entry' hentry'
    · rw [hstart] at hfalse
      cases hfalse
    · exact ⟨entry', hentry', hnewest q' hq' entry' hmem⟩

/-! ## Schedules -/

/-- The thread in `Update::manage` goes on to its end. -/
theorem run_updating {p : Peer} {newValues : List (Key × Value × ℤ)}
    (h : s.thread p = some (.updating newValues)) :
    Run arrived s { s.setThread p (.updating []) with
      ds := ServerMessage.Update.manage s.ds newValues } := by
  induction newValues generalizing s with
  | nil =>
    have hs : s.setThread p (.updating []) = s := by
      simp [setThread, ← h]
    rw [hs]
    exact .refl _
  | cons entry rest ih =>
    obtain ⟨key, value, version⟩ := entry
    let next : StartUp Peer Key Value :=
      { s.setThread p (.updating rest) with ds := s.ds.tryUpdate key value version }
    have hstep : step arrived s (.tryUpdate p) = some next := by simp [step, h, next]
    have hthread : next.thread p = some (.updating rest) := by simp [next, setThread]
    have hrest := ih hthread
    have hnext : next.setThread p (.updating []) =
        { s.setThread p (.updating []) with ds := next.ds } := by simp [next, setThread]
    rw [hnext] at hrest
    exact (Transition.Run.single trivial hstep).trans hrest

/-- After a thread has run alone from its start to its end, with its entries in this order. -/
def exchange (s : StartUp Peer Key Value) (p : Peer) (newValues : List (Key × Value × ℤ)) :
    StartUp Peer Key Value :=
  { s.setThread p (.updating []) with ds := ServerMessage.Update.manage s.ds newValues }

theorem run_exchange {p : Peer} {newValues : List (Key × Value × ℤ)}
    (h : s.thread p = some .unsent) (hperm : newValues.Perm (arrived p)) :
    Run arrived s (s.exchange p newValues) := by
  have hsend : step arrived s (.send p) = some (s.setThread p .asked) := by simp [step, h]
  have hreply : step arrived (s.setThread p .asked) (.reply p newValues) =
      some (s.setThread p (.updating newValues)) := by
    simp [step, setThread, hperm]
  have hthread : (s.setThread p (.updating newValues)).thread p = some (.updating newValues) := by
    simp [thread_setThread]
  have hupdate : Run arrived (s.setThread p (.updating newValues)) (s.exchange p newValues) := by
    have hrun : Run arrived _ _ := run_updating hthread
    rwa [setThread_setThread] at hrun
  exact ((Transition.Run.single trivial hsend).trans (.single trivial hreply)).trans hupdate

omit [DecidableEq Value] in
theorem thread_exchange {p q : Peer} {newValues : List (Key × Value × ℤ)}
    {thread : SyncThread Key Value} (h : (s.exchange p newValues).thread q = some thread) :
    q = p ∧ thread = .updating [] ∨ q ≠ p ∧ s.thread q = some thread :=
  thread_setThread_eq_some h

/-- From a state in which no thread is under way, `sync` can return. -/
theorem exists_returned (arrived : Peer → List (Key × Value × ℤ)) (peers : List Peer)
    (s : StartUp Peer Key Value) (hunsent : ∀ p, s.thread p = some .unsent → p ∈ peers)
    (hthread : ∀ p thread, s.thread p = some thread → thread = .unsent ∨ thread = .updating []) :
    ∃ t, Run arrived s t ∧ t.Returned := by
  induction peers generalizing s with
  | nil =>
    refine ⟨s, .refl _, fun p thread hp => (hthread p thread hp).resolve_left ?_⟩
    rintro rfl
    simpa using hunsent p hp
  | cons p peers ih =>
    by_cases hp : s.thread p = some .unsent
    · obtain ⟨t, hrun, hreturned⟩ := ih (s.exchange p (arrived p))
        (fun q hq => by
          rcases thread_exchange hq with ⟨-, h⟩ | ⟨hqp, hq⟩
          · cases h
          · exact (List.mem_cons.mp (hunsent q hq)).resolve_left hqp)
        (fun q thread hq => by
          rcases thread_exchange hq with ⟨-, h⟩ | ⟨-, hq⟩
          · exact .inr h
          · exact hthread q thread hq)
      exact ⟨t, (run_exchange hp (.refl _)).trans hrun, hreturned⟩
    · refine ih s (fun q hq => (List.mem_cons.mp (hunsent q hq)).resolve_left ?_) hthread
      rintro rfl
      exact hp hq

theorem exists_returned_initial (start : Entries Key Value)
    (arrived : Peer → List (Key × Value × ℤ)) (shuffled : List Peer) :
    ∃ t, Run arrived (initial start shuffled) t ∧ t.Returned :=
  exists_returned arrived (Coordinator.syncQuorum shuffled) _ (fun _ hp => (thread_initial hp).1)
    fun _ _ hp => .inl (thread_initial hp).2

/-- Any entry that a contacted replica brings can be the first one for its key. -/
theorem exists_returned_first {q : Peer} (hq : q ∈ Coordinator.syncQuorum shuffled) {key : Key}
    {entry : Value × ℤ} (hstart : start.lookup key = none) (hentry : (key, entry) ∈ arrived q) :
    ∃ t, Run arrived (initial start shuffled) t ∧ t.Returned ∧
      t.ds.datastore key = some entry := by
  have hunsent : (initial start shuffled).thread q = some .unsent := if_pos hq
  let newValues := (key, entry) :: (arrived q).erase (key, entry)
  obtain ⟨t, hrun, hreturned⟩ := exists_returned arrived (Coordinator.syncQuorum shuffled)
    ((initial start shuffled).exchange q newValues)
    (fun p hp => by
      rcases thread_exchange hp with ⟨-, h⟩ | ⟨-, hp⟩
      · cases h
      · exact (thread_initial hp).1)
    (fun p thread hp => by
      rcases thread_exchange hp with ⟨-, h⟩ | ⟨-, hp⟩
      · exact .inr h
      · exact .inl (thread_initial hp).2)
  have hfirst := run_exchange hunsent (List.perm_cons_erase hentry).symm
  refine ⟨t, hfirst.trans hrun, hreturned, hrun.persists ?_⟩
  rw [exchange, ServerMessage.Update.manage_datastore]
  simp [initial, DatastoreManager.loaded, hstart, newValues]

theorem covered_of_upToDate
    (h : ∀ t, Run arrived (initial start shuffled) t → t.Returned →
      UpToDate start contents shuffled t) :
    Covered start contents shuffled (Coordinator.syncQuorum shuffled) arrived := by
  intro p hp key entry hentry
  obtain ⟨t, hrun, hreturned⟩ := exists_returned_initial start arrived shuffled
  obtain ⟨entry', hentry', hle⟩ := (h t hrun hreturned).1 p hp key entry hentry
  cases hstart : start.lookup key with
  | some own =>
    obtain rfl := Option.some.inj ((hrun.start_persists hstart).symm.trans hentry')
    exact hle
  | none =>
    refine ⟨?_, fun q hq newest hnewest => ?_⟩
    · obtain hfalse | ⟨q, hq, hmem⟩ := hrun.inv.origin key entry' hentry'
      · rw [hstart] at hfalse
        cases hfalse
      · exact ⟨q, hq, entry', hmem⟩
    · obtain ⟨t, hrun, hreturned, hstored⟩ := exists_returned_first hq hstart hnewest
      obtain ⟨entry', hentry', hle⟩ := (h t hrun hreturned).1 p hp key entry hentry
      obtain rfl := Option.some.inj (hstored.symm.trans hentry')
      exact hle

end StartUp

/-! ## The texts -/

namespace StartUp

open Connection (Brings InTwo brings_frame inTwo_frame)

variable {Peer : Type}

/-- The versions of the entries, in iteration order. -/
def statusOf (start : Entries Text Text) : List (Text × ℤ) :=
  start.entries.map fun e => (e.1, e.2.2)

/-- All that is stored. -/
def storedIn (contents : Entries Text Text) : List (Text × Text × ℤ) :=
  contents.entries.map fun e => (e.1, e.2)

/-- A contacted replica that stores these entries and the chunks in which the `SYNC` and its
answer arrive. -/
inductive Answers (contents : Entries Text Text) (status : List (Text × ℤ)) :
    List Text → List Text → Prop
  /-- it reads some status, and the entries that are newer there are in some order -/
  | update {asking incoming : List Text} {entries : List (Text × ℤ)}
      {newValues : List (Text × Text × ℤ)} (asked : Brings (Message.sync status).toString asking)
      (read : Connection.read asking = some (.ok (.sync entries)))
      (newer : newValues.Perm (newerEntries contents fun key => entries.lookup key))
      (sent : Brings (Message.update newValues).toString incoming) :
      Answers contents status asking incoming
  /-- it cannot read the `SYNC`, and the connection ends -/
  | closed {asking : List Text} {thrown : Thrown}
      (asked : Brings (Message.sync status).toString asking)
      (unread : Connection.read asking = some (.error thrown)) : Answers contents status asking []

/-- Every contacted replica answers. -/
def Answered (start : Entries Text Text) (contents : Peer → Entries Text Text)
    (contacted : List Peer) (asking incoming : Peer → List Text) : Prop :=
  ∃ status, status.Perm (statusOf start) ∧
    ∀ p ∈ contacted, Answers (contents p) status (asking p) (incoming p)

/-- The entries that reach `Update::manage`.  An exception of `receive` is caught, and the other
messages that a piece of an `UPDATE` can be read as change nothing. -/
def arrivedIn (incoming : List Text) : List (Text × Text × ℤ) :=
  match Connection.read incoming with
  | some (.ok (.update newValues)) => newValues
  | _ => []

/-- What the list of an `UPDATE` carries as it is. -/
structure Carried (e : Text × Text × ℤ) : Prop where
  readable : ServerMessage.Update.Readable e
  key : WellFormed e.1
  value : WellFormed e.2.1

section Carried

variable {text : Text} {chunks asking incoming : List Text} {status entries : List (Text × ℤ)}
  {newValues : List (Text × Text × ℤ)} {contents start : Entries Text Text}

theorem arrivedIn_nil : arrivedIn [] = [] := by rw [arrivedIn, Connection.read_nil]

theorem mem_storedIn {key : Text} {entry : Text × ℤ} :
    (key, entry) ∈ storedIn contents ↔ contents.lookup key = some entry := by
  refine Iff.trans ?_ (List.mem_dlookup_iff contents.nodupKeys).symm
  simp [storedIn]

theorem wellFormed_sync (h : ∀ e ∈ entries, WellFormed e.1 ∧ 0 ≤ e.2) :
    WellFormed (Message.sync entries).toString := by
  rw [Message.toString, ServerMessage.Sync.toString]
  split_ifs
  · decide +kernel
  · refine .of_subset ?_ (List.Subset.trans (List.dropLast_subset _) (List.dropLast_subset _))
    refine wellFormed_append.mpr ⟨by decide +kernel, wellFormed_flatMap fun e he => ?_⟩
    unfold ServerMessage.Sync.entry
    simp only [wellFormed_append, (h e he).1, wellFormed_ofInt (h e he).2]
    decide +kernel

theorem wellFormed_update
    (h : ∀ e ∈ newValues, WellFormed e.1 ∧ WellFormed e.2.1 ∧ 0 ≤ e.2.2) :
    WellFormed (Message.update newValues).toString := by
  rw [Message.toString, ServerMessage.Update.toString]
  split_ifs
  · decide +kernel
  · refine .of_subset ?_ (List.Subset.trans (List.dropLast_subset _) (List.dropLast_subset _))
    refine wellFormed_append.mpr ⟨by decide +kernel, wellFormed_flatMap fun e he => ?_⟩
    obtain ⟨hkey, hvalue, hversion⟩ := h e he
    unfold ServerMessage.Update.entry
    simp only [wellFormed_append, hkey, hvalue, wellFormed_ofInt hversion]
    decide +kernel

theorem Carried.wellFormed {e : Text × Text × ℤ} (h : Carried e) :
    WellFormed e.1 ∧ WellFormed e.2.1 ∧ 0 ≤ e.2.2 := ⟨h.key, h.value, h.readable.version.1⟩

theorem mem_storedIn_of_perm
    (hnewer : newValues.Perm (newerEntries contents fun key => entries.lookup key))
    {e : Text × Text × ℤ} (he : e ∈ newValues) : e ∈ storedIn contents :=
  mem_storedIn.mpr (mem_newerEntries.mp (hnewer.mem_iff.mp he)).1

/-- An answer that comes in at most two chunks is read as it was sent. -/
theorem Answers.perm_arrivedIn (h : Answers contents status asking incoming)
    (hwhole : InTwo incoming) (hcarried : ∀ e ∈ storedIn contents, Carried e)
    (hread : Connection.read asking = some (.ok (.sync entries))) :
    (arrivedIn incoming).Perm (newerEntries contents fun key => entries.lookup key) := by
  cases h with
  | closed asked unread => cases hread.symm.trans unread
  | @update _ _ newValues _ read newer sent =>
    cases hread.symm.trans read
    have hmem : ∀ e ∈ newValues, Carried e := fun e he =>
      hcarried e (mem_storedIn_of_perm newer he)
    have hnodup : (newValues.map Prod.fst).Nodup :=
      (newer.map Prod.fst).nodup_iff.mpr nodup_newerEntries
    have harrived := sent.read (wellFormed_update fun e he => (hmem e he).wellFormed) hwhole
    rw [toMessage_update hnodup fun e he => (hmem e he).readable] at harrived
    rwa [arrivedIn, harrived]

/-- The status of the starting replica is read as it was sent. -/
theorem read_status (h : Brings (Message.sync status).toString asking)
    (hstatus : status.Perm (statusOf start)) (hwhole : InTwo asking)
    (hreadable : ∀ e ∈ statusOf start, ServerMessage.Sync.Readable e ∧ WellFormed e.1) :
    Connection.read asking = some (.ok (.sync status)) := by
  have hmem : ∀ e ∈ status, ServerMessage.Sync.Readable e ∧ WellFormed e.1 := fun e he =>
    hreadable e (hstatus.mem_iff.mp he)
  have hnodup : (status.map Prod.fst).Nodup := by
    rw [(hstatus.map Prod.fst).nodup_iff, statusOf, List.map_map]
    exact start.nodupKeys
  rw [h.read (wellFormed_sync fun e he => ⟨(hmem e he).2, (hmem e he).1.version.1⟩) hwhole,
    toMessage_sync hnodup fun e he => (hmem e he).1]

theorem lookup_status (hstatus : status.Perm (statusOf start)) {key : Text}
    (hstart : start.lookup key = none) : status.lookup key = none := by
  refine List.lookup_eq_none_iff.mpr fun e he => ?_
  obtain ⟨entry, hentry, rfl⟩ := List.mem_map.mp (hstatus.mem_iff.mp he)
  have hkey : key ≠ entry.1 := by
    rintro rfl
    exact AList.lookup_eq_none.mp hstart (List.mem_map_of_mem hentry)
  simpa using hkey

/-- What is read of an answer that comes in at most two chunks is stored by the replica that gives
it, whatever that one has read of the `SYNC`. -/
theorem Answers.mem_storedIn (h : Answers contents status asking incoming)
    (hwhole : InTwo incoming ∨ arrivedIn incoming = [])
    (hcarried : ∀ e ∈ storedIn contents, Carried e) {e : Text × Text × ℤ}
    (he : e ∈ arrivedIn incoming) : e ∈ storedIn contents := by
  rcases hwhole with hwhole | hlost
  · cases h with
    | closed => exact absurd (arrivedIn_nil ▸ he) List.not_mem_nil
    | update asked read newer sent =>
      have hperm := (Answers.update asked read newer sent).perm_arrivedIn hwhole hcarried read
      exact mem_storedIn_of_perm hperm he
  · rw [hlost] at he
    exact absurd he List.not_mem_nil

/-- Of the messages that a piece of an answer can be read as, `manage` stores entries for an
`UPDATE` alone. -/
theorem Answers.getType_of_read (h : Answers contents status asking incoming)
    (hstored : ∀ e ∈ storedIn contents, WellFormed e.1 ∧ WellFormed e.2.1 ∧ 0 ≤ e.2.2)
    {message : Message Text Text} (hread : Connection.read incoming = some (.ok message)) :
    message.getType ∈ [.ack, .nack, .value, .sync, .update] := by
  cases h with
  | closed => cases Connection.read_nil.symm.trans hread
  | update _ _ newer sent =>
    have hwellFormed := wellFormed_update fun e he => hstored e (mem_storedIn_of_perm newer he)
    rw [Connection.read_eq (sent.cutFrom hwellFormed), Option.some.injEq] at hread
    exact ServerMessage.getType_of_drop_update hread

theorem Answers.brings (h : Answers contents status asking incoming) :
    Brings (Message.sync status).toString asking := by
  cases h <;> assumption

end Carried

section Covered

variable {shuffled contacted : List Peer} {start : Entries Text Text}
  {contents : Peer → Entries Text Text} {asking incoming : Peer → List Text}

/-- All texts come in at most two chunks, and no text in them can be mistaken for the end of
another one. -/
structure Legible (start : Entries Text Text) (contents : Peer → Entries Text Text)
    (contacted : List Peer) (asking incoming : Peer → List Text) : Prop where
  whole : ∀ p ∈ contacted, InTwo (asking p) ∧ InTwo (incoming p)
  start : ∀ e ∈ statusOf start, ServerMessage.Sync.Readable e ∧ WellFormed e.1
  contents : ∀ p ∈ contacted, ∀ e ∈ storedIn (contents p), Carried e

/-- A key that is not stored at the start arrives with what is stored for it. -/
theorem Legible.mem_arrivedIn (h : Legible start contents contacted asking incoming)
    (hanswered : Answered start contents contacted asking incoming) {q : Peer}
    (hq : q ∈ contacted) {key : Text} (hstart : start.lookup key = none) {entry : Text × ℤ} :
    (key, entry) ∈ arrivedIn (incoming q) ↔ (key, entry) ∈ storedIn (contents q) := by
  obtain ⟨status, hstatus, hanswers⟩ := hanswered
  obtain ⟨hasking, hincoming⟩ := h.whole q hq
  have hread := read_status (hanswers q hq).brings hstatus hasking h.start
  rw [((hanswers q hq).perm_arrivedIn hincoming (h.contents q hq) hread).mem_iff,
    mem_newerEntries, mem_storedIn, lookup_status hstatus hstart]
  simp

variable [DecidableEq Peer]

/-- `sync` brings a replica up to date, in whatever order the replies arrive, exactly when the
versions are covered by what is read of the replies.  That is all that is stored there if the
texts are read as they were sent. -/
theorem sync_upToDate_iff
    (hanswered : Answered start contents (Coordinator.syncQuorum shuffled) asking incoming) :
    ((∀ t, Run (arrivedIn ∘ incoming) (initial start shuffled) t → t.Returned →
      UpToDate start contents shuffled t) ↔
        Covered start contents shuffled (Coordinator.syncQuorum shuffled)
          (arrivedIn ∘ incoming)) ∧
      (Legible start contents (Coordinator.syncQuorum shuffled) asking incoming →
        (Covered start contents shuffled (Coordinator.syncQuorum shuffled)
            (arrivedIn ∘ incoming) ↔
          Covered start contents shuffled (Coordinator.syncQuorum shuffled)
            (storedIn ∘ contents))) := by
  refine ⟨⟨covered_of_upToDate, fun hcovered _ => upToDate_of_covered hcovered⟩, fun h => ?_⟩
  refine forall₅_congr fun p _ key entry _ => ?_
  cases hstart : start.lookup key with
  | some own => rfl
  | none =>
    refine and_congr (exists_congr fun q => and_congr_right fun hq => exists_congr fun entry' => ?_)
      (forall₃_congr fun q hq entry' => imp_congr_left ?_)
    · exact h.mem_arrivedIn hanswered hq hstart
    · exact h.mem_arrivedIn hanswered hq hstart

end Covered

/-! ## One key -/

/-- Short texts come in one chunk each. -/
theorem answers_short {contents : Entries Text Text} {status : List (Text × ℤ)}
    {newValues : List (Text × Text × ℤ)} (hstatus : WellFormed (Message.sync status).toString)
    (hread : ServerMessage.toMessage ((Message.sync status).toString ++ [escape]) =
      .ok (.sync status))
    (hnewer : newValues = newerEntries contents fun key => status.lookup key)
    (hasked : (Message.sync status).toString.length + 2 < Receiver.bufferSize)
    (hsent : (Message.update newValues).toString.length + 2 < Receiver.bufferSize) :
    Answers contents status [frame (Message.sync status).toString]
      [frame (Message.update newValues).toString] :=
  .update (brings_frame hasked)
    (((brings_frame hasked).read hstatus (inTwo_frame _)).trans (congrArg some hread))
    (.of_eq hnewer) (brings_frame hsent)

def oldEntry : Entries Text Text := .singleton ['k'] (['a'], 1)

def newEntry : Entries Text Text := .singleton ['k'] (['b'], 2)

/-- What a starting replica with this status hears from a replica that stores the new entry. -/
def heard (status : List (Text × ℤ)) : List Text :=
  [frame (Message.update (newerEntries newEntry fun key => status.lookup key)).toString]

theorem answered_old : Answered oldEntry (fun _ : Char => newEntry) ['C']
    (fun _ => [frame (Message.sync [(['k'], 1)]).toString]) fun _ => heard [(['k'], 1)] :=
  ⟨_, .refl _, fun _ _ => answers_short (by decide +kernel) (by decide +kernel) rfl
    (by decide +kernel) (by decide +kernel)⟩

theorem answered_none : Answered ∅ (fun _ : Char => newEntry) ['C']
    (fun _ => [frame (Message.sync []).toString]) fun _ => heard [] :=
  ⟨_, .refl _, fun _ _ => answers_short (by decide +kernel) (by decide +kernel) rfl
    (by decide +kernel) (by decide +kernel)⟩

theorem legible_new : Legible ∅ (fun _ : Char => newEntry) ['C']
    (fun _ => [frame (Message.sync []).toString]) fun _ => heard [] where
  whole _ _ := ⟨inTwo_frame _, inTwo_frame _⟩
  start e he := absurd he List.not_mem_nil
  contents p _ e he := by
    obtain rfl := List.mem_singleton.mp he
    exact ⟨⟨keyable_of_not_mem (by decide) (List.all_eq_true.mp (by decide)),
      not_holdsEnd_of_not_mem (by decide), List.all_eq_true.mp (by decide), by decide⟩, by decide,
      by decide⟩

/-- A replica without entries gets the one that both others store. -/
theorem sync_upToDate_iff_empty : ∃ t : StartUp Char Text Text,
    Run (arrivedIn ∘ fun _ => heard []) (initial ∅ ['B', 'C']) t ∧ t.Returned ∧
      UpToDate ∅ (fun _ => newEntry) ['B', 'C'] t := by
  have hquorum : Coordinator.syncQuorum ['B', 'C'] = ['C'] := rfl
  obtain ⟨hiff, hcovered⟩ := sync_upToDate_iff (hquorum ▸ answered_none)
  obtain ⟨t, hrun, hreturned⟩ :=
    exists_returned_initial ∅ (arrivedIn ∘ fun _ => heard []) ['B', 'C']
  refine ⟨t, hrun, hreturned, hiff.mpr ((hcovered (hquorum ▸ legible_new)).mpr
    fun p _ key entry hentry => ?_) t hrun hreturned⟩
  have hstart : (∅ : Entries Text Text).lookup key = none := rfl
  rw [hstart, hquorum]
  refine ⟨⟨'C', by decide, entry, mem_storedIn.mpr hentry⟩, fun q _ entry' hentry' => ?_⟩
  obtain rfl := Option.some.inj (hentry.symm.trans (mem_storedIn.mp hentry'))
  exact le_rfl

/-- A stale entry stays although every other replica has a newer one, and with one other
replica nothing is asked for. -/
theorem sync_leaves_behind :
    (∃ asking incoming, ∃ t : StartUp Char Text Text,
      Answered oldEntry (fun _ => newEntry) ['C'] asking incoming ∧
      Run (arrivedIn ∘ incoming) (initial oldEntry ['B', 'C']) t ∧ t.Returned ∧
      ¬ UpToDate oldEntry (fun _ => newEntry) ['B', 'C'] t) ∧
    ∃ t : StartUp Char Text Text,
      Run (arrivedIn ∘ fun _ => []) (initial ∅ ['B']) t ∧ t.Returned ∧
      ¬ UpToDate ∅ (fun _ => newEntry) ['B'] t := by
  constructor
  · obtain ⟨t, hrun, hreturned⟩ :=
      exists_returned_initial oldEntry (arrivedIn ∘ fun _ => heard [(['k'], 1)]) ['B', 'C']
    refine ⟨_, _, t, answered_old, hrun, hreturned, fun h => ?_⟩
    obtain ⟨entry, hentry, hle⟩ := h.1 'B' (by decide) ['k'] (['b'], 2) rfl
    obtain rfl := Option.some.inj ((hrun.start_persists (by rfl)).symm.trans hentry)
    simp at hle
  · refine ⟨_, .refl _, fun p thread hp => ?_, fun h => ?_⟩
    · have hquorum : Coordinator.syncQuorum ['B'] = [] := rfl
      simpa [hquorum] using (thread_initial hp).1
    · obtain ⟨entry, hentry, -⟩ := h.1 'B' (by decide) ['k'] (['b'], 2) rfl
      cases hentry

end StartUp

end LeaderlessDatastore
