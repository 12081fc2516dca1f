import LeaderlessDatastore.Linearization
import LeaderlessDatastore.Quiescence

/-!
# A replica joins again

While nothing is going on, the process of a replica ends and another one takes its
place, with a datastore that has lost no entry and holds none that no replica had.
What holds in every state of an agreed run then holds in the next state too.
-/

namespace LeaderlessDatastore

open Function

/-- What becomes of an attempt whose process has ended: it is not tried again. -/
def Coordinator.abandoned {Peer Key Value : Type} (co : Coordinator Peer Key Value) :
    Coordinator Peer Key Value :=
  if co.pc = .backoff then { co with pc := .superseded } else co

/-- A new process under the old name, whose `sync` has taken the first transaction id.  The
attempts and the connections of the old one keep their names, which are not used again. -/
def Replica.restarted {Peer Key Value : Type} (settings : Settings Peer)
    (r : Replica Peer Key Value) (replicaId : ℤ) (datastore : DatastoreManager Key Value) :
    Replica Peer Key Value where
  datastore := datastore
  coordinators := fun _ => none
  participants := fun _ => none
  replicaTS := replicaId + settings.replicasAmount
  attempt := fun a => (r.attempt a).map Coordinator.abandoned
  handler := r.handler

namespace Cluster

variable {n : ℕ} {Key Value : Type} {config : Fin n → Settings (Fin n)}
  {s t u : Cluster n Key Value} {x : Fin n} {ds : DatastoreManager Key Value}
  {ca cb : Fin n × ℕ} {co co' : Coordinator (Fin n) Key Value}

def rejoin (config : Fin n → Settings (Fin n)) (s : Cluster n Key Value) (x : Fin n)
    (ds : DatastoreManager Key Value) : Cluster n Key Value :=
  s.setReplica x ((s.replica x).restarted (config x) x ds)

@[simp] theorem handler_rejoin : (s.rejoin config x ds).handler = s.handler := by
  funext ℓ
  by_cases hx : ℓ.peer = x
  · subst hx
    simp [handler, rejoin, setReplica, Replica.restarted]
  · simp [handler, rejoin, setReplica, hx]

@[simp] theorem datastore_rejoin :
    (s.rejoin config x ds).datastore = update s.datastore x ds := by
  funext y
  by_cases hy : y = x
  · subst hy
    simp [datastore, rejoin, setReplica, Replica.restarted]
  · simp [datastore, rejoin, setReplica, hy]

theorem attempt_rejoin : (s.rejoin config x ds).attempt ca =
    if ca.1 = x then (s.attempt ca).map Coordinator.abandoned else s.attempt ca := by
  split_ifs with hx
  · subst hx
    simp [attempt, rejoin, setReplica, Replica.restarted]
  · simp [attempt, rejoin, setReplica, hx]

/-- An attempt is as it was, or no longer waits to be tried again. -/
theorem attempt_rejoin_cases (h : (s.rejoin config x ds).attempt ca = some co') :
    ∃ co, s.attempt ca = some co ∧
      (co' = co ∨ co.pc = .backoff ∧ co' = { co with pc := .superseded }) := by
  rw [attempt_rejoin] at h
  split_ifs at h
  · obtain ⟨co, hco, rfl⟩ := Option.map_eq_some_iff.mp h
    refine ⟨co, hco, ?_⟩
    unfold Coordinator.abandoned
    split_ifs with hpc
    · exact .inr ⟨hpc, rfl⟩
    · exact .inl rfl
  · exact ⟨co', h, .inl rfl⟩

/-- The replica loses no entry and takes over what others have. -/
structure Rejoins (s : Cluster n Key Value) (x : Fin n) (ds : DatastoreManager Key Value) :
    Prop where
  quiet : Quiet s
  unlocked : ∀ key, ds.owner2pc key = none
  kept : ∀ key entry, (s.datastore x).datastore key = some entry → ds.datastore key = some entry
  origin : ∀ key entry, ds.datastore key = some entry →
    ∃ y, (s.datastore y).datastore key = some entry

/-! ## Attempts -/

theorem committed_rejoin (h : (s.rejoin config x ds).attempt ca = some co) (hc : co.committed) :
    s.attempt ca = some co := by
  obtain ⟨co, hco, rfl | ⟨-, rfl⟩⟩ := attempt_rejoin_cases h
  · exact hco
  · cases hop : co.op <;> simp [Coordinator.committed, hop] at hc

variable [DecidableEq Key] [Inhabited Value]

omit [DecidableEq Key] [Inhabited Value] in
theorem Inv.unlocked_lockOf (hs : Inv config s) {key : Key} {uid : ℤ} {y : Fin n}
    (hfree : (s.datastore y).owner2pc key = none) : s.lockOf ca y ≠ some (key, uid) := by
  intro hlock
  have howner : (s.datastore y).owner2pc key = some uid := (hs.lockedBy_iff.mpr hlock).owner
  rw [hfree] at howner
  cases howner

/-- The step that ends an attempt in the model of the running cluster. -/
theorem supersede (s : Cluster n Key Value) (ca : Fin n × ℕ) (hpc : co.pc = .backoff) :
    CoordinatorStep (config ca.1) (s.replica ca.1) ca.2 co
    { co with pc := .superseded } (s.replica ca.1).coordinators (s.replica ca.1).datastore :=
  .supersede hpc

theorem Inv.later_rejoin (hs : Inv config s) : Later s (s.rejoin config x ds) := by
  intro ca co hco
  rw [attempt_rejoin]
  split_ifs
  · refine ⟨co.abandoned, by rw [hco, Option.map_some], ?_⟩
    unfold Coordinator.abandoned
    split_ifs with hpc
    · exact (supersede s ca hpc).later (hs.attempt_ok ca co hco)
    · exact .refl co
  · exact ⟨co, hco, .refl co⟩

omit [DecidableEq Key] [Inhabited Value] in
theorem Rejoins.vacant (h : Rejoins s x ds) (holder : Holder (Fin n)) :
    ((s.replica x).restarted (config x) x ds).occupied holder = none ∧
      ((s.replica x).restarted (config x) x ds).held holder = none := by
  cases holder with
  | inl a =>
    cases hco : (s.replica x).attempt a with
    | none => simp [Replica.occupied, Replica.held, Replica.restarted, hco]
    | some co =>
      rcases h.quiet.attempts (x, a) co hco with hpc | hpc | hpc <;>
        simp [Replica.occupied, Replica.held, Replica.restarted, hco, Coordinator.abandoned, hpc,
          Coordinator.seat, Coordinator.lock, Coordinator.registered, Coordinator.locking]
  | inr conn =>
    have hthread : (s.replica x).handler conn = .idle ∨ (s.replica x).handler conn = .closed :=
      h.quiet.threads ⟨conn.1, conn.2, x⟩
    rcases hthread with hh | hh <;>
      simp [Replica.occupied, Replica.held, Replica.restarted, hh, Handler.seat, Handler.lock,
        Handler.registered, Handler.locking]

theorem Inv.rejoin (hset : ∀ c, (config c).Ok c) (hs : Inv config s) (h : Rejoins s x ds) :
    Inv config (s.rejoin config x ds) where
  replica_ok := setReplica_ok hs.replica_ok
    ⟨.of_vacant (fun _ => rfl) h.unlocked (fun holder => (h.vacant holder).1)
      fun holder => (h.vacant holder).2, fun _ => .inl rfl⟩
  attempt_ok ca co' hco' := by
    obtain ⟨co, hco, rfl | ⟨hpc, rfl⟩⟩ := attempt_rejoin_cases hco'
    · exact hs.attempt_ok ca _ hco
    · exact (hs.attempt_ok ca co hco).step (hset ca.1) (supersede s ca hpc)
  link_ok ℓ := by
    rw [handler_rejoin]
    change LinkOk ((s.rejoin config x ds).attempt ℓ.source) ℓ.peer (s.handler ℓ) (s.down ℓ) (s.up ℓ)
    cases hco' : (s.rejoin config x ds).attempt ℓ.source with
    | none =>
      have hnone : s.attempt ℓ.source = none := by
        rw [attempt_rejoin] at hco'
        split_ifs at hco' with hx
        · exact Option.map_eq_none_iff.mp hco'
        · exact hco'
      exact hnone ▸ hs.link_ok ℓ
    | some co' =>
      obtain ⟨co, hco, rfl | ⟨hpc, rfl⟩⟩ := attempt_rejoin_cases hco'
      · exact hco ▸ hs.link_ok ℓ
      · have hok := hs.attempt_ok _ co hco
        exact (hs.phase hco).grow (hok.grows (supersede s ℓ.source hpc))

/-! ## Versions -/

section Versions

omit [DecidableEq Key] [Inhabited Value]

theorem Rejoins.datastore_unlocked (h : Rejoins s x ds) (y : Fin n) (key : Key) :
    ((s.rejoin config x ds).datastore y).owner2pc key = none := by
  rw [datastore_rejoin]
  by_cases hy : y = x
  · subst hy
    rw [update_self, h.unlocked]
  · rw [update_of_ne hy, h.quiet.unlocked]

theorem Rejoins.storedVersion_le (h : Rejoins s x ds) (hs : Good config s) (y : Fin n) (key : Key) :
    (s.datastore y).storedVersion key ≤
      ((s.rejoin config x ds).datastore y).storedVersion key := by
  rw [datastore_rejoin]
  by_cases hy : y = x
  · subst hy
    rw [update_self]
    cases hentry : (s.datastore y).datastore key with
    | some entry =>
      unfold DatastoreManager.storedVersion
      rw [hentry, h.kept key entry hentry]
    | none =>
      have hzero : (s.datastore y).storedVersion key = 0 := by
        simp [DatastoreManager.storedVersion, hentry]
      rw [hzero]
      unfold DatastoreManager.storedVersion
      split
      · next value version hnew =>
        obtain ⟨z, hz⟩ := h.origin key _ hnew
        have := hs.counted.fromPut (hs.sourced.stored z key _ hz)
        dsimp only at this
        omega
      · exact le_rfl
  · rw [update_of_ne hy]

end Versions

theorem Sourced.rejoin (hs : Inv config s) (hsrc : Sourced s) (h : Rejoins s x ds) :
    Sourced (s.rejoin config x ds) where
  stored y key entry hentry := by
    refine FromPut.later ?_ hs.later_rejoin
    rw [datastore_rejoin] at hentry
    by_cases hy : y = x
    · subst hy
      rw [update_self] at hentry
      obtain ⟨z, hz⟩ := h.origin key entry hentry
      exact hsrc.stored z key entry hz
    · rw [update_of_ne hy] at hentry
      exact hsrc.stored y key entry hentry
  collected ca co' hco' entry hentry := by
    refine FromPut.later ?_ hs.later_rejoin
    obtain ⟨co, hco, rfl | ⟨-, rfl⟩⟩ := attempt_rejoin_cases hco'
    · exact hsrc.collected ca _ hco entry hentry
    · exact hsrc.collected ca co hco entry hentry
  replying ℓ key result hh hne := by
    rw [handler_rejoin] at hh
    exact (hsrc.replying ℓ key result hh hne).later hs.later_rejoin
  fetched ℓ key entry hm := (hsrc.fetched ℓ key entry hm).later hs.later_rejoin
  repairs ℓ key value version hm := (hsrc.repairs ℓ key value version hm).later hs.later_rejoin
  answered ca co' entry hco' hanswer := by
    refine FromPut.later ?_ hs.later_rejoin
    obtain ⟨co, hco, rfl | ⟨-, rfl⟩⟩ := attempt_rejoin_cases hco'
    · exact hsrc.answered ca _ entry hco hanswer
    · exact hsrc.answered ca co entry hco hanswer

theorem Good.rejoin (hset : ∀ c, (config c).Ok c) (hs : Good config s) (h : Rejoins s x ds) :
    Good config (s.rejoin config x ds) where
  inv := hs.inv.rejoin hset h
  sound := by
    constructor
    case flagged =>
      intro ℓ hflag
      rw [handler_rejoin] at hflag
      rcases h.quiet.threads ℓ with hh | hh <;> rw [hh] at hflag <;> cases hflag
    case version => exact fun ca co hco hc => hs.sound.version ca co (committed_rejoin hco hc) hc
  sourced := hs.sourced.rejoin hs.inv h
  counted := by
    constructor
    case begun =>
      intro ca co' hco' hop hpc
      obtain ⟨co, hco, rfl | ⟨-, rfl⟩⟩ := attempt_rejoin_cases hco'
      · exact hs.counted.begun ca _ hco hop hpc
      · simp at hpc
    case committed => exact fun ca co hco hc =>
      hs.counted.committed ca co (committed_rejoin hco hc) hc
  shielded := by
    intro ca co hco hc y hy
    -- nobody has a lock, so the version is stored
    have hle : co.version ≤ (s.datastore y).storedVersion co.key :=
      (hs.shielded ca co (committed_rejoin hco hc) hc y hy).le_of_unlocked hs.inv
        (h.quiet.unlocked y co.key)
    refine .inr ⟨hle.trans (h.storedVersion_le hs y co.key), fun cb known hrecord => ?_⟩
    obtain ⟨uid, hlock⟩ := lockOf_of_recordOf hrecord
    exact absurd hlock ((hs.inv.rejoin hset h).unlocked_lockOf (h.datastore_unlocked y co.key))
  distinct := fun ca cb co co' hco hco' hc hc' hkey hversion =>
    hs.distinct ca cb co co' (committed_rejoin hco hc) (committed_rejoin hco' hc') hc hc' hkey
      hversion

/-- What a committed put means for later attempts does not depend on which process runs. -/
theorem After.rejoin (hset : ∀ c, (config c).Ok c) (ht : After config s ca co t)
    (h : Rejoins t x ds) : After config s ca co (t.rejoin config x ds) where
  good := ht.good.rejoin hset h
  later := ht.later.trans ht.good.inv.later_rejoin
  above cb co' hfresh hco' hc' hkey := ht.above cb co' hfresh (committed_rejoin hco' hc') hc' hkey
  informed cb hfresh := by
    have hold := ht.informed cb hfresh
    constructor
    case own =>
      intro co' hco' hop hkey hpc hmem
      obtain ⟨co₀, hco₀, rfl | ⟨-, rfl⟩⟩ := attempt_rejoin_cases hco'
      · exact hold.own _ hco₀ hop hkey hpc hmem
      · simp at hpc
    case heard =>
      intro co' y hco' hop hkey hpc hy hfinished hmem
      obtain ⟨co₀, hco₀, rfl | ⟨-, rfl⟩⟩ := attempt_rejoin_cases hco'
      · exact hold.heard _ y hco₀ hop hkey hpc hy hfinished hmem
      · cases hpc
    case replying =>
      intro y hy result hh
      rw [handler_rejoin] at hh
      exact hold.replying y hy result hh
    case fetched => exact fun y hy entry hm => hold.fetched y hy entry hm
    case answered =>
      intro co' answer hco' hkey hanswer
      obtain ⟨co₀, hco₀, rfl | ⟨-, rfl⟩⟩ := attempt_rejoin_cases hco'
      · exact hold.answered _ answer hco₀ hkey hanswer
      · exact hold.answered co₀ answer hco₀ hkey hanswer

end Cluster
end LeaderlessDatastore
