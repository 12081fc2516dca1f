import LeaderlessDatastore.Codec
import LeaderlessDatastore.LockDiscipline
import LeaderlessDatastore.Transition

/-!
# One replica and whatever it receives

The handlers of one replica in any interleaving, with no assumption on what the other side
of a connection sends or when it closes.  A handler that runs inside the `receive` of another
one counts as one more connection.
-/

namespace LeaderlessDatastore

open Function

/-- A thread in `Sync::manage` or in `Update::manage`. -/
inductive Transfer (Key Value : Type) where
  | idle
  /-- `Sync::manage`, before `getStatus` -/
  | asked (entries : List (Key × ℤ))
  /-- before `get` of the next key that is newer here -/
  | collecting (keys : List Key) (result : List (Key × Value × ℤ))
  /-- before `tryUpdate` of the next entry -/
  | updating (newValues : List (Key × Value × ℤ))

structure Serving (Peer Key Value : Type) where
  replica : Replica Peer Key Value
  transfer : ℕ → Transfer Key Value

namespace Serving

variable {Peer Key Value : Type}

def initial (contents : Key → Option (Value × ℤ)) (replicaId : ℤ) : Serving Peer Key Value where
  replica := .started contents replicaId
  transfer := fun _ => .idle

def setTransfer (s : Serving Peer Key Value) (t : ℕ) (thread : Transfer Key Value) :
    Serving Peer Key Value := { s with transfer := update s.transfer t thread }

inductive Event (Peer Key Value : Type) where
  /-- `Put::manage` and `Get::manage` -/
  | run (action : Replica.Action Peer Key Value)
  | send (a : ℕ) (x : Peer)
  /-- a thread of `sendToReplicas` receives -/
  | receive (a : ℕ) (x : Peer) (m : Message Key Value)
  /-- it receives a message that is no answer, and counts it -/
  | count (a : ℕ) (x : Peer)
  /-- an answer arrives on any other connection -/
  | hear (m : Message Key Value)
  /-- `Prepare::manage`, `Fetch::manage` and `Repair::manage` -/
  | deliver (conn : Peer × ℕ) (m : Message Key Value)
  | proceed (conn : Peer × ℕ)
  /-- the `receive` of `prepare2PC` returns without a decision -/
  | wake (conn : Peer × ℕ)
  /-- `receive` throws -/
  | hangup (conn : Peer × ℕ)
  | sync (t : ℕ) (entries : List (Key × ℤ))
  /-- with the keys of the status in iteration order -/
  | getStatus (t : ℕ) (keys : List Key)
  | collect (t : ℕ)
  | update (t : ℕ) (newValues : List (Key × Value × ℤ))
  | tryUpdate (t : ℕ)

variable [DecidableEq Key] [DecidableEq Peer]

/-- `receive` returns, and `replies` goes up. -/
def count (r : Replica Peer Key Value) (a : ℕ) (x : Peer) : Option (Replica Peer Key Value) := do
  let co ← r.attemptAt a .exchange
  if x ∈ co.quorum ∧ co.sender x = .waiting then
    some (r.setAttempt a { co with
      replies := co.replies + 1, sender := Function.update co.sender x .finished })
  else none

/-- The test in the loop of `Sync::manage`. -/
def newer (status : Key → Option ℤ) (entries : List (Key × ℤ)) (key : Key) : Bool :=
  match status key with
  | some version => (entries.lookup key).all (· < version)
  | none => false

def step [Inhabited Value] (settings : Settings Peer) (s : Serving Peer Key Value) :
    Event Peer Key Value → Option (Serving Peer Key Value)
  | .run action => (s.replica.run settings action).map fun r => { s with replica := r }
  | .send a x => (s.replica.send a x).map fun (r, _) => { s with replica := r }
  | .receive a x m => (s.replica.receive a x m).map fun r => { s with replica := r }
  | .count a x => (count s.replica a x).map fun r => { s with replica := r }
  | .hear m => (s.replica.manageReply m).map fun r => { s with replica := r }
  | .deliver conn m => (s.replica.deliver conn m).map fun r => { s with replica := r }
  | .proceed conn => (s.replica.proceed conn).map fun (r, _) => { s with replica := r }
  | .wake conn => some { s with replica := s.replica.wake conn }
  | .hangup conn => (s.replica.hangup conn).map fun r => { s with replica := r }
  | .sync t entries =>
    match s.transfer t with
    | .idle => some (s.setTransfer t (.asked entries))
    | _ => none
  -- the status is read in one piece, the values one after the other
  | .getStatus t keys =>
    match s.transfer t with
    | .asked entries =>
      some (s.setTransfer t
        (.collecting (keys.filter (newer s.replica.datastore.getStatus entries)) []))
    | _ => none
  | .collect t =>
    match s.transfer t with
    | .collecting [] _ => some (s.setTransfer t .idle)
    -- waits while the key is locked
    | .collecting (key :: keys) result =>
      (s.replica.datastore.get key default).map fun value =>
        s.setTransfer t (.collecting keys (emplace result key value))
    | _ => none
  | .update t newValues =>
    match s.transfer t with
    | .idle => some (s.setTransfer t (.updating newValues))
    | _ => none
  | .tryUpdate t =>
    match s.transfer t with
    | .updating [] => some (s.setTransfer t .idle)
    | .updating ((key, value, version) :: newValues) =>
      some { s.setTransfer t (.updating newValues) with
        replica := { s.replica with
          datastore := s.replica.datastore.tryUpdate key value version } }
    | _ => none

end Serving

/-! ## What the messages do to the handlers -/

namespace Handler

variable {Key Value : Type} {f : Participant Key Value → Participant Key Value}

theorem seat_mapParticipant (hkey : ∀ p, (f p).key = p.key) (h : Handler Key Value) :
    (h.mapParticipant f).seat = h.seat := by
  cases h <;> simp [mapParticipant, seat, registered, hkey]

theorem lock_mapParticipant (hkey : ∀ p, (f p).key = p.key) (huid : ∀ p, (f p).uid = p.uid)
    (h : Handler Key Value) : (h.mapParticipant f).lock = h.lock := by
  cases h <;> simp [mapParticipant, lock, locking, hkey, huid]

theorem registered_of_locking {hd : Handler Key Value} {p : Participant Key Value}
    (h : hd.locking = some p) : hd.registered = some p := by
  cases hd <;> first | exact h | cases h

end Handler

/-- Only a put that is registered holds a lock. -/
theorem Coordinator.of_lock {Peer Key Value : Type} {co : Coordinator Peer Key Value} {key : Key}
    {uid : ℤ} (h : co.lock = some (key, uid)) :
    ∃ value, co.op = .put value ∧ co.registered ∧ co.key = key ∧ co.uid = uid := by
  unfold lock at h
  split_ifs at h with hlocking
  cases h
  have hreg := registered_of_locking hlocking
  cases hop : co.op with
  | put value => exact ⟨value, rfl, hreg, rfl, rfl⟩
  | get => simp [locking, hop] at hlocking

namespace Replica

open Coordinator (registered locking)

variable {Peer Key Value : Type} {r r' : Replica Peer Key Value} {a : ℕ}
  {co co' : Coordinator Peer Key Value}

/-- What holds of a replica whatever it receives: the registries and the locks agree with the
threads, and a request for a value is in no state of a write. -/
structure Served (r : Replica Peer Key Value) : Prop where
  ok : r.Ok
  get_pc : ∀ a co, r.attempt a = some co → co.op = .get →
    co.pc ≠ .aborting ∧ co.pc ≠ .release ∧ co.pc ≠ .committing

theorem Served.of_started (contents : Key → Option (Value × ℤ)) (replicaId : ℤ) :
    (started contents replicaId : Replica Peer Key Value).Served :=
  ⟨.of_started contents replicaId, fun _ _ h => nomatch h⟩

/-- Where the coordinators stay as they are. -/
theorem Served.of_attempt (h : r.Served) (hok : r'.Ok) (hattempt : r'.attempt = r.attempt) :
    r'.Served := ⟨hok, hattempt ▸ h.get_pc⟩

/-- Where one coordinator changes. -/
theorem Served.of_update (h : r.Served) (hok : r'.Ok)
    (hattempt : r'.attempt = update r.attempt a (some co'))
    (hget : co'.op = .get → co'.pc ≠ .aborting ∧ co'.pc ≠ .release ∧ co'.pc ≠ .committing) :
    r'.Served where
  ok := hok
  get_pc b co hb hop := by
    rw [hattempt] at hb
    rcases Occupancy.update_eq_some.mp hb with ⟨-, ⟨⟩⟩ | ⟨-, hold⟩
    · exact hget hop
    · exact h.get_pc b co hold hop

/-- A change of the other fields of a coordinator. -/
theorem Served.replaced (h : r.Served) (hco : r.attempt a = some co) (hop : co'.op = co.op)
    (hpc : co'.pc = co.pc) (hkey : co'.key = co.key) (huid : co'.uid = co.uid) :
    (r.setAttempt a co').Served := by
  have hregistered : co'.registered = co.registered := by rw [registered, registered, hpc]
  have hlocking : co'.locking = co.locking := by rw [locking, locking, hop, hpc]
  have hseat : co'.seat = co.seat := by rw [Coordinator.seat, Coordinator.seat, hregistered, hkey]
  have hlock : co'.lock = co.lock := by
    rw [Coordinator.lock, Coordinator.lock, hlocking, hkey, huid]
  refine h.of_update (h.ok.moved_same (hseat.trans (occupied_inl hco).symm)
    (hlock.trans (held_inl hco).symm) rfl) rfl fun hget => ?_
  rw [hpc]
  exact h.get_pc a co hco (hop ▸ hget)

theorem Served.spawned (h : r.Served) (hnone : r.attempt a = none) (hpc : co.pc = .register) :
    (r.setAttempt a co).Served :=
  h.of_update (h.ok.spawned hnone hpc) rfl (by simp [hpc])

/-! ## What the invariant says of a thread -/

theorem Served.coordinators_eq (h : r.Served) (hco : r.attempt a = some co)
    (hreg : co.registered) : r.coordinators co.key = some a :=
  h.ok.coordinators_eq.mpr (by rw [hco]; exact if_pos hreg)

theorem Served.participants_eq (h : r.Served) {conn : Peer × ℕ} {p : Participant Key Value}
    (hreg : (r.handler conn).registered = some p) : r.participants p.key = some conn :=
  h.ok.participants_eq.mpr (by rw [Handler.seat, hreg]; rfl)

theorem Served.owner_eq_none (h : r.Served) (hco : r.attempt a = some co)
    (hreg : co.registered) (hlocking : co.locking = false) :
    r.datastore.owner2pc co.key = none :=
  h.ok.consistent.owner_eq_none ((occupied_inl hco).trans (if_pos hreg))
    ((held_inl hco).trans (if_neg (by simp [hlocking])))

theorem Served.owner_eq_some (h : r.Served) (hco : r.attempt a = some co)
    (hlocking : co.locking) : r.datastore.owner2pc co.key = some co.uid :=
  h.ok.consistent.owner_of_held ((held_inl hco).trans (if_pos hlocking))

/-! ## The steps of the coordinators -/

theorem Served.hear (h : r.Served) {m : Message Key Value} (hstep : r.manageReply m = some r') :
    r'.Served := by
  have hmodify : ∀ {key : Key} {f : Coordinator Peer Key Value → Coordinator Peer Key Value},
      r.modifyCoordinator key f = some r' →
      (∀ co, (f co).op = co.op ∧ (f co).pc = co.pc ∧ (f co).key = co.key ∧ (f co).uid = co.uid) →
      r'.Served := by
    intro key f hmod hf
    obtain ⟨a, -, hmod⟩ := Option.bind_eq_some_iff.mp hmod
    obtain ⟨co, hco, hmod⟩ := Option.bind_eq_some_iff.mp hmod
    cases hmod
    obtain ⟨hop, hpc, hkey, huid⟩ := hf co
    exact h.replaced hco hop hpc hkey huid
  cases m with
  | voteCommit uid key timestamp => exact hmodify hstep fun _ => ⟨rfl, rfl, rfl, rfl⟩
  | voteAbort uid key => exact hmodify hstep fun _ => ⟨rfl, rfl, rfl, rfl⟩
  | fetchedValue key entry =>
    cases entry with
    | none =>
      cases hstep
      exact h
    | some entry => exact hmodify hstep fun _ => ⟨rfl, rfl, rfl, rfl⟩
  | _ => cases hstep

section Peers

variable [DecidableEq Peer]

theorem Served.sent (h : r.Served) {x : Peer} {m : Message Key Value}
    (hstep : r.send a x = some (r', m)) : r'.Served := by
  obtain ⟨co, hco, -, -, -, rfl⟩ := send_eq_some hstep
  exact h.replaced hco rfl rfl rfl rfl

theorem Served.received (h : r.Served) {x : Peer} {m : Message Key Value}
    (hstep : r.receive a x m = some r') : r'.Served := by
  obtain ⟨co, hco, hstep⟩ := Option.bind_eq_some_iff.mp hstep
  obtain ⟨hco, -⟩ := attemptAt_eq_some.mp hco
  split_ifs at hstep
  split at hstep
  · next r₁ hm =>
    obtain ⟨co₁, hco₁, rfl⟩ := Option.map_eq_some_iff.mp hstep
    exact (h.hear hm).replaced hco₁ rfl rfl rfl rfl
  · cases hstep
    exact h.replaced hco rfl rfl rfl rfl

theorem Served.counted (h : r.Served) {x : Peer} (hstep : Serving.count r a x = some r') :
    r'.Served := by
  obtain ⟨co, hco, hstep⟩ := Option.bind_eq_some_iff.mp hstep
  obtain ⟨hco, -⟩ := attemptAt_eq_some.mp hco
  split_ifs at hstep
  cases hstep
  exact h.replaced hco rfl rfl rfl rfl

/-! ## The steps of the connections -/

variable {conn : Peer × ℕ} {m : Message Key Value}

/-- A change of what the registered participant has been told. -/
theorem Served.mapped (h : r.Served) {f : Participant Key Value → Participant Key Value}
    (hkey : ∀ p, (f p).key = p.key) (huid : ∀ p, (f p).uid = p.uid) :
    (r.setHandler conn ((r.handler conn).mapParticipant f)).Served :=
  h.of_attempt (h.ok.handled_same (Handler.seat_mapParticipant hkey _)
    (Handler.lock_mapParticipant hkey huid _) rfl) rfl

theorem Served.aborted (h : r.Served) (uid : ℤ) (key : Key) : (r.globalAbort uid key).Served := by
  unfold globalAbort
  split
  · refine h.mapped (fun p => ?_) fun p => ?_ <;> split_ifs <;> rfl
  · exact h

theorem Served.committed (h : r.Served) {key : Key} {timestamp : ℤ}
    (hstep : r.globalCommit key timestamp = some r') : r'.Served := by
  obtain ⟨conn, -, rfl⟩ := Option.map_eq_some_iff.mp hstep
  exact h.mapped (fun _ => rfl) fun _ => rfl

theorem Served.woken (h : r.Served) (conn : Peer × ℕ) : (r.wake conn).Served := by
  unfold wake
  split
  · next p hd =>
    exact h.of_attempt (h.ok.handled_same (by rw [hd]; rfl) (by rw [hd]; rfl) rfl) rfl
  · exact h

theorem Served.hungUp (h : r.Served) (hstep : r.hangup conn = some r') : r'.Served := by
  refine h.of_attempt (h.ok.hungUp hstep) ?_
  unfold hangup at hstep
  split at hstep <;> cases hstep <;> rfl

end Peers

variable [DecidableEq Key]

theorem Served.delivered [DecidableEq Peer] {conn : Peer × ℕ} {m : Message Key Value}
    (h : r.Served) (hstep : r.deliver conn m = some r') : r'.Served := by
  have hsame : ∀ {hd : Handler Key Value}, r.handler conn = .idle → hd.seat = none →
      hd.lock = none → (r.setHandler conn hd).Served := fun hidle hseat hlock =>
    h.of_attempt (h.ok.handled_same (by rw [hidle, hseat]; rfl) (by rw [hidle, hlock]; rfl) rfl) rfl
  unfold deliver at hstep
  split at hstep
  · next hidle =>
    cases hstep
    exact hsame hidle rfl rfl
  · cases hstep
    exact h.aborted _ _
  · exact h.committed hstep
  · next hidle =>
    cases hstep
    exact hsame hidle rfl rfl
  · next key value timestamp hidle =>
    cases hstep
    have hclosed : (r.setHandler conn .closed).Served := hsame hidle rfl rfl
    exact hclosed.of_attempt (hclosed.ok.congr rfl rfl rfl rfl rfl) rfl
  · cases hstep
    exact (h.aborted _ _).woken conn
  · obtain ⟨r₁, hr₁, rfl⟩ := Option.map_eq_some_iff.mp hstep
    exact (h.committed hr₁).woken conn
  · cases hstep

variable [Inhabited Value]

theorem get_pc_of_step {settings : Settings Peer} {coordinators : Key → Option ℕ}
    {datastore : DatastoreManager Key Value}
    (hget : co.op = .get → co.pc ≠ .aborting ∧ co.pc ≠ .release ∧ co.pc ≠ .committing)
    (hstep : CoordinatorStep settings r a co co' coordinators datastore) :
    co'.op = .get → co'.pc ≠ .aborting ∧ co'.pc ≠ .release ∧ co'.pc ≠ .committing := by
  cases hstep <;> simp_all

variable [DecidableEq Peer]

theorem Served.ran (h : r.Served) {settings : Settings Peer} {action : Action Peer Key Value}
    (hstep : r.run settings action = some r') : r'.Served := by
  have hmoved : ∀ {a co co' coordinators datastore}, r.attempt a = some co →
      CoordinatorStep settings r a co co' coordinators datastore →
      (r.moved a co' coordinators datastore).Served := fun {a co _ _ _} hco hmove =>
    h.of_update (h.ok.moved hco (fun hpc hop => (h.get_pc a co hco hop).2.1 hpc) hmove) rfl
      (get_pc_of_step (h.get_pc a co hco) hmove)
  rcases run_cases hstep with ⟨co, co', coordinators, datastore, hco, hmove, rfl⟩ |
    ⟨a, op, key, uid, -, hnone, rfl⟩ | ⟨a, b, co, -, hco, hpc, hnone, rfl⟩
  · exact hmoved hco hmove
  · have hspawned : (r.setAttempt a { op := op, key := key, uid := uid }).Served :=
      h.spawned hnone rfl
    exact hspawned.of_attempt (hspawned.ok.congr rfl rfl rfl rfl rfl) rfl
  · have hsuperseded := hmoved hco (.supersede hpc)
    refine hsuperseded.spawned ?_ rfl
    have hba : b ≠ a := by
      rintro rfl
      rw [hnone] at hco
      cases hco
    exact (update_of_ne hba ..).trans hnone

variable {conn : Peer × ℕ} {m : Message Key Value}

theorem Served.proceeded (h : r.Served) {sent : Option (Message Key Value)}
    (hstep : r.proceed conn = some (r', sent)) : r'.Served := by
  obtain ⟨hd, hd', participants, datastore, hhd, hproceed, rfl⟩ := proceed_cases hstep
  exact h.of_attempt (h.ok.proceeded hhd hproceed) rfl

end Replica

/-! ## Every step -/

namespace Serving

variable {Peer Key Value : Type} [DecidableEq Key] [DecidableEq Peer] [Inhabited Value]
  {settings : Settings Peer} {s s' : Serving Peer Key Value} {e : Event Peer Key Value}

theorem served_step (h : s.replica.Served) (hstep : step settings s e = some s') :
    s'.replica.Served := by
  cases e with
  | run action =>
    obtain ⟨r, hr, rfl⟩ := Option.map_eq_some_iff.mp hstep
    exact h.ran hr
  | send a x =>
    obtain ⟨⟨r, m⟩, hr, rfl⟩ := Option.map_eq_some_iff.mp hstep
    exact h.sent hr
  | receive a x m =>
    obtain ⟨r, hr, rfl⟩ := Option.map_eq_some_iff.mp hstep
    exact h.received hr
  | count a x =>
    obtain ⟨r, hr, rfl⟩ := Option.map_eq_some_iff.mp hstep
    exact h.counted hr
  | hear m =>
    obtain ⟨r, hr, rfl⟩ := Option.map_eq_some_iff.mp hstep
    exact h.hear hr
  | deliver conn m =>
    obtain ⟨r, hr, rfl⟩ := Option.map_eq_some_iff.mp hstep
    exact h.delivered hr
  | proceed conn =>
    obtain ⟨⟨r, m⟩, hr, rfl⟩ := Option.map_eq_some_iff.mp hstep
    exact h.proceeded hr
  | wake conn =>
    cases hstep
    exact h.woken conn
  | hangup conn =>
    obtain ⟨r, hr, rfl⟩ := Option.map_eq_some_iff.mp hstep
    exact h.hungUp hr
  | sync | getStatus | update =>
    simp only [step] at hstep
    split at hstep <;> cases hstep
    exact h
  | collect t =>
    simp only [step] at hstep
    split at hstep
    · cases hstep
      exact h
    · obtain ⟨value, -, rfl⟩ := Option.map_eq_some_iff.mp hstep
      exact h
    · cases hstep
  | tryUpdate t =>
    simp only [step] at hstep
    split at hstep
    · cases hstep
      exact h
    · cases hstep
      exact h.of_attempt (h.ok.congr rfl rfl rfl rfl rfl) rfl
    · cases hstep

/-- A state that some run reaches from the given contents. -/
def Reachable (settings : Settings Peer) (contents : Key → Option (Value × ℤ)) (replicaId : ℤ)
    (s : Serving Peer Key Value) : Prop :=
  Transition.Run (step settings) (fun _ _ => True) (initial contents replicaId) s

theorem Reachable.served {contents : Key → Option (Value × ℤ)} {replicaId : ℤ}
    (h : Reachable settings contents replicaId s) : s.replica.Served :=
  Transition.Run.preserves (P := fun s : Serving Peer Key Value => s.replica.Served)
    (fun _ _ _ hs _ hstep => served_step hs hstep) h (.of_started contents replicaId)

/-- What no step finds violated. -/
structure Disciplined (r : Replica Peer Key Value) : Prop where
  exclusive : ∀ key, r.coordinators key = none ∨ r.participants key = none
  /-- a lock belongs to the put or to the participant that is registered for its key -/
  owner : ∀ key uid, r.datastore.owner2pc key = some uid →
    (∃ a co value, r.coordinators key = some a ∧ r.attempt a = some co ∧
      co.op = .put value ∧ co.uid = uid) ∨
    ∃ conn p, r.participants key = some conn ∧ (r.handler conn).registered = some p ∧ p.uid = uid
  /-- `prepare` returns true -/
  prepare_put : ∀ a co value, r.attempt a = some co → co.pc = .begin → co.op = .put value →
    r.datastore.prepare co.key co.uid ≠ none
  prepare_participant : ∀ conn p, r.handler conn = .preparing p →
    r.datastore.prepare p.key p.uid ≠ none
  /-- `abort` finds the key -/
  abort_put : ∀ a co, r.attempt a = some co → co.pc = .release →
    r.datastore.abort co.key co.uid ≠ none
  abort_participant : ∀ conn p, r.handler conn = .decided p → r.datastore.abort p.key p.uid ≠ none
  /-- `commit` removes the lock of its caller -/
  commit_put : ∀ a co value, r.attempt a = some co → co.pc = .exchange → co.op = .put value →
    r.coordinators co.key = some a ∧ r.datastore.owner2pc co.key = some co.uid
  commit_participant : ∀ conn p, r.handler conn = .decided p →
    r.participants p.key = some conn ∧ r.datastore.owner2pc p.key = some p.uid
  /-- the local read of a request for a value finds its key unlocked -/
  read_get : ∀ a co result, r.attempt a = some co → co.pc = .begin → co.op = .get →
    r.datastore.get co.key result ≠ none

/-- A replica keeps to its discipline, whatever it receives and in whatever order. -/
theorem disciplined_of_reachable {contents : Key → Option (Value × ℤ)} {replicaId : ℤ}
    (hs : Reachable settings contents replicaId s) : Disciplined s.replica where
  exclusive := hs.served.ok.exclusive
  owner key uid howner := by
    obtain ⟨x, hx⟩ := (hs.served.ok.consistent.owner_iff key uid).mp howner
    rcases x with a | conn
    · obtain ⟨co, hco, hlock⟩ := Option.bind_eq_some_iff.mp hx
      obtain ⟨value, hop, hreg, rfl, rfl⟩ := co.of_lock hlock
      exact .inl ⟨a, co, value, hs.served.coordinators_eq hco hreg, hco, hop, rfl⟩
    · obtain ⟨p, hp, hkey⟩ := Option.map_eq_some_iff.mp hx
      cases hkey
      exact .inr ⟨conn, p, hs.served.participants_eq (Handler.registered_of_locking hp),
        Handler.registered_of_locking hp, rfl⟩
  prepare_put a co value hco hpc hop :=
    DatastoreManager.prepare_ne_none (hs.served.owner_eq_none hco
      (by simp [Coordinator.registered, hpc]) (by simp [Coordinator.locking, hpc, hop]))
  prepare_participant conn p hp :=
    DatastoreManager.prepare_ne_none (hs.served.ok.consistent.owner_eq_none (h := .inr conn)
      (by rw [Replica.occupied, hp]; rfl) (by rw [Replica.held, hp]; rfl))
  abort_put a co hco hpc := by
    cases hop : co.op with
    | get => exact absurd hpc (hs.served.get_pc a co hco hop).2.1
    | put value =>
      exact DatastoreManager.abort_ne_none (hs.served.owner_eq_some hco
        (by simp [Coordinator.locking, hpc, hop]))
  abort_participant conn p hp :=
    DatastoreManager.abort_ne_none (hs.served.ok.consistent.owner_of_held (h := .inr conn)
      (by rw [Replica.held, hp]; rfl))
  commit_put a co value hco hpc hop :=
    ⟨hs.served.coordinators_eq hco (by simp [Coordinator.registered, hpc]),
      hs.served.owner_eq_some hco (by simp [Coordinator.locking, hpc, hop])⟩
  commit_participant conn p hp :=
    ⟨hs.served.participants_eq (by rw [hp]; rfl),
      hs.served.ok.consistent.owner_of_held (h := .inr conn) (by rw [Replica.held, hp]; rfl)⟩
  read_get a co result hco hpc hop :=
    DatastoreManager.get_ne_none (hs.served.owner_eq_none hco
      (by simp [Coordinator.registered, hpc]) (by simp [Coordinator.locking, hop])) result

/-! ## A run -/

/-- A participant votes and its connection closes, a put on another key is locked. -/
def leakedEvents : List (Event ℕ Text Text) :=
  [.deliver (1, 0) (.prepare 7 ['k'] ['v']), .proceed (1, 0), .proceed (1, 0), .proceed (1, 0),
    .run (.request 0 (.put ['w']) ['l'] 0), .run (.addCoordinator 0), .run (.begin 0),
    .hangup (1, 0)]

theorem disciplined_of_reachable_leaked :
    ∃ s : Serving ℕ Text Text, Reachable ⟨[1], 1, 2, 1⟩ (fun _ => none) 0 s ∧
      s.replica.datastore.owner2pc ['k'] = some 7 ∧
      s.replica.datastore.owner2pc ['l'] = some 0 ∧ Disciplined s.replica := by
  obtain ⟨s, hexec⟩ : ∃ s, Transition.exec (step ⟨[1], 1, 2, 1⟩) (fun _ _ => true)
    leakedEvents (initial (fun _ => none) 0) = some s := ⟨_, rfl⟩
  have hs : Reachable ⟨[1], 1, 2, 1⟩ (fun _ => none) 0 s :=
    Transition.run_of_exec (fun _ _ _ => trivial) hexec
  refine ⟨s, hs, ?_, ?_, disciplined_of_reachable hs⟩ <;> cases hexec <;> rfl

end Serving
end LeaderlessDatastore
