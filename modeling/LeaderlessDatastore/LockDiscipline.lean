import LeaderlessDatastore.Occupancy
import LeaderlessDatastore.Steps

/-!
# Registries and locks of one replica

The two registries together give each key to at most one thread, and `owner2pc`
locks exactly the keys of those threads that are between `prepare` and the end of
their transaction.  Every step keeps this.
-/

namespace LeaderlessDatastore

open Function

/-- A thread that can hold a key: a coordinator, or the one that serves a connection. -/
abbrev Holder (Peer : Type) := ℕ ⊕ (Peer × ℕ)

namespace Coordinator

variable {Peer Key Value : Type}

/-- The key that this coordinator has in the registry. -/
def seat (co : Coordinator Peer Key Value) : Option Key :=
  if co.registered then some co.key else none

/-- The key that this coordinator has locked, with the id. -/
def lock (co : Coordinator Peer Key Value) : Option (Key × ℤ) :=
  if co.locking then some (co.key, co.uid) else none

theorem registered_of_locking {co : Coordinator Peer Key Value} (h : co.locking) :
    co.registered := by
  unfold locking at h
  unfold registered
  split at h <;> simp_all

end Coordinator

namespace Handler

variable {Key Value : Type}

def seat (h : Handler Key Value) : Option Key := h.registered.map (·.key)

def lock (h : Handler Key Value) : Option (Key × ℤ) := h.locking.map fun p => (p.key, p.uid)

@[simp] theorem seat_flag (uid : ℤ) (h : Handler Key Value) : (h.flag uid).seat = h.seat := by
  cases h <;> simp only [flag, mapParticipant, seat, registered, Option.map_some,
    Option.map_none, Option.some.injEq] <;> split_ifs <;> rfl

@[simp] theorem lock_flag (uid : ℤ) (h : Handler Key Value) : (h.flag uid).lock = h.lock := by
  cases h <;> simp only [flag, mapParticipant, lock, locking, Option.map_some,
    Option.map_none, Option.some.injEq] <;> split_ifs <;> rfl

end Handler

namespace Replica

variable {Peer Key Value : Type}

/-- The thread that the registries give the key to. -/
def seat (r : Replica Peer Key Value) (key : Key) : Option (Holder Peer) :=
  match r.coordinators key with
  | some a => some (.inl a)
  | none => (r.participants key).map .inr

def occupied (r : Replica Peer Key Value) : Holder Peer → Option Key
  | .inl a => (r.attempt a).bind Coordinator.seat
  | .inr conn => (r.handler conn).seat

def held (r : Replica Peer Key Value) : Holder Peer → Option (Key × ℤ)
  | .inl a => (r.attempt a).bind Coordinator.lock
  | .inr conn => (r.handler conn).lock

structure Ok (r : Replica Peer Key Value) : Prop where
  consistent : Occupancy.Consistent r.seat r.datastore.owner2pc r.occupied r.held
  exclusive : ∀ key, r.coordinators key = none ∨ r.participants key = none

variable {r : Replica Peer Key Value} {a : ℕ} {conn : Peer × ℕ} {key : Key} {uid : ℤ}

theorem seat_eq_inl (r : Replica Peer Key Value) (key : Key) (a : ℕ) :
    r.seat key = some (.inl a) ↔ r.coordinators key = some a := by
  unfold seat
  cases r.coordinators key <;> simp

theorem Ok.seat_eq_inr (h : r.Ok) (key : Key) (conn : Peer × ℕ) :
    r.seat key = some (.inr conn) ↔ r.participants key = some conn := by
  unfold seat
  rcases h.exclusive key with hc | hp
  · simp [hc]
  · rw [hp]
    cases r.coordinators key <;> simp

/-- A coordinator is in the registry exactly where its thread says so. -/
theorem Ok.coordinators_eq (h : r.Ok) :
    r.coordinators key = some a ↔ (r.attempt a).bind Coordinator.seat = some key := by
  rw [← seat_eq_inl]
  exact h.consistent.seat_iff key (.inl a)

theorem Ok.participants_eq (h : r.Ok) :
    r.participants key = some conn ↔ (r.handler conn).seat = some key := by
  rw [← h.seat_eq_inr]
  exact h.consistent.seat_iff key (.inr conn)

theorem seat_eq_none (hfree : r.free key) : r.seat key = none := by
  simp only [free, Bool.and_eq_true, Option.isNone_iff_eq_none] at hfree
  simp [seat, hfree]

theorem Ok.of_started (contents : Key → Option (Value × ℤ)) (replicaId : ℤ) :
    (started contents replicaId : Replica Peer Key Value).Ok where
  consistent := by
    constructor
    · rintro key (a | conn) <;> simp [seat, occupied, started, Handler.seat, Handler.registered]
    · intro key uid
      simp only [started, DatastoreManager.loaded, reduceCtorEq, false_iff, not_exists]
      rintro (a | conn) <;> simp [held, Handler.lock, Handler.locking]
    · rintro (a | conn) key uid h <;> simp [held, started, Handler.lock, Handler.locking] at h
  exclusive key := .inl rfl

/-- What the threads hold and what the tables say is all that matters. -/
theorem Ok.congr {r' : Replica Peer Key Value} (h : r.Ok)
    (hcoordinators : r'.coordinators = r.coordinators)
    (hparticipants : r'.participants = r.participants)
    (howner : r'.datastore.owner2pc = r.datastore.owner2pc) (hocc : r'.occupied = r.occupied)
    (hheld : r'.held = r.held) : r'.Ok where
  consistent := by
    have hseat : r'.seat = r.seat := by
      funext key
      rw [seat, seat, hcoordinators, hparticipants]
    rw [hseat, howner, hocc, hheld]
    exact h.consistent
  exclusive := by
    rw [hcoordinators, hparticipants]
    exact h.exclusive

/-- `abort` by the thread that holds the lock releases it. -/
theorem Ok.abort_eq_some [DecidableEq Key] {x : Holder Peer} (h : r.Ok)
    (hheld : r.held x = some (key, uid)) : ∃ datastore, r.datastore.abort key uid =
      some datastore ∧ datastore.datastore = r.datastore.datastore ∧
        datastore.owner2pc = update r.datastore.owner2pc key none := by
  have howner := h.consistent.owner_of_held hheld
  rw [DatastoreManager.abort, howner, Option.map_some, if_pos rfl]
  exact ⟨_, rfl, rfl, rfl⟩

/-! ## Steps of a coordinator -/

section Moved

variable {co co' : Coordinator Peer Key Value}
  {coordinators : Key → Option ℕ} {datastore : DatastoreManager Key Value}

theorem occupied_moved [DecidableEq Peer] : (r.moved a co' coordinators datastore).occupied =
    update r.occupied (.inl a) co'.seat := by
  funext h
  rcases h with b | conn
  · by_cases hb : b = a
    · subst hb
      simp [occupied, moved, setAttempt]
    · simp [occupied, moved, setAttempt, hb]
  · simp [occupied, moved, setAttempt]

theorem held_moved [DecidableEq Peer] : (r.moved a co' coordinators datastore).held =
    update r.held (.inl a) co'.lock := by
  funext h
  rcases h with b | conn
  · by_cases hb : b = a
    · subst hb
      simp [held, moved, setAttempt]
    · simp [held, moved, setAttempt, hb]
  · simp [held, moved, setAttempt]

theorem occupied_inl (hco : r.attempt a = some co) : r.occupied (.inl a) = co.seat := by
  simp [occupied, hco]

theorem held_inl (hco : r.attempt a = some co) : r.held (.inl a) = co.lock := by
  simp [held, hco]

/-- A step that changes neither what the coordinator holds nor the locks. -/
theorem Ok.moved_same (h : r.Ok) (hseat : co'.seat = r.occupied (.inl a))
    (hlock : co'.lock = r.held (.inl a)) (howner : datastore.owner2pc = r.datastore.owner2pc) :
    (r.moved a co' r.coordinators datastore).Ok := by
  classical
  exact h.congr rfl rfl howner (by rw [occupied_moved, hseat, update_eq_self])
    (by rw [held_moved, hlock, update_eq_self])

theorem Ok.sent [DecidableEq Peer] {x : Peer} (h : r.Ok) (hco : r.attempt a = some co) :
    (r.moved a (co.sentTo x) r.coordinators r.datastore).Ok :=
  h.moved_same (occupied_inl hco).symm (held_inl hco).symm rfl

theorem Ok.received [DecidableEq Peer] {x : Peer} {m : Message Key Value} (h : r.Ok)
    (hco : r.attempt a = some co) :
    (r.moved a (co.heardFrom x m) r.coordinators r.datastore).Ok := by
  refine h.moved_same (.trans ?_ (occupied_inl hco).symm) (.trans ?_ (held_inl hco).symm) rfl <;>
    (unfold Coordinator.heardFrom Coordinator.hear; split <;> rfl)

theorem Ok.spawned (h : r.Ok) (hnone : r.attempt a = none) (hpc : co'.pc = .register) :
    (r.setAttempt a co').Ok := by
  change (r.moved a co' r.coordinators r.datastore).Ok
  apply h.moved_same _ _ rfl
  · simp [occupied, hnone, Coordinator.seat, Coordinator.registered, hpc]
  · simp [held, hnone, Coordinator.lock, Coordinator.locking, hpc]

variable [DecidableEq Key]

theorem Ok.moved_enter (h : r.Ok) (hco : r.attempt a = some co) (hfree : r.free key)
    (hold : co.seat = none) (hseat : co'.seat = some key) (hlock : co'.lock = co.lock) :
    (r.moved a co' (update r.coordinators key (some a)) r.datastore).Ok where
  consistent := by
    classical
    have hlock' : update r.held (.inl a) co'.lock = r.held := by
      rw [hlock, ← held_inl hco, update_eq_self]
    rw [occupied_moved, held_moved, hseat, hlock']
    have hview : (r.moved a co' (update r.coordinators key (some a)) r.datastore).seat =
        update r.seat key (some (.inl a)) := by
      funext k
      by_cases hk : k = key <;> simp [seat, moved, setAttempt, hk]
    rw [hview]
    exact h.consistent.enter (seat_eq_none hfree) (by rw [occupied_inl hco, hold])
  exclusive k := by
    simp only [free, Bool.and_eq_true, Option.isNone_iff_eq_none] at hfree
    by_cases hk : k = key
    · subst hk
      exact .inr hfree.2
    · simpa [moved, setAttempt, hk] using h.exclusive k

theorem Ok.moved_leave (h : r.Ok) (hco : r.attempt a = some co) (hold : co.seat = some key)
    (hnolock : co.lock = none) (hseat : co'.seat = none) (hlock : co'.lock = none) :
    (r.moved a co' (update r.coordinators key none) r.datastore).Ok where
  consistent := by
    classical
    have hocc : r.occupied (.inl a) = some key := by rw [occupied_inl hco, hold]
    have hheld : r.held (.inl a) = none := by rw [held_inl hco, hnolock]
    have hreg : r.coordinators key = some a :=
      (seat_eq_inl r key a).mp ((h.consistent.seat_iff key _).mpr hocc)
    have hview : (r.moved a co' (update r.coordinators key none) r.datastore).seat =
        update r.seat key none := by
      funext k
      by_cases hk : k = key
      · have hnone := (h.exclusive key).resolve_left (by simp [hreg])
        simp [seat, moved, setAttempt, hk, hnone]
      · simp [seat, moved, setAttempt, hk]
    rw [occupied_moved, held_moved, hseat, hlock, hview, ← hheld, update_eq_self]
    exact h.consistent.leave hocc hheld
  exclusive k := by
    by_cases hk : k = key
    · simp [moved, setAttempt, hk]
    · simpa [moved, setAttempt, hk] using h.exclusive k

theorem Ok.moved_acquire (h : r.Ok) (hco : r.attempt a = some co) (hold : co.seat = some key)
    (hseat : co'.seat = some key) (hlock : co'.lock = some (key, uid))
    (hfree : r.datastore.owner2pc key = none)
    (howner : datastore.owner2pc = update r.datastore.owner2pc key (some uid)) :
    (r.moved a co' r.coordinators datastore).Ok where
  consistent := by
    classical
    have hocc : update r.occupied (.inl a) co'.seat = r.occupied := by
      rw [hseat, ← hold, ← occupied_inl hco, update_eq_self]
    have howner' : (r.moved a co' r.coordinators datastore).datastore.owner2pc = _ := howner
    rw [occupied_moved, held_moved, hocc, hlock, howner']
    exact h.consistent.acquire ((occupied_inl hco).trans hold) hfree
  exclusive := h.exclusive

theorem Ok.moved_release (h : r.Ok) (hco : r.attempt a = some co) (hold : co.lock = some (key, uid))
    (hseat : co'.seat = co.seat) (hlock : co'.lock = none)
    (howner : datastore.owner2pc = update r.datastore.owner2pc key none) :
    (r.moved a co' r.coordinators datastore).Ok where
  consistent := by
    classical
    have hocc : update r.occupied (.inl a) co'.seat = r.occupied := by
      rw [hseat, ← occupied_inl hco, update_eq_self]
    have howner' : (r.moved a co' r.coordinators datastore).datastore.owner2pc = _ := howner
    rw [occupied_moved, held_moved, hocc, hlock, howner']
    exact h.consistent.release ((held_inl hco).trans hold)
  exclusive := h.exclusive

variable [Inhabited Value] {settings : Settings Peer}

theorem Ok.moved (h : r.Ok) (hco : r.attempt a = some co)
    (hput : co.pc = .release → co.op ≠ .get)
    (hstep : CoordinatorStep settings r a co co' coordinators datastore) :
    (r.moved a co' coordinators datastore).Ok := by
  cases hstep with
  | enter pc_eq free =>
    apply h.moved_enter hco free <;>
      simp [Coordinator.seat, Coordinator.lock, Coordinator.registered, Coordinator.locking, pc_eq]
  | lock pc_eq op_eq prepared =>
    obtain ⟨hfree, -, -, howner⟩ := DatastoreManager.prepare_eq_some prepared
    apply h.moved_acquire hco _ _ _ hfree howner <;>
      simp [Coordinator.seat, Coordinator.lock, Coordinator.registered, Coordinator.locking,
        pc_eq, op_eq]
  | commit pc_eq joined op_eq counted unanimous =>
    have hlock : co.lock = some (co.key, co.uid) := by
      simp [Coordinator.lock, Coordinator.locking, pc_eq, op_eq]
    apply h.moved_release hco hlock _ _ (DatastoreManager.commit_owner2pc ..) <;>
      simp [Coordinator.seat, Coordinator.lock, Coordinator.registered, Coordinator.locking,
        pc_eq, op_eq]
  | release pc_eq aborted =>
    obtain ⟨value, op_eq⟩ : ∃ value, co.op = .put value := by
      cases hop : co.op with
      | put value => exact ⟨value, rfl⟩
      | get => exact absurd hop (hput pc_eq)
    have hlock : co.lock = some (co.key, co.uid) := by
      simp [Coordinator.lock, Coordinator.locking, pc_eq, op_eq]
    obtain ⟨datastore', h', -, howner⟩ := h.abort_eq_some ((held_inl hco).trans hlock)
    obtain rfl := Option.some.inj (aborted.symm.trans h')
    apply h.moved_release hco hlock _ _ howner <;>
      simp [Coordinator.seat, Coordinator.lock, Coordinator.registered, Coordinator.locking,
        pc_eq, op_eq]
  | releaseThrows pc_eq thrown =>
    obtain ⟨value, op_eq⟩ : ∃ value, co.op = .put value := by
      cases hop : co.op with
      | put value => exact ⟨value, rfl⟩
      | get => exact absurd hop (hput pc_eq)
    have hlock : co.lock = some (co.key, co.uid) := by
      simp [Coordinator.lock, Coordinator.locking, pc_eq, op_eq]
    obtain ⟨datastore', h', -, -⟩ := h.abort_eq_some ((held_inl hco).trans hlock)
    rw [thrown] at h'
    cases h'
  | leave pc_eq | leaveFailed pc_eq =>
    apply h.moved_leave hco <;>
      simp [Coordinator.seat, Coordinator.lock, Coordinator.registered, Coordinator.locking, pc_eq]
  | repair pc_eq latest =>
    refine h.moved_same (.trans ?_ (occupied_inl hco).symm) (.trans ?_ (held_inl hco).symm)
      (DatastoreManager.tryUpdate_owner2pc ..) <;> cases hop : co.op <;>
      simp [Coordinator.seat, Coordinator.lock, Coordinator.registered, Coordinator.locking,
        pc_eq, hop]
  | _ =>
    refine h.moved_same (.trans ?_ (occupied_inl hco).symm) (.trans ?_ (held_inl hco).symm) rfl <;>
      cases hop : co.op <;>
      simp_all [Coordinator.seat, Coordinator.lock, Coordinator.registered, Coordinator.locking]

end Moved

/-! ## Steps of the thread of a connection -/

section Handled

variable [DecidableEq Peer] {hd hd' : Handler Key Value}
  {participants : Key → Option (Peer × ℕ)} {datastore : DatastoreManager Key Value}

theorem occupied_handled : (r.handled conn hd' participants datastore).occupied =
    update r.occupied (.inr conn) hd'.seat := by
  funext h
  rcases h with b | conn'
  · simp [occupied, handled, setHandler]
  · by_cases hc : conn' = conn
    · subst hc
      simp [occupied, handled, setHandler]
    · simp [occupied, handled, setHandler, hc]

theorem held_handled : (r.handled conn hd' participants datastore).held =
    update r.held (.inr conn) hd'.lock := by
  funext h
  rcases h with b | conn'
  · simp [held, handled, setHandler]
  · by_cases hc : conn' = conn
    · subst hc
      simp [held, handled, setHandler]
    · simp [held, handled, setHandler, hc]

/-- A step that changes neither what the thread holds nor the locks. -/
theorem Ok.handled_same (h : r.Ok) (hseat : hd'.seat = (r.handler conn).seat)
    (hlock : hd'.lock = (r.handler conn).lock)
    (howner : datastore.owner2pc = r.datastore.owner2pc) :
    (r.handled conn hd' r.participants datastore).Ok := by
  refine h.congr rfl rfl howner ?_ ?_
  · rw [occupied_handled, hseat]
    exact update_eq_self (f := r.occupied) (.inr conn)
  · rw [held_handled, hlock]
    exact update_eq_self (f := r.held) (.inr conn)

variable [DecidableEq Key]

theorem Ok.handled_enter (h : r.Ok) (hfree : r.free key) (hold : (r.handler conn).seat = none)
    (hseat : hd'.seat = some key) (hlock : hd'.lock = (r.handler conn).lock) :
    (r.handled conn hd' (update r.participants key (some conn)) r.datastore).Ok where
  consistent := by
    have hheld : update r.held (.inr conn) hd'.lock = r.held := by
      rw [hlock]
      exact update_eq_self (f := r.held) (.inr conn)
    have hview : (r.handled conn hd' (update r.participants key (some conn)) r.datastore).seat =
        update r.seat key (some (.inr conn)) := by
      simp only [free, Bool.and_eq_true, Option.isNone_iff_eq_none] at hfree
      funext k
      by_cases hk : k = key <;> simp [seat, handled, setHandler, hk, hfree.1]
    rw [occupied_handled, held_handled, hseat, hheld, hview]
    exact h.consistent.enter (seat_eq_none hfree) hold
  exclusive k := by
    simp only [free, Bool.and_eq_true, Option.isNone_iff_eq_none] at hfree
    by_cases hk : k = key
    · subst hk
      exact .inl hfree.1
    · simpa [handled, setHandler, hk] using h.exclusive k

theorem Ok.handled_leave (h : r.Ok) (hold : (r.handler conn).seat = some key)
    (hnolock : (r.handler conn).lock = none) (hseat : hd'.seat = none) (hlock : hd'.lock = none) :
    (r.handled conn hd' (update r.participants key none) r.datastore).Ok where
  consistent := by
    have hheld : update r.held (.inr conn) hd'.lock = r.held := by
      rw [hlock, ← hnolock]
      exact update_eq_self (f := r.held) (.inr conn)
    have hreg : r.participants key = some conn := h.participants_eq.mpr hold
    have hview : (r.handled conn hd' (update r.participants key none) r.datastore).seat =
        update r.seat key none := by
      funext k
      by_cases hk : k = key
      · have hnone := (h.exclusive key).resolve_right (by simp [hreg])
        simp [seat, handled, setHandler, hk, hnone]
      · simp [seat, handled, setHandler, hk]
    rw [occupied_handled, held_handled, hseat, hheld, hview]
    exact h.consistent.leave hold hnolock
  exclusive k := by
    by_cases hk : k = key
    · simp [handled, setHandler, hk]
    · simpa [handled, setHandler, hk] using h.exclusive k

theorem Ok.handled_acquire (h : r.Ok) (hold : (r.handler conn).seat = some key)
    (hseat : hd'.seat = some key) (hlock : hd'.lock = some (key, uid))
    (hfree : r.datastore.owner2pc key = none)
    (howner : datastore.owner2pc = update r.datastore.owner2pc key (some uid)) :
    (r.handled conn hd' r.participants datastore).Ok where
  consistent := by
    have hocc : update r.occupied (.inr conn) hd'.seat = r.occupied := by
      rw [hseat, ← hold]
      exact update_eq_self (f := r.occupied) (.inr conn)
    have howner' : (r.handled conn hd' r.participants datastore).datastore.owner2pc = _ := howner
    rw [occupied_handled, held_handled, hocc, hlock, howner']
    have hold' : r.occupied (.inr conn) = some key := hold
    exact h.consistent.acquire hold' hfree
  exclusive := h.exclusive

theorem Ok.handled_release (h : r.Ok) (hold : (r.handler conn).lock = some (key, uid))
    (hseat : hd'.seat = (r.handler conn).seat) (hlock : hd'.lock = none)
    (howner : datastore.owner2pc = update r.datastore.owner2pc key none) :
    (r.handled conn hd' r.participants datastore).Ok where
  consistent := by
    have hocc : update r.occupied (.inr conn) hd'.seat = r.occupied := by
      rw [hseat]
      exact update_eq_self (f := r.occupied) (.inr conn)
    have howner' : (r.handled conn hd' r.participants datastore).datastore.owner2pc = _ := howner
    rw [occupied_handled, held_handled, hocc, hlock, howner']
    have hold' : r.held (.inr conn) = some (key, uid) := hold
    exact h.consistent.release hold'
  exclusive := h.exclusive

omit [DecidableEq Key] in
/-- The flag of a participant is no lock. -/
theorem Ok.flagged (h : r.Ok) : (r.globalAbort uid key).Ok := by
  have hhandler : ∀ conn, ((r.globalAbort uid key).handler conn).seat = (r.handler conn).seat ∧
      ((r.globalAbort uid key).handler conn).lock = (r.handler conn).lock := by
    intro conn
    rcases r.globalAbort_handler uid key conn with he | ⟨-, he⟩ <;> simp [he]
  have hrest : (r.globalAbort uid key).attempt = r.attempt ∧
      (r.globalAbort uid key).coordinators = r.coordinators ∧
      (r.globalAbort uid key).participants = r.participants ∧
      (r.globalAbort uid key).datastore = r.datastore := by
    unfold globalAbort
    cases r.participants key <;> exact ⟨rfl, rfl, rfl, rfl⟩
  refine h.congr hrest.2.1 hrest.2.2.1 (by rw [hrest.2.2.2]) ?_ ?_ <;> funext x <;>
    rcases x with a | conn
  · simp [occupied, hrest.1]
  · exact (hhandler conn).1
  · simp [held, hrest.1]
  · exact (hhandler conn).2

theorem Ok.delivered {m : Message Key Value} (h : r.Ok) (hhd : r.handler conn = hd)
    (hstep : DeliverStep r conn hd m hd' datastore) :
    (r.handled conn hd' r.participants datastore).Ok := by
  subst hhd
  generalize hhd : r.handler conn = hd at hstep
  cases hstep <;> apply h.handled_same <;> simp [hhd, Handler.seat, Handler.lock,
    Handler.registered, Handler.locking]

theorem Ok.proceeded [Inhabited Value] {sent : Option (Message Key Value)} (h : r.Ok)
    (hhd : r.handler conn = hd) (hstep : HandlerStep r conn hd hd' sent participants datastore) :
    (r.handled conn hd' participants datastore).Ok := by
  cases hstep with
  | enter free => exact h.handled_enter free (by rw [hhd]; rfl) rfl (by rw [hhd]; rfl)
  | lock prepared =>
    obtain ⟨hfree, -, -, howner⟩ := DatastoreManager.prepare_eq_some prepared
    exact h.handled_acquire (by rw [hhd]; rfl) rfl rfl hfree howner
  | @abort p datastore flagged aborted =>
    have hlock : (r.handler conn).lock = some (p.key, p.uid) := by rw [hhd]; rfl
    obtain ⟨datastore', h', -, howner⟩ := h.abort_eq_some (x := .inr conn) hlock
    obtain rfl := Option.some.inj (aborted.symm.trans h')
    exact h.handled_release hlock (by rw [hhd]; rfl) rfl howner
  | @commit p unflagged =>
    have hlock : (r.handler conn).lock = some (p.key, p.uid) := by rw [hhd]; rfl
    exact h.handled_release hlock (by rw [hhd]; rfl) rfl (DatastoreManager.commit_owner2pc ..)
  | leave => exact h.handled_leave (by rw [hhd]; rfl) (by rw [hhd]; rfl) rfl rfl
  | _ => exact h.handled_same (by rw [hhd]; rfl) (by rw [hhd]; rfl) rfl

omit [DecidableEq Key] in
theorem Ok.hungUp {r' : Replica Peer Key Value} (h : r.Ok) (hstep : r.hangup conn = some r') :
    r'.Ok := by
  unfold hangup at hstep
  split at hstep
  · next hd =>
    cases hstep
    exact h.handled_same (by rw [hd]; rfl) (by rw [hd]; rfl) (Eq.refl r.datastore.owner2pc)
  · next p hd =>
    cases hstep
    exact h.handled_same (by rw [hd]; rfl) (by rw [hd]; rfl) (Eq.refl r.datastore.owner2pc)
  · cases hstep

end Handled

end Replica
end LeaderlessDatastore
