import LeaderlessDatastore.Phases

/-!
# The invariant of the cluster

`Cluster.Inv` holds in every state that a run reaches.  `Change` lists what one
event does to a state that satisfies it; the properties of the protocol are
proved from this list.
-/

namespace LeaderlessDatastore

open Function Occupancy

namespace Cluster

variable {n : ℕ} {Key Value : Type}

/-- The attempts of all replicas. -/
def attempt (s : Cluster n Key Value) (ca : Fin n × ℕ) :
    Option (Coordinator (Fin n) Key Value) := (s.replica ca.1).attempt ca.2

/-- The thread at the peer of a connection. -/
def handler (s : Cluster n Key Value) (ℓ : Link n) : Handler Key Value :=
  (s.replica ℓ.peer).handler ℓ.source

/-- The datastore of a replica. -/
def datastore (s : Cluster n Key Value) (x : Fin n) : DatastoreManager Key Value :=
  (s.replica x).datastore

def LinkOk (co : Option (Coordinator (Fin n) Key Value)) (x : Fin n) (h : Handler Key Value)
    (down up : List (Message Key Value)) : Prop :=
  match co with
  | none => h = .idle ∧ down = [] ∧ up = []
  | some co => co.Phase x h down up

theorem LinkOk.flag {co : Option (Coordinator (Fin n) Key Value)} {x : Fin n}
    {h : Handler Key Value} {down up : List (Message Key Value)} (hl : LinkOk co x h down up)
    (uid : ℤ) : LinkOk co x (h.flag uid) down up := by
  cases co with
  | none =>
    obtain ⟨rfl, hd, hu⟩ := hl
    exact ⟨rfl, hd, hu⟩
  | some co => exact Coordinator.Phase.flag hl uid

structure Inv (settings : Fin n → Settings (Fin n)) (s : Cluster n Key Value) : Prop where
  replica_ok : ∀ x, (s.replica x).Ok
  attempt_ok : ∀ ca co, s.attempt ca = some co → co.Ok (settings ca.1) ca.1
  link_ok : ∀ ℓ, LinkOk (s.attempt ℓ.source) ℓ.peer (s.handler ℓ) (s.down ℓ) (s.up ℓ)

/-! ## Changes -/

/-- One attempt moves. -/
def move (s : Cluster n Key Value) (ca : Fin n × ℕ) (co : Coordinator (Fin n) Key Value)
    (coordinators : Key → Option ℕ) (datastore : DatastoreManager Key Value) :
    Cluster n Key Value :=
  s.setReplica ca.1 ((s.replica ca.1).moved ca.2 co coordinators datastore)

/-- The thread of one connection moves. -/
def handle (s : Cluster n Key Value) (ℓ : Link n) (h : Handler Key Value)
    (participants : Key → Option (Fin n × ℕ)) (datastore : DatastoreManager Key Value) :
    Cluster n Key Value :=
  s.setReplica ℓ.peer ((s.replica ℓ.peer).handled ℓ.source h participants datastore)

/-- A new attempt. -/
def spawn (s : Cluster n Key Value) (ca : Fin n × ℕ) (co : Coordinator (Fin n) Key Value)
    (replicaTS : ℤ) : Cluster n Key Value :=
  s.setReplica ca.1 { (s.replica ca.1).setAttempt ca.2 co with replicaTS := replicaTS }

/-- A `GLOBAL_ABORT` is handled that the thread of its own connection has no use for. -/
def flag (s : Cluster n Key Value) (x : Fin n) (uid : ℤ) (key : Key) : Cluster n Key Value :=
  s.setReplica x ((s.replica x).globalAbort uid key)

section Views

variable (s : Cluster n Key Value) (ca : Fin n × ℕ) (co : Coordinator (Fin n) Key Value)
  (coordinators : Key → Option ℕ) (ds : DatastoreManager Key Value) (ℓ : Link n)
  (h : Handler Key Value) (participants : Key → Option (Fin n × ℕ))

@[simp] theorem attempt_move :
    (s.move ca co coordinators ds).attempt = update s.attempt ca (some co) := by
  funext cb
  by_cases hc : cb.1 = ca.1
  · by_cases ha : cb.2 = ca.2
    · obtain rfl : cb = ca := Prod.ext hc ha
      simp [attempt, move, setReplica, Replica.moved, Replica.setAttempt]
    · have hne : cb ≠ ca := fun he => ha (congrArg Prod.snd he)
      simp [attempt, move, setReplica, Replica.moved, Replica.setAttempt, hc, ha, hne]
  · have hne : cb ≠ ca := fun he => hc (congrArg Prod.fst he)
    simp [attempt, move, setReplica, hc, hne]

@[simp] theorem handler_move : (s.move ca co coordinators ds).handler = s.handler := by
  funext ℓ
  by_cases hx : ℓ.peer = ca.1 <;>
    simp [handler, move, setReplica, Replica.moved, Replica.setAttempt, hx]

@[simp] theorem datastore_move :
    (s.move ca co coordinators ds).datastore = update s.datastore ca.1 ds := by
  funext x
  by_cases hx : x = ca.1
  · subst hx
    simp [datastore, move, setReplica, Replica.moved]
  · simp [datastore, move, setReplica, hx]

@[simp] theorem attempt_handle : (s.handle ℓ h participants ds).attempt = s.attempt := by
  funext ca
  by_cases hx : ca.1 = ℓ.peer <;>
    simp [attempt, handle, setReplica, Replica.handled, Replica.setHandler, hx]

@[simp] theorem handler_handle :
    (s.handle ℓ h participants ds).handler = update s.handler ℓ h := by
  funext ℓ'
  by_cases hx : ℓ'.peer = ℓ.peer
  · by_cases hs : ℓ'.source = ℓ.source
    · obtain rfl : ℓ' = ℓ := by
        cases ℓ'
        cases ℓ
        simp_all [Link.source]
      simp [handler, handle, setReplica, Replica.handled, Replica.setHandler]
    · have hne : ℓ' ≠ ℓ := fun he => hs (congrArg Link.source he)
      simp [handler, handle, setReplica, Replica.handled, Replica.setHandler, hx, hs, hne]
  · have hne : ℓ' ≠ ℓ := fun he => hx (congrArg Link.peer he)
    simp [handler, handle, setReplica, hx, hne]

@[simp] theorem datastore_handle :
    (s.handle ℓ h participants ds).datastore = update s.datastore ℓ.peer ds := by
  funext x
  by_cases hx : x = ℓ.peer
  · subst hx
    simp [datastore, handle, setReplica, Replica.handled]
  · simp [datastore, handle, setReplica, hx]

@[simp] theorem attempt_spawn (replicaTS : ℤ) :
    (s.spawn ca co replicaTS).attempt = update s.attempt ca (some co) := by
  funext cb
  by_cases hc : cb.1 = ca.1
  · by_cases ha : cb.2 = ca.2
    · obtain rfl : cb = ca := Prod.ext hc ha
      simp [attempt, spawn, setReplica, Replica.setAttempt]
    · have hne : cb ≠ ca := fun he => ha (congrArg Prod.snd he)
      simp [attempt, spawn, setReplica, Replica.setAttempt, hc, ha, hne]
  · have hne : cb ≠ ca := fun he => hc (congrArg Prod.fst he)
    simp [attempt, spawn, setReplica, hc, hne]

@[simp] theorem handler_spawn (replicaTS : ℤ) : (s.spawn ca co replicaTS).handler = s.handler := by
  funext ℓ
  by_cases hx : ℓ.peer = ca.1 <;> simp [handler, spawn, setReplica, Replica.setAttempt, hx]

@[simp] theorem datastore_spawn (replicaTS : ℤ) :
    (s.spawn ca co replicaTS).datastore = s.datastore := by
  funext x
  by_cases hx : x = ca.1 <;> simp [datastore, spawn, setReplica, Replica.setAttempt, hx]

@[simp] theorem attempt_flag (x : Fin n) (uid : ℤ) (key : Key) :
    (s.flag x uid key).attempt = s.attempt := by
  funext ca
  by_cases hx : ca.1 = x
  · subst hx
    simp only [attempt, flag, setReplica, update_self, Replica.globalAbort]
    split <;> rfl
  · simp [attempt, flag, setReplica, hx]

@[simp] theorem datastore_flag (x : Fin n) (uid : ℤ) (key : Key) :
    (s.flag x uid key).datastore = s.datastore := by
  funext y
  by_cases hx : y = x
  · subst hx
    simp only [datastore, flag, setReplica, update_self, Replica.globalAbort]
    split <;> rfl
  · simp [datastore, flag, setReplica, hx]

/-- No thread but the one whose participant is registered for the key can be flagged. -/
theorem handler_flag (x : Fin n) (uid : ℤ) (key : Key) :
    (s.flag x uid key).handler ℓ = s.handler ℓ ∨
      ℓ.peer = x ∧ (s.replica x).participants key = some ℓ.source ∧
        (s.flag x uid key).handler ℓ = (s.handler ℓ).flag uid := by
  by_cases hx : ℓ.peer = x
  · subst hx
    have hhandler : (s.flag ℓ.peer uid key).handler ℓ =
        ((s.replica ℓ.peer).globalAbort uid key).handler ℓ.source := by
      simp [handler, flag, setReplica]
    rw [hhandler]
    rcases (s.replica ℓ.peer).globalAbort_handler uid key ℓ.source with he | ⟨hp, he⟩
    · exact .inl he
    · exact .inr ⟨rfl, hp, he⟩
  · exact .inl (by simp [handler, flag, setReplica, hx])

end Views

variable {settings : Fin n → Settings (Fin n)} {s t : Cluster n Key Value} {e : Event n Key Value}

theorem Inv.phase (hs : Inv settings s) {ℓ : Link n} {co : Coordinator (Fin n) Key Value}
    (hco : s.attempt ℓ.source = some co) :
    co.Phase ℓ.peer (s.handler ℓ) (s.down ℓ) (s.up ℓ) := by
  have := hs.link_ok ℓ
  rwa [hco] at this

/-- There is an attempt behind every message. -/
theorem Inv.exists_attempt (hs : Inv settings s) {ℓ : Link n}
    (h : s.down ℓ ≠ [] ∨ s.up ℓ ≠ [] ∨ s.handler ℓ ≠ .idle) :
    ∃ co, s.attempt ℓ.source = some co := by
  have hlink := hs.link_ok ℓ
  cases hco : s.attempt ℓ.source with
  | some co => exact ⟨co, rfl⟩
  | none =>
    rw [hco] at hlink
    obtain ⟨hh, hd, hu⟩ := hlink
    rcases h with h | h | h
    · exact absurd hd h
    · exact absurd hu h
    · exact absurd hh h

theorem Inv.registered (hs : Inv settings s) {ca : Fin n × ℕ}
    {co : Coordinator (Fin n) Key Value} (hco : s.attempt ca = some co) (hreg : co.registered) :
    (s.replica ca.1).coordinators co.key = some ca.2 := by
  refine (hs.replica_ok ca.1).coordinators_eq.mpr ?_
  have hco' : (s.replica ca.1).attempt ca.2 = some co := hco
  simp [hco', Coordinator.seat, hreg]

theorem Inv.participant (hs : Inv settings s) {ℓ : Link n} {p : Participant Key Value}
    (hp : (s.handler ℓ).registered = some p) :
    (s.replica ℓ.peer).participants p.key = some ℓ.source := by
  refine (hs.replica_ok ℓ.peer).participants_eq.mpr ?_
  have hp' : ((s.replica ℓ.peer).handler ℓ.source).registered = some p := hp
  simp [Handler.seat, hp']

theorem setReplica_ok {c : Fin n} {r : Replica (Fin n) Key Value}
    (hs : ∀ x, (s.replica x).Ok) (hr : r.Ok) (x : Fin n) : ((s.setReplica c r).replica x).Ok := by
  by_cases hx : x = c
  · subst hx
    simpa [setReplica] using hr
  · simpa [setReplica, hx] using hs x

/-- A coordinator moves, and only messages on its own connections change. -/
theorem Inv.move (hs : Inv settings s) (ca : Fin n × ℕ) {co' : Coordinator (Fin n) Key Value}
    {coordinators : Key → Option ℕ} {datastore : DatastoreManager Key Value}
    {down up : Link n → List (Message Key Value)}
    (hr : ((s.replica ca.1).moved ca.2 co' coordinators datastore).Ok)
    (hok : co'.Ok (settings ca.1) ca.1)
    (hrest : ∀ ℓ : Link n, ℓ.source ≠ ca → down ℓ = s.down ℓ ∧ up ℓ = s.up ℓ)
    (hphase : ∀ ℓ : Link n, ℓ.source = ca → co'.Phase ℓ.peer (s.handler ℓ) (down ℓ) (up ℓ)) :
    Inv settings { s.move ca co' coordinators datastore with down := down, up := up } where
  replica_ok := setReplica_ok hs.replica_ok hr
  attempt_ok cb co₁ h := by
    change (s.move ca co' coordinators datastore).attempt cb = some co₁ at h
    rw [attempt_move] at h
    rcases update_eq_some.mp h with ⟨rfl, ⟨⟩⟩ | ⟨-, hold⟩
    · exact hok
    · exact hs.attempt_ok cb co₁ hold
  link_ok ℓ := by
    change LinkOk ((s.move ca co' coordinators datastore).attempt ℓ.source) ℓ.peer
      ((s.move ca co' coordinators datastore).handler ℓ) (down ℓ) (up ℓ)
    rw [attempt_move, handler_move]
    by_cases hℓ : ℓ.source = ca
    · rw [hℓ, update_self]
      exact hphase ℓ hℓ
    · rw [update_of_ne hℓ, (hrest ℓ hℓ).1, (hrest ℓ hℓ).2]
      exact hs.link_ok ℓ

/-- The thread of a connection moves, and only messages on this connection change. -/
theorem Inv.handle (hs : Inv settings s) {ℓ : Link n} {h : Handler Key Value}
    {participants : Key → Option (Fin n × ℕ)} {datastore : DatastoreManager Key Value}
    {down up : Link n → List (Message Key Value)}
    (hr : ((s.replica ℓ.peer).handled ℓ.source h participants datastore).Ok)
    (hrest : ∀ ℓ', ℓ' ≠ ℓ → down ℓ' = s.down ℓ' ∧ up ℓ' = s.up ℓ')
    (hlink : LinkOk (s.attempt ℓ.source) ℓ.peer h (down ℓ) (up ℓ)) :
    Inv settings { s.handle ℓ h participants datastore with down := down, up := up } where
  replica_ok := setReplica_ok hs.replica_ok hr
  attempt_ok cb co₁ hco := by
    change (s.handle ℓ h participants datastore).attempt cb = some co₁ at hco
    rw [attempt_handle] at hco
    exact hs.attempt_ok cb co₁ hco
  link_ok ℓ' := by
    change LinkOk ((s.handle ℓ h participants datastore).attempt ℓ'.source) ℓ'.peer
      ((s.handle ℓ h participants datastore).handler ℓ') (down ℓ') (up ℓ')
    rw [attempt_handle, handler_handle]
    by_cases hℓ : ℓ' = ℓ
    · subst hℓ
      rw [update_self]
      exact hlink
    · rw [update_of_ne hℓ, (hrest ℓ' hℓ).1, (hrest ℓ' hℓ).2]
      exact hs.link_ok ℓ'

theorem Inv.spawn (hs : Inv settings s) {ca : Fin n × ℕ} {co : Coordinator (Fin n) Key Value}
    {replicaTS : ℤ} (hnone : s.attempt ca = none) (hok : co.Ok (settings ca.1) ca.1)
    (hpc : co.pc = .register) : Inv settings (s.spawn ca co replicaTS) where
  replica_ok := setReplica_ok hs.replica_ok
    (((hs.replica_ok ca.1).spawned hnone hpc).congr rfl rfl rfl rfl rfl)
  attempt_ok cb co₁ h := by
    rw [attempt_spawn] at h
    rcases update_eq_some.mp h with ⟨rfl, ⟨⟩⟩ | ⟨-, hold⟩
    · exact hok
    · exact hs.attempt_ok cb co₁ hold
  link_ok ℓ := by
    rw [attempt_spawn, handler_spawn]
    by_cases hℓ : ℓ.source = ca
    · have hlink := hs.link_ok ℓ
      rw [hℓ, hnone] at hlink
      obtain ⟨hh, hd, hu⟩ := hlink
      rw [hℓ, update_self]
      change co.Phase ℓ.peer (s.handler ℓ) (s.down ℓ) (s.up ℓ)
      have hfresh : co.stage ℓ.peer = .fresh :=
        Coordinator.stage_of_not_mem (by simp [hok.quorum_eq_nil (.inl hpc)])
      rw [hh, hd, hu, Coordinator.Phase]
      split
      · exact .fresh hfresh (.inl rfl)
      · exact .fresh hfresh (.inl rfl)
    · rw [update_of_ne hℓ]
      exact hs.link_ok ℓ

theorem Inv.of_initial (contents : Fin n → Key → Option (Value × ℤ)) :
    Inv settings (initial contents) where
  replica_ok x := Replica.Ok.of_started _ _
  attempt_ok ca co h := by cases h
  link_ok ℓ := ⟨rfl, rfl, rfl⟩

/-! ## Later states -/

/-- `t` is later than `s`. -/
def Later (s t : Cluster n Key Value) : Prop :=
  ∀ ca co, s.attempt ca = some co → ∃ co', t.attempt ca = some co' ∧ co.Later co'

theorem Later.refl (s : Cluster n Key Value) : Later s s := fun _ co h => ⟨co, h, .refl co⟩

theorem Later.trans {u : Cluster n Key Value} (h : Later s t) (h' : Later t u) : Later s u := by
  intro ca co hco
  obtain ⟨co₁, hco₁, hl₁⟩ := h ca co hco
  obtain ⟨co₂, hco₂, hl₂⟩ := h' ca co₁ hco₁
  exact ⟨co₂, hco₂, hl₁.trans hl₂⟩

/-- One attempt has a later record, the others keep theirs. -/
theorem Later.update {ca : Fin n × ℕ} {co' : Coordinator (Fin n) Key Value}
    (ht : t.attempt = update s.attempt ca (some co'))
    (hlater : ∀ co, s.attempt ca = some co → co.Later co') : Later s t := by
  intro cb co hco
  by_cases hcb : cb = ca
  · subst hcb
    exact ⟨co', by rw [ht, update_self], hlater co hco⟩
  · exact ⟨co, by rw [ht, update_of_ne hcb, hco], .refl co⟩

/-! ## What an event changes -/

variable [DecidableEq Key] [Inhabited Value]

/-- What an event does to a state that satisfies the invariant. -/
inductive Change (settings : Fin n → Settings (Fin n)) (s : Cluster n Key Value) :
    Event n Key Value → Cluster n Key Value → Prop
  | request {c : Fin n} {a : ℕ} {op : Operation Value} {key : Key} {uid : ℤ} {replicaTS : ℤ}
      (fresh : s.attempt (c, a) = none) :
      Change settings s (.run c (.request a op key uid))
        (s.spawn (c, a) { op := op, key := key, uid := uid } replicaTS)
  | retry {c : Fin n} {a b : ℕ} {co : Coordinator (Fin n) Key Value}
      (current : s.attempt (c, a) = some co) (pc_eq : co.pc = .backoff)
      (fresh : s.attempt (c, b) = none) :
      Change settings s (.run c (.retry a b))
        ((s.move (c, a) { co with pc := .superseded } (s.replica c).coordinators
          (s.replica c).datastore).spawn (c, b) co.nextAttempt (s.replica c).replicaTS)
  | move {c : Fin n} {action : Replica.Action (Fin n) Key Value}
      {co co' : Coordinator (Fin n) Key Value} {coordinators : Key → Option ℕ}
      {datastore : DatastoreManager Key Value}
      (current : s.attempt (c, action.of) = some co)
      (step : CoordinatorStep (settings c) (s.replica c) action.of co co' coordinators datastore) :
      Change settings s (.run c action) (s.move (c, action.of) co' coordinators datastore)
  | send {ℓ : Link n} {co : Coordinator (Fin n) Key Value} {m : Message Key Value}
      (current : s.attempt ℓ.source = some co) (mem : ℓ.peer ∈ co.quorum)
      (unsent : co.sender ℓ.peer = .unsent)
      (message : co.message (Coordinator.getLatestValue co.values) = some m) :
      Change settings s (.send ℓ)
        { s.move ℓ.source (co.sentTo ℓ.peer) (s.replica ℓ.coordinator).coordinators
            (s.replica ℓ.coordinator).datastore with
          down := update s.down ℓ (s.down ℓ ++ [m]) }
  | reply {ℓ : Link n} {co : Coordinator (Fin n) Key Value} {m : Message Key Value}
      {rest : List (Message Key Value)} (current : s.attempt ℓ.source = some co)
      (pc_eq : co.pc = .exchange) (mem : ℓ.peer ∈ co.quorum)
      (waiting : co.sender ℓ.peer = .waiting) (up_eq : s.up ℓ = m :: rest) :
      Change settings s (.reply ℓ)
        { s.move ℓ.source (co.heardFrom ℓ.peer m) (s.replica ℓ.coordinator).coordinators
            (s.replica ℓ.coordinator).datastore with
          up := update s.up ℓ rest }
  | deliver {ℓ : Link n} {m : Message Key Value} {rest : List (Message Key Value)}
      {h : Handler Key Value} {datastore : DatastoreManager Key Value}
      (down_eq : s.down ℓ = m :: rest)
      (step : DeliverStep (s.replica ℓ.peer) ℓ.source (s.handler ℓ) m h datastore) :
      Change settings s (.deliver ℓ)
        { s.handle ℓ h (s.replica ℓ.peer).participants datastore with
          down := update s.down ℓ rest }
  | stale {ℓ : Link n} {uid : ℤ} {key : Key} {rest : List (Message Key Value)}
      (down_eq : s.down ℓ = .globalAbort uid key :: rest) (idle : s.handler ℓ = .idle) :
      Change settings s (.deliver ℓ)
        { s.flag ℓ.peer uid key with down := update s.down ℓ rest }
  | proceed {ℓ : Link n} {h : Handler Key Value} {sent : Option (Message Key Value)}
      {participants : Key → Option (Fin n × ℕ)} {datastore : DatastoreManager Key Value}
      (step : HandlerStep (s.replica ℓ.peer) ℓ.source (s.handler ℓ) h sent participants
        datastore) :
      Change settings s (.proceed ℓ)
        { s.handle ℓ h participants datastore with
          up := update s.up ℓ (s.up ℓ ++ sent.toList) }
  | hangup {ℓ : Link n} {co : Coordinator (Fin n) Key Value}
      (current : s.attempt ℓ.source = some co) (closed : co.closed = true)
      (down_eq : s.down ℓ = []) (idle : s.handler ℓ = .idle) :
      Change settings s (.hangup ℓ)
        (s.handle ℓ .closed (s.replica ℓ.peer).participants (s.replica ℓ.peer).datastore)

theorem step_cases (hs : Inv settings s) (h : step settings s e = some t) :
    Change settings s e t := by
  cases e with
  | run c action =>
    obtain ⟨r', hr', rfl⟩ := Option.map_eq_some_iff.mp h
    rcases Replica.run_cases hr' with ⟨co, co', coordinators, datastore, hco, hstep, rfl⟩ |
      ⟨a, op, key, uid, rfl, hnone, rfl⟩ | ⟨a, b, co, rfl, hco, hpc, hnone, rfl⟩
    · exact .move hco hstep
    · exact .request hnone
    · have heq : s.setReplica c (((s.replica c).moved a { co with pc := .superseded }
          (s.replica c).coordinators (s.replica c).datastore).setAttempt b co.nextAttempt) =
          (s.move (c, a) { co with pc := .superseded } (s.replica c).coordinators
            (s.replica c).datastore).spawn (c, b) co.nextAttempt (s.replica c).replicaTS := by
        simp [spawn, move, setReplica, Replica.moved, Replica.setAttempt]
      rw [heq]
      exact .retry hco hpc hnone
  | send ℓ =>
    obtain ⟨⟨r', m⟩, hr', rfl⟩ := Option.map_eq_some_iff.mp h
    obtain ⟨co, hco, hx, hunsent, hm, rfl⟩ := Replica.send_eq_some hr'
    exact .send hco hx hunsent hm
  | reply ℓ =>
    simp only [step] at h
    split at h
    · cases h
    · next m rest hup =>
      obtain ⟨r', hr', rfl⟩ := Option.map_eq_some_iff.mp h
      obtain ⟨co, hco⟩ := hs.exists_attempt (ℓ := ℓ) (.inr (.inl (by simp [hup])))
      have hexchange : co.pc = .exchange ∧ ℓ.peer ∈ co.quorum := by
        obtain ⟨co', hco', hrest⟩ := Option.bind_eq_some_iff.mp hr'
        obtain ⟨hco', hpc⟩ := Replica.attemptAt_eq_some.mp hco'
        obtain rfl : co' = co := Option.some.inj (hco'.symm.trans hco)
        split_ifs at hrest with hx
        exact ⟨hpc, hx.1⟩
      have hphase := hs.phase hco
      rw [hup] at hphase
      have hreg := hs.registered hco (by simp [Coordinator.registered, hexchange.1])
      obtain ⟨hpc, hx, hwaiting, rfl⟩ := Replica.receive_eq_some hr' hco hreg
        (hphase.answers hexchange.1 hexchange.2)
      exact .reply hco hpc hx hwaiting hup
  | deliver ℓ =>
    simp only [step] at h
    split at h
    · cases h
    · next m rest hdown =>
      obtain ⟨r', hr', rfl⟩ := Option.map_eq_some_iff.mp h
      obtain ⟨co, hco⟩ := hs.exists_attempt (ℓ := ℓ) (.inl (by simp [hdown]))
      have hphase := hs.phase hco
      rw [hdown] at hphase
      obtain ⟨hown, hidle⟩ := hphase.expects
      rcases Replica.deliver_cases hr' (fun p hp => ⟨hs.participant (by
          rw [show s.handler ℓ = .deciding p from hp]; rfl), hown p hp⟩) hidle with
        ⟨hd, hd', datastore, hhd, hstep, rfl⟩ | ⟨uid, key, rfl, hh, rfl⟩
      · obtain rfl : s.handler ℓ = hd := hhd
        exact .deliver hdown hstep
      · exact .stale hdown hh
  | proceed ℓ =>
    obtain ⟨⟨r', sent⟩, hr', rfl⟩ := Option.map_eq_some_iff.mp h
    obtain ⟨hd, hd', participants, datastore, hhd, hstep, rfl⟩ := Replica.proceed_cases hr'
    obtain rfl : s.handler ℓ = hd := hhd
    exact .proceed hstep
  | hangup ℓ =>
    simp only [step] at h
    split_ifs at h with hclosed
    obtain ⟨r', hr', rfl⟩ := Option.map_eq_some_iff.mp h
    obtain ⟨co, hco, hc⟩ : ∃ co, s.attempt ℓ.source = some co ∧ co.closed = true := by
      have := hclosed.2
      unfold closed at this
      split at this
      · next co hco => exact ⟨co, hco, this⟩
      · cases this
    have hdown : s.down ℓ = [] := List.isEmpty_iff.mp hclosed.1
    have hphase := hs.phase hco
    rw [hdown] at hphase
    have hung := hphase.hungUp (hs.attempt_ok _ co hco) hc
    unfold Replica.hangup at hr'
    split at hr'
    · next hidle =>
      cases hr'
      exact .hangup hco hc hdown hidle
    · next p hp => exact absurd hp (hung.2 p)
    · cases hr'

/-! ## Preservation -/

/-- The invariant after one event. -/
theorem Inv.change (hset : ∀ c, (settings c).Ok c) (hs : Inv settings s)
    (h : Change settings s e t) : Inv settings t := by
  cases h with
  | @request c a op key uid replicaTS fresh =>
    exact hs.spawn fresh (.of_fresh ((hset c).quorumSize_pos _) rfl rfl rfl rfl) rfl
  | @retry c a b co current pc_eq fresh =>
    have hok := hs.attempt_ok _ co current
    have hstep : CoordinatorStep (settings c) (s.replica c) a co { co with pc := .superseded }
        (s.replica c).coordinators (s.replica c).datastore := .supersede pc_eq
    have hmove := hs.move (c, a) ((hs.replica_ok c).moved current (by simp [pc_eq]) hstep)
      (hok.step (hset c) hstep) (fun _ _ => ⟨rfl, rfl⟩)
      fun ℓ hℓ => (hs.phase (hℓ ▸ current)).grow (hok.grows hstep)
    refine hmove.spawn ?_ (.of_fresh ((hset c).quorumSize_pos _) rfl rfl rfl ?_) rfl
    · have hne : (c, b) ≠ (c, a) := by
        rintro he
        rw [he] at fresh
        rw [fresh] at current
        cases current
      change (s.move (c, a) _ _ _).attempt (c, b) = none
      rw [attempt_move, update_of_ne hne, fresh]
    · by_contra hanswer
      have := (hok.answer_pc hanswer).2
      simp [pc_eq] at this
  | @move c action co co' coordinators datastore current step =>
    have hok := hs.attempt_ok _ co current
    exact hs.move (c, action.of) ((hs.replica_ok c).moved current
      (fun hpc hop => (hok.get_pc hop).2.1 hpc) step) (hok.step (hset c) step)
      (fun _ _ => ⟨rfl, rfl⟩) fun ℓ hℓ => (hs.phase (hℓ ▸ current)).grow (hok.grows step)
  | @send ℓ co m current mem unsent message =>
    have hok := hs.attempt_ok _ co current
    refine hs.move ℓ.source ((hs.replica_ok _).sent current) (hok.sent unsent) (fun ℓ' hℓ => ?_)
      fun ℓ' hℓ => ?_
    · exact ⟨update_of_ne (fun he => hℓ (congrArg Link.source he)) .., rfl⟩
    · by_cases hpeer : ℓ'.peer = ℓ.peer
      · obtain rfl := Link.ext_source hℓ hpeer
        rw [update_self]
        exact (hs.phase current).sent hok mem unsent message
      · rw [update_of_ne (fun he => hpeer (congrArg Link.peer he))]
        exact (hs.phase (hℓ ▸ current)).grow (Coordinator.grows_sentTo hpeer)
  | @reply ℓ co m rest current pc_eq mem waiting up_eq =>
    have hok := hs.attempt_ok _ co current
    refine hs.move ℓ.source ((hs.replica_ok _).received current) (hok.heard pc_eq mem waiting)
      (fun ℓ' hℓ => ?_) fun ℓ' hℓ => ?_
    · exact ⟨rfl, update_of_ne (fun he => hℓ (congrArg Link.source he)) ..⟩
    · by_cases hpeer : ℓ'.peer = ℓ.peer
      · obtain rfl := Link.ext_source hℓ hpeer
        have hphase := hs.phase current
        rw [up_eq] at hphase
        rw [update_self]
        exact hphase.heard pc_eq mem waiting
      · rw [update_of_ne (fun he => hpeer (congrArg Link.peer he))]
        exact (hs.phase (hℓ ▸ current)).grow (Coordinator.grows_heardFrom pc_eq hpeer)
  | @deliver ℓ m rest h datastore down_eq step =>
    obtain ⟨co, hco⟩ := hs.exists_attempt (ℓ := ℓ) (.inl (by simp [down_eq]))
    have hphase := hs.phase hco
    rw [down_eq] at hphase
    refine hs.handle ((hs.replica_ok _).delivered rfl step)
      (fun ℓ' hℓ => ⟨update_of_ne hℓ .., rfl⟩) ?_
    rw [hco, update_self]
    exact hphase.delivered step
  | @stale ℓ uid key rest down_eq idle =>
    obtain ⟨co, hco⟩ := hs.exists_attempt (ℓ := ℓ) (.inl (by simp [down_eq]))
    have hphase := hs.phase hco
    rw [down_eq, idle] at hphase
    refine ⟨setReplica_ok hs.replica_ok (hs.replica_ok _).flagged, ?_, fun ℓ' => ?_⟩
    · intro cb co₁ h
      change (s.flag ℓ.peer uid key).attempt cb = some co₁ at h
      rw [attempt_flag] at h
      exact hs.attempt_ok cb co₁ h
    · change LinkOk ((s.flag ℓ.peer uid key).attempt ℓ'.source) ℓ'.peer
        ((s.flag ℓ.peer uid key).handler ℓ') (update s.down ℓ rest ℓ') (s.up ℓ')
      have hlink : LinkOk (s.attempt ℓ'.source) ℓ'.peer (s.handler ℓ') (update s.down ℓ rest ℓ')
          (s.up ℓ') := by
        by_cases hℓ : ℓ' = ℓ
        · subst hℓ
          rw [hco, idle, update_self]
          exact hphase.stale.2.2.2.2
        · rw [update_of_ne hℓ]
          exact hs.link_ok ℓ'
      rw [attempt_flag]
      rcases s.handler_flag ℓ' ℓ.peer uid key with he | ⟨-, -, he⟩
      · rwa [he]
      · rw [he]
        exact hlink.flag uid
  | @proceed ℓ h sent participants datastore step =>
    refine hs.handle ((hs.replica_ok _).proceeded rfl step)
      (fun ℓ' hℓ => ⟨rfl, update_of_ne hℓ ..⟩) ?_
    have hbusy : s.handler ℓ ≠ .idle := fun hidle => by
      rw [hidle] at step
      cases step
    obtain ⟨co, hco⟩ := hs.exists_attempt (ℓ := ℓ) (.inr (.inr hbusy))
    rw [hco, update_self]
    exact (hs.phase hco).proceeded step
  | @hangup ℓ co current closed down_eq idle =>
    have hphase := hs.phase current
    rw [down_eq] at hphase
    have hr : ((s.replica ℓ.peer).handled ℓ.source .closed (s.replica ℓ.peer).participants
        (s.replica ℓ.peer).datastore).Ok := by
      have hidle : (s.replica ℓ.peer).handler ℓ.source = .idle := idle
      exact (hs.replica_ok ℓ.peer).handled_same (by rw [hidle]; rfl) (by rw [hidle]; rfl) rfl
    refine hs.handle hr (fun _ _ => ⟨rfl, rfl⟩) ?_
    rw [current, down_eq]
    exact (hphase.hungUp (hs.attempt_ok _ co current) closed).1 idle

theorem Inv.run {allowed : Cluster n Key Value → Event n Key Value → Prop}
    (hset : ∀ c, (settings c).Ok c) (hs : Inv settings s) (h : Run settings allowed s t) :
    Inv settings t :=
  h.preserves (fun _ _ _ hs _ hstep => hs.change hset (step_cases hs hstep)) hs

/-- A relation that holds across every change holds across a run. -/
theorem Inv.relates {allowed : Cluster n Key Value → Event n Key Value → Prop}
    {R : Cluster n Key Value → Cluster n Key Value → Prop} (hset : ∀ c, (settings c).Ok c)
    (hs : Inv settings s) (hrefl : ∀ s, R s s) (htrans : ∀ {s t u}, R s t → R t u → R s u)
    (hstep : ∀ s e t, Inv settings s → allowed s e → Change settings s e t → R s t)
    (h : Run settings allowed s t) : R s t := by
  induction h with
  | refl => exact hrefl _
  | tail hrun ha hst ih =>
    have ht := hs.run hset hrun
    exact htrans ih (hstep _ _ _ ht ha (step_cases ht hst))

/-! ## One attempt, one thread, one message -/

/-- How the record of attempt `ca` comes about in one event. -/
inductive Evolves (config : Fin n → Settings (Fin n)) (s : Cluster n Key Value)
    (ca : Fin n × ℕ) : Coordinator (Fin n) Key Value → Prop
  | same {co : Coordinator (Fin n) Key Value} (current : s.attempt ca = some co) :
      Evolves config s ca co
  | request {op : Operation Value} {key : Key} {uid : ℤ} (fresh : s.attempt ca = none) :
      Evolves config s ca { op := op, key := key, uid := uid }
  | retry {a : ℕ} {co : Coordinator (Fin n) Key Value} (fresh : s.attempt ca = none)
      (previous : s.attempt (ca.1, a) = some co) (pc_eq : co.pc = .backoff) :
      Evolves config s ca co.nextAttempt
  | step {co co' : Coordinator (Fin n) Key Value} {coordinators : Key → Option ℕ}
      {datastore : DatastoreManager Key Value} (current : s.attempt ca = some co)
      (step : CoordinatorStep (config ca.1) (s.replica ca.1) ca.2 co co' coordinators datastore) :
      Evolves config s ca co'
  | sent {co : Coordinator (Fin n) Key Value} {x : Fin n} {m : Message Key Value}
      (current : s.attempt ca = some co) (mem : x ∈ co.quorum) (unsent : co.sender x = .unsent)
      (message : co.message (Coordinator.getLatestValue co.values) = some m) :
      Evolves config s ca (co.sentTo x)
  | heard {co : Coordinator (Fin n) Key Value} {x : Fin n} {m : Message Key Value}
      {rest : List (Message Key Value)} (current : s.attempt ca = some co)
      (pc_eq : co.pc = .exchange) (mem : x ∈ co.quorum) (waiting : co.sender x = .waiting)
      (up_eq : s.up ⟨ca.1, ca.2, x⟩ = m :: rest) : Evolves config s ca (co.heardFrom x m)

/-- How the thread of a connection comes to where it is. -/
inductive Turns (s : Cluster n Key Value) (ℓ : Link n) : Handler Key Value → Prop
  | same : Turns s ℓ (s.handler ℓ)
  | flag {uid : ℤ} : Turns s ℓ ((s.handler ℓ).flag uid)
  | deliver {m : Message Key Value} {rest : List (Message Key Value)} {h : Handler Key Value}
      {datastore : DatastoreManager Key Value} (down_eq : s.down ℓ = m :: rest)
      (step : DeliverStep (s.replica ℓ.peer) ℓ.source (s.handler ℓ) m h datastore) : Turns s ℓ h
  | proceed {h : Handler Key Value} {sent : Option (Message Key Value)}
      {participants : Key → Option (Fin n × ℕ)} {datastore : DatastoreManager Key Value}
      (step : HandlerStep (s.replica ℓ.peer) ℓ.source (s.handler ℓ) h sent participants
        datastore) : Turns s ℓ h
  | hangup : Turns s ℓ .closed

theorem Change.evolves (h : Change settings s e t) {ca : Fin n × ℕ}
    {co' : Coordinator (Fin n) Key Value} (hco' : t.attempt ca = some co') :
    Evolves settings s ca co' := by
  have attempts : ∀ {cb co₁}, t.attempt = update s.attempt cb (some co₁) →
      (ca = cb → Evolves settings s ca co₁) → Evolves settings s ca co' := by
    intro cb co₁ ha hnew
    rw [ha] at hco'
    rcases update_eq_some.mp hco' with ⟨hcb, ⟨⟩⟩ | ⟨-, hold⟩
    · exact hnew hcb
    · exact .same hold
  cases h with
  | request fresh => exact attempts (attempt_spawn ..) (by rintro rfl; exact .request fresh)
  | @retry c a b co current pc_eq fresh =>
    rw [attempt_spawn, attempt_move, update_eq_some, update_eq_some] at hco'
    rcases hco' with ⟨rfl, ⟨⟩⟩ | ⟨-, ⟨rfl, ⟨⟩⟩ | ⟨-, hold⟩⟩
    · exact .retry fresh current pc_eq
    · exact .step current (.supersede pc_eq)
    · exact .same hold
  | move current step => exact attempts (attempt_move ..) (by rintro rfl; exact .step current step)
  | send current mem unsent message =>
    exact attempts (attempt_move ..) (by rintro rfl; exact .sent current mem unsent message)
  | reply current pc_eq mem waiting up_eq =>
    exact attempts (attempt_move ..) (by rintro rfl; exact .heard current pc_eq mem waiting up_eq)
  | deliver | proceed => exact .same ((congrFun (attempt_handle ..) _).symm.trans hco')
  | hangup => exact .same ((congrFun (attempt_handle ..) _).symm.trans hco')
  | stale => exact .same ((congrFun (attempt_flag ..) _).symm.trans hco')

theorem Change.turns (h : Change settings s e t) (ℓ : Link n) : Turns s ℓ (t.handler ℓ) := by
  have same : t.handler = s.handler → Turns s ℓ (t.handler ℓ) := fun hh => hh ▸ .same
  have handlers : ∀ {ℓ' hd}, t.handler = update s.handler ℓ' hd →
      (ℓ = ℓ' → Turns s ℓ hd) → Turns s ℓ (t.handler ℓ) := by
    intro ℓ' hd hh hnew
    rw [hh]
    by_cases hℓ : ℓ = ℓ'
    · rw [hℓ, update_self]
      exact hℓ ▸ hnew hℓ
    · rw [update_of_ne hℓ]
      exact .same
  cases h with
  | request => exact same (handler_spawn ..)
  | retry => exact same ((handler_spawn ..).trans (handler_move ..))
  | move => exact same (handler_move ..)
  | send => exact same (handler_move ..)
  | reply => exact same (handler_move ..)
  | deliver down_eq step =>
    exact handlers (handler_handle ..) (by rintro rfl; exact .deliver down_eq step)
  | proceed step => exact handlers (handler_handle ..) (by rintro rfl; exact .proceed step)
  | hangup => exact handlers (handler_handle ..) fun _ => .hangup
  | @stale ℓ' uid key rest down_eq idle =>
    change Turns s ℓ ((s.flag ℓ'.peer uid key).handler ℓ)
    rcases s.handler_flag ℓ ℓ'.peer uid key with he | ⟨-, -, he⟩ <;> rw [he]
    · exact .same
    · exact .flag

/-- A message to the peer was under way before, or has just been sent. -/
theorem Change.mem_down (h : Change settings s e t) {ℓ : Link n} {m : Message Key Value}
    (hm : m ∈ t.down ℓ) : m ∈ s.down ℓ ∨ ∃ co, s.attempt ℓ.source = some co ∧
      ℓ.peer ∈ co.quorum ∧ co.message (Coordinator.getLatestValue co.values) = some m := by
  cases h with
  | @send ℓ' co m' current mem unsent message =>
    change m ∈ update s.down ℓ' (s.down ℓ' ++ [m']) ℓ at hm
    by_cases hℓ : ℓ = ℓ'
    · subst hℓ
      rw [update_self] at hm
      rcases List.mem_append.mp hm with hm | hm
      · exact .inl hm
      · exact .inr ⟨co, current, mem, List.mem_singleton.mp hm ▸ message⟩
    · rw [update_of_ne hℓ] at hm
      exact .inl hm
  | @deliver ℓ' m' rest h datastore down_eq step | @stale ℓ' uid key rest down_eq idle =>
    change m ∈ update s.down ℓ' rest ℓ at hm
    by_cases hℓ : ℓ = ℓ'
    · subst hℓ
      rw [update_self] at hm
      exact .inl (by rw [down_eq]; exact List.mem_cons_of_mem _ hm)
    · rw [update_of_ne hℓ] at hm
      exact .inl hm
  | _ => exact .inl hm

/-- A message to the coordinator was under way before, or the thread has just sent it. -/
theorem Change.mem_up (h : Change settings s e t) {ℓ : Link n} {m : Message Key Value}
    (hm : m ∈ t.up ℓ) : m ∈ s.up ℓ ∨ ∃ h participants datastore,
      HandlerStep (s.replica ℓ.peer) ℓ.source (s.handler ℓ) h (some m) participants datastore := by
  cases h with
  | @reply ℓ' co m' rest current pc_eq mem waiting up_eq =>
    change m ∈ update s.up ℓ' rest ℓ at hm
    by_cases hℓ : ℓ = ℓ'
    · subst hℓ
      rw [update_self] at hm
      exact .inl (by rw [up_eq]; exact List.mem_cons_of_mem _ hm)
    · rw [update_of_ne hℓ] at hm
      exact .inl hm
  | @proceed ℓ' h sent participants datastore step =>
    change m ∈ update s.up ℓ' (s.up ℓ' ++ sent.toList) ℓ at hm
    by_cases hℓ : ℓ = ℓ'
    · subst hℓ
      rw [update_self] at hm
      rcases List.mem_append.mp hm with hm | hm
      · exact .inl hm
      · obtain rfl := Option.mem_toList.mp hm
        exact .inr ⟨_, _, _, step⟩
    · rw [update_of_ne hℓ] at hm
      exact .inl hm
  | _ => exact .inl hm

/-! ## What becomes of an attempt -/

theorem Inv.later_of_change (hs : Inv settings s) (h : Change settings s e t) : Later s t := by
  cases h with
  | request fresh => exact .update (attempt_spawn ..) fun co hco => by simp [fresh] at hco
  | @retry c a b co current pc_eq fresh =>
    have hne : (c, b) ≠ (c, a) := by
      rintro he
      rw [he] at fresh
      rw [fresh] at current
      cases current
    refine Later.trans (.update (attempt_move ..) fun co₁ hco₁ => ?_)
      (.update (attempt_spawn ..) fun co₁ hco₁ => ?_)
    · obtain rfl := Option.some.inj (current.symm.trans hco₁)
      have hstep : CoordinatorStep (settings c) (s.replica c) a co { co with pc := .superseded }
        (s.replica c).coordinators (s.replica c).datastore := .supersede pc_eq
      exact hstep.later (hs.attempt_ok _ co current)
    · rw [attempt_move, update_of_ne hne, fresh] at hco₁
      cases hco₁
  | @move c action co co' coordinators datastore current step =>
    refine .update (attempt_move ..) fun co₁ hco₁ => ?_
    obtain rfl := Option.some.inj (current.symm.trans hco₁)
    exact step.later (hs.attempt_ok _ co current)
  | @send ℓ co m current mem unsent message =>
    refine .update (attempt_move ..) fun co₁ hco₁ => ?_
    obtain rfl := Option.some.inj (current.symm.trans hco₁)
    exact co.later_sentTo ℓ.peer
  | @reply ℓ co m rest current pc_eq mem waiting up_eq =>
    refine .update (attempt_move ..) fun co₁ hco₁ => ?_
    obtain rfl := Option.some.inj (current.symm.trans hco₁)
    exact co.later_heardFrom pc_eq
  | deliver | proceed =>
    intro ca co hco
    refine ⟨co, ?_, .refl co⟩
    rw [← hco]
    exact congrFun (attempt_handle ..) ca
  | hangup =>
    intro ca co hco
    exact ⟨co, by rw [attempt_handle, hco], .refl co⟩
  | @stale ℓ uid key rest down_eq idle =>
    intro ca co hco
    refine ⟨co, ?_, .refl co⟩
    rw [← hco]
    exact congrFun (s.attempt_flag ℓ.peer uid key) ca

theorem Inv.later {allowed : Cluster n Key Value → Event n Key Value → Prop}
    (hset : ∀ c, (settings c).Ok c) (hs : Inv settings s) (h : Run settings allowed s t) :
    Later s t :=
  hs.relates hset Later.refl Later.trans (fun _ _ _ hs _ hc => hs.later_of_change hc) h

end Cluster
end LeaderlessDatastore
