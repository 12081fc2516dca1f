import LeaderlessDatastore.Cluster

/-!
# The steps of the threads

What one step of a coordinator, or of the thread that serves a connection, can do:
relations with one constructor for each outcome.  The functions of `Replica` are
inverted here once; the invariants of the protocol are proved from the relations.
-/

namespace LeaderlessDatastore

open Function

/-- After `send` to `x`, in an exchange or at the end. -/
def Coordinator.sentTo {Peer Key Value : Type} [DecidableEq Peer]
    (co : Coordinator Peer Key Value) (x : Peer) : Coordinator Peer Key Value :=
  { co with
    sender := update co.sender x (if co.pc = .exchange then .waiting else .finished) }

/-- What an answer does to the coordinator of its key. -/
def Coordinator.hear {Peer Key Value : Type} (co : Coordinator Peer Key Value) :
    Message Key Value → Coordinator Peer Key Value
  | .voteCommit _ _ timestamp =>
    { co with version := if timestamp > co.version then timestamp else co.version }
  | .voteAbort _ _ => { co with abort := true }
  | .fetchedValue _ (some entry) => { co with values := co.values ++ [entry] }
  | _ => co

/-- After the answer `m` of `x` has been received and counted. -/
def Coordinator.heardFrom {Peer Key Value : Type} [DecidableEq Peer]
    (co : Coordinator Peer Key Value) (x : Peer) (m : Message Key Value) :
    Coordinator Peer Key Value :=
  { co.hear m with
    replies := co.replies + 1
    sender := update co.sender x .finished }

/-- The abort flag is set if the id is the one of the participant. -/
def Handler.flag {Key Value : Type} (uid : ℤ) (h : Handler Key Value) : Handler Key Value :=
  h.mapParticipant fun p => if p.uid = uid then { p with abort := true } else p

/-- An answer to a `PREPARE` or a `FETCH` of the key. -/
def Message.Answers {Key Value : Type} (key : Key) : Message Key Value → Prop
  | .voteCommit _ k _ | .voteAbort _ k | .fetchedValue k _ => k = key
  | _ => False

namespace Replica

variable {Peer Key Value : Type}

/-- The coordinator of an attempt is now `co`. -/
def moved (r : Replica Peer Key Value) (a : ℕ) (co : Coordinator Peer Key Value)
    (coordinators : Key → Option ℕ) (datastore : DatastoreManager Key Value) :
    Replica Peer Key Value :=
  { r.setAttempt a co with coordinators := coordinators, datastore := datastore }

theorem attemptAt_eq_some {r : Replica Peer Key Value} {a : ℕ} {pc : Pc}
    {co : Coordinator Peer Key Value} :
    r.attemptAt a pc = some co ↔ r.attempt a = some co ∧ co.pc = pc := by
  simp [attemptAt, Option.filter_eq_some_iff]

variable [DecidableEq Peer]

/-- The thread of a connection is now at `h`. -/
def handled (r : Replica Peer Key Value) (conn : Peer × ℕ) (h : Handler Key Value)
    (participants : Key → Option (Peer × ℕ)) (datastore : DatastoreManager Key Value) :
    Replica Peer Key Value :=
  { r.setHandler conn h with participants := participants, datastore := datastore }

end Replica

variable {Peer Key Value : Type} [DecidableEq Key] [Inhabited Value]

/-- A step of coordinator `a`, with the registry and the datastore that it leaves. -/
inductive CoordinatorStep (settings : Settings Peer) (r : Replica Peer Key Value) (a : ℕ)
    (co : Coordinator Peer Key Value) :
    Coordinator Peer Key Value → (Key → Option ℕ) → DatastoreManager Key Value → Prop
  | enter (pc_eq : co.pc = .register) (free : r.free co.key) :
      CoordinatorStep settings r a co { co with pc := .begin }
        (update r.coordinators co.key (some a)) r.datastore
  | busy {value : Value} (pc_eq : co.pc = .begin) (op_eq : co.op = .put value)
      (locked : r.datastore.prepare co.key co.uid = none) :
      CoordinatorStep settings r a co { co with abort := false, pc := .finish false }
        r.coordinators r.datastore
  | lock {value : Value} {datastore : DatastoreManager Key Value} {version : ℤ}
      (pc_eq : co.pc = .begin) (op_eq : co.op = .put value)
      (prepared : r.datastore.prepare co.key co.uid = some (datastore, version)) :
      CoordinatorStep settings r a co
        { co with abort := false, version := version, replies := 1, pc := .connect }
        r.coordinators datastore
  | read {result : Value × ℤ} (pc_eq : co.pc = .begin) (op_eq : co.op = .get)
      (got : r.datastore.get co.key default = some result) :
      CoordinatorStep settings r a co
        { co with
          values := if result.2 ≠ 0 then co.values ++ [result] else co.values
          replies := 1
          pc := .connect }
        r.coordinators r.datastore
  | unreachablePut {value : Value} (pc_eq : co.pc = .connect) (op_eq : co.op = .put value) :
      CoordinatorStep settings r a co { co with pc := .release } r.coordinators r.datastore
  | unreachableGet (pc_eq : co.pc = .connect) (op_eq : co.op = .get) :
      CoordinatorStep settings r a co { co with pc := .finish false } r.coordinators r.datastore
  | connected {connectTo : Peer → Bool} {shuffled : List Peer} (pc_eq : co.pc = .connect)
      (perm : shuffled.Perm settings.replicaAddresses) :
      CoordinatorStep settings r a co
        { co with
          quorum := Coordinator.connectToQuorum connectTo shuffled (co.quorumSize settings) true
          sender := fun _ => .unsent
          pc := .exchange }
        r.coordinators r.datastore
  | giveUp {value : Value} (pc_eq : co.pc = .exchange) (joined : co.joined)
      (op_eq : co.op = .put value) (failed : co.replies ≠ settings.writeQuorum ∨ co.abort) :
      CoordinatorStep settings r a co { co with sender := fun _ => .unsent, pc := .aborting }
        r.coordinators r.datastore
  | commit {value : Value} (pc_eq : co.pc = .exchange) (joined : co.joined)
      (op_eq : co.op = .put value) (counted : co.replies = settings.writeQuorum)
      (unanimous : co.abort = false) :
      CoordinatorStep settings r a co
        { co with version := co.version + 1, sender := fun _ => .unsent, pc := .committing }
        r.coordinators (r.datastore.commit co.key value (co.version + 1))
  | unanswered (pc_eq : co.pc = .exchange) (joined : co.joined) (op_eq : co.op = .get) :
      CoordinatorStep settings r a co { co with closed := true, pc := .finish false }
        r.coordinators r.datastore
  | answerNull (pc_eq : co.pc = .exchange) (joined : co.joined) (op_eq : co.op = .get)
      (counted : co.replies = settings.readQuorum)
      (latest : Coordinator.getLatestValue co.values = none) :
      CoordinatorStep settings r a co
        { co with answer := some none, closed := true, pc := .finish true }
        r.coordinators r.datastore
  | answer {entry : Value × ℤ} (pc_eq : co.pc = .exchange) (joined : co.joined)
      (op_eq : co.op = .get) (counted : co.replies = settings.readQuorum)
      (latest : Coordinator.getLatestValue co.values = some entry) :
      CoordinatorStep settings r a co { co with answer := some (some entry), pc := .repair }
        r.coordinators r.datastore
  | closeAborted (pc_eq : co.pc = .aborting) (joined : co.joined) :
      CoordinatorStep settings r a co { co with closed := true, pc := .release }
        r.coordinators r.datastore
  | release {datastore : DatastoreManager Key Value} (pc_eq : co.pc = .release)
      (aborted : r.datastore.abort co.key co.uid = some datastore) :
      CoordinatorStep settings r a co { co with pc := .finish false } r.coordinators datastore
  | releaseThrows (pc_eq : co.pc = .release)
      (thrown : r.datastore.abort co.key co.uid = none) :
      CoordinatorStep settings r a co { co with pc := .finish false } r.coordinators r.datastore
  | acknowledge (pc_eq : co.pc = .committing) (joined : co.joined) :
      CoordinatorStep settings r a co { co with closed := true, pc := .finish true }
        r.coordinators r.datastore
  | repair {entry : Value × ℤ} (pc_eq : co.pc = .repair)
      (latest : Coordinator.getLatestValue co.values = some entry) :
      CoordinatorStep settings r a co { co with sender := fun _ => .unsent, pc := .repairing }
        r.coordinators (r.datastore.tryUpdate co.key entry.1 entry.2)
  | endRepair (pc_eq : co.pc = .repairing) (joined : co.joined) :
      CoordinatorStep settings r a co { co with pc := .finish true } r.coordinators r.datastore
  | leave (pc_eq : co.pc = .finish true) :
      CoordinatorStep settings r a co { co with pc := .succeeded }
        (update r.coordinators co.key none) r.datastore
  | leaveFailed (pc_eq : co.pc = .finish false) :
      CoordinatorStep settings r a co { co with pc := .backoff }
        (update r.coordinators co.key none) r.datastore
  | supersede (pc_eq : co.pc = .backoff) :
      CoordinatorStep settings r a co { co with pc := .superseded } r.coordinators r.datastore

namespace Replica

/-- The attempt that an action is a step of. -/
def Action.of : Action Peer Key Value → ℕ
  | .request a .. | .retry a _ | .addCoordinator a | .begin a | .connect a .. | .decide a
  | .closeAborted a | .release a | .acknowledge a | .repair a | .endRepair a
  | .removeCoordinator a => a

variable {settings : Settings Peer} {r r' : Replica Peer Key Value} {a : ℕ}
  {co : Coordinator Peer Key Value}

/-- The action moves the record of attempt `a`. -/
def Moves (settings : Settings Peer) (r : Replica Peer Key Value) (a : ℕ)
    (r' : Replica Peer Key Value) : Prop :=
  ∃ co co' coordinators datastore, r.attempt a = some co ∧
    CoordinatorStep settings r a co co' coordinators datastore ∧
      r' = r.moved a co' coordinators datastore

theorem Moves.intro {co' : Coordinator Peer Key Value} {coordinators : Key → Option ℕ}
    {datastore : DatastoreManager Key Value} (hco : r.attempt a = some co)
    (h : CoordinatorStep settings r a co co' coordinators datastore) :
    Moves settings r a (r.moved a co' coordinators datastore) :=
  ⟨co, co', coordinators, datastore, hco, h, rfl⟩

theorem addCoordinator_moves (h : r.addCoordinator a = some r') : Moves settings r a r' := by
  obtain ⟨co, hco, h⟩ := Option.bind_eq_some_iff.mp h
  obtain ⟨hco, hpc⟩ := attemptAt_eq_some.mp hco
  split_ifs at h with hfree
  cases h
  exact .intro hco (.enter hpc hfree)

theorem begin_moves (h : r.begin a = some r') : Moves settings r a r' := by
  obtain ⟨co, hco, h⟩ := Option.bind_eq_some_iff.mp h
  obtain ⟨hco, hpc⟩ := attemptAt_eq_some.mp hco
  split at h
  · next value hop =>
    split at h
    · next hp =>
      cases h
      exact .intro hco (.busy hpc hop hp)
    · next datastore version hp =>
      cases h
      exact ⟨_, _, _, _, hco, .lock hpc hop hp, rfl⟩
  · next hop =>
    split at h
    · cases h
    · next result hg =>
      cases h
      exact .intro hco (.read hpc hop hg)

theorem connect_moves [DecidableEq Peer] {connectTo : Peer → Bool} {shuffled : List Peer}
    (h : r.connect settings a connectTo shuffled = some r') : Moves settings r a r' := by
  obtain ⟨co, hco, h⟩ := Option.bind_eq_some_iff.mp h
  obtain ⟨hco, hpc⟩ := attemptAt_eq_some.mp hco
  dsimp only at h
  split_ifs at h with hperm
  · cases h
    cases hop : co.op with
    | put value => exact ⟨_, _, _, _, hco, .unreachablePut hpc hop, by rw [hop]; rfl⟩
    | get => exact ⟨_, _, _, _, hco, .unreachableGet hpc hop, by rw [hop]; rfl⟩
  · cases h
    exact .intro hco (.connected hpc hperm)

theorem decide_moves (h : r.decide settings a = some r') : Moves settings r a r' := by
  obtain ⟨co, hco, h⟩ := Option.bind_eq_some_iff.mp h
  obtain ⟨hco, hpc⟩ := attemptAt_eq_some.mp hco
  dsimp only at h
  split at h
  case isFalse => cases h
  next hjoined =>
  split at h
  · next value hop =>
    split at h
    · next hfailed =>
      cases h
      exact .intro hco (.giveUp hpc hjoined hop hfailed)
    · next hfailed =>
      cases h
      push Not at hfailed
      exact ⟨_, _, _, _, hco, .commit hpc hjoined hop hfailed.1 (by simpa using hfailed.2), rfl⟩
  · next hop =>
    split at h
    · cases h
      exact .intro hco (.unanswered hpc hjoined hop)
    · next hcounted =>
      push Not at hcounted
      split at h
      · next hl =>
        cases h
        exact .intro hco (.answerNull hpc hjoined hop hcounted hl)
      · next latest hl =>
        cases h
        exact .intro hco (.answer hpc hjoined hop hcounted hl)

theorem closeAborted_moves (h : r.closeAborted a = some r') : Moves settings r a r' := by
  obtain ⟨co, hco, h⟩ := Option.bind_eq_some_iff.mp h
  obtain ⟨hco, hpc⟩ := attemptAt_eq_some.mp hco
  split_ifs at h with hjoined
  cases h
  exact .intro hco (.closeAborted hpc hjoined)

theorem release_moves (h : r.release a = some r') : Moves settings r a r' := by
  obtain ⟨co, hco, h⟩ := Option.bind_eq_some_iff.mp h
  obtain ⟨hco, hpc⟩ := attemptAt_eq_some.mp hco
  cases ha : r.datastore.abort co.key co.uid with
  | none =>
    simp only [ha, Option.some.injEq] at h
    exact h ▸ .intro hco (.releaseThrows hpc ha)
  | some datastore =>
    simp only [ha, Option.some.injEq] at h
    exact h ▸ .intro hco (.release hpc ha)

theorem acknowledge_moves (h : r.acknowledge a = some r') : Moves settings r a r' := by
  obtain ⟨co, hco, h⟩ := Option.bind_eq_some_iff.mp h
  obtain ⟨hco, hpc⟩ := attemptAt_eq_some.mp hco
  split_ifs at h with hjoined
  cases h
  exact .intro hco (.acknowledge hpc hjoined)

theorem repair_moves (h : r.repair a = some r') : Moves settings r a r' := by
  obtain ⟨co, hco, h⟩ := Option.bind_eq_some_iff.mp h
  obtain ⟨hco, hpc⟩ := attemptAt_eq_some.mp hco
  obtain ⟨latest, hlatest, h⟩ := Option.bind_eq_some_iff.mp h
  cases h
  exact .intro hco (.repair hpc hlatest)

theorem endRepair_moves (h : r.endRepair a = some r') : Moves settings r a r' := by
  obtain ⟨co, hco, h⟩ := Option.bind_eq_some_iff.mp h
  obtain ⟨hco, hpc⟩ := attemptAt_eq_some.mp hco
  split_ifs at h with hjoined
  cases h
  exact .intro hco (.endRepair hpc hjoined)

theorem removeCoordinator_moves (h : r.removeCoordinator a = some r') :
    Moves settings r a r' := by
  obtain ⟨co, hco, h⟩ := Option.bind_eq_some_iff.mp h
  cases hpc : co.pc with
  | finish returned =>
    simp only [hpc, Option.some.injEq] at h
    cases returned with
    | true => exact h ▸ .intro hco (.leave hpc)
    | false => exact h ▸ .intro hco (.leaveFailed hpc)
  | _ => simp [hpc] at h

end Replica

/-! ## The threads of the connections -/

variable [DecidableEq Peer]

/-- A step of the thread of a connection that receives nothing, with what it sends. -/
inductive HandlerStep (r : Replica Peer Key Value) (conn : Peer × ℕ) :
    Handler Key Value → Handler Key Value → Option (Message Key Value) →
      (Key → Option (Peer × ℕ)) → DatastoreManager Key Value → Prop
  | enter {p : Participant Key Value} (free : r.free p.key) :
      HandlerStep r conn (.registering p) (.preparing p) none
        (update r.participants p.key (some conn)) r.datastore
  | turnAway {p : Participant Key Value} :
      HandlerStep r conn (.registering p) (.refusing p) none r.participants r.datastore
  | refuse {p : Participant Key Value} :
      HandlerStep r conn (.refusing p) .idle (some (.voteAbort p.uid p.key))
        r.participants r.datastore
  | lock {p : Participant Key Value} {datastore : DatastoreManager Key Value} {timestamp : ℤ}
      (prepared : r.datastore.prepare p.key p.uid = some (datastore, timestamp)) :
      HandlerStep r conn (.preparing p) (.voting { p with timestamp := timestamp }) none
        r.participants datastore
  | busy {p : Participant Key Value} (locked : r.datastore.prepare p.key p.uid = none) :
      HandlerStep r conn (.preparing p) (.declining p) none r.participants r.datastore
  | decline {p : Participant Key Value} :
      HandlerStep r conn (.declining p) (.leaving p) (some (.voteAbort p.uid p.key))
        r.participants r.datastore
  | vote {p : Participant Key Value} :
      HandlerStep r conn (.voting p) (.deciding p) (some (.voteCommit p.uid p.key p.timestamp))
        r.participants r.datastore
  | abort {p : Participant Key Value} {datastore : DatastoreManager Key Value}
      (flagged : p.abort = true) (aborted : r.datastore.abort p.key p.uid = some datastore) :
      HandlerStep r conn (.decided p) (.leaving p) (some (.ack "Aborting transaction".toList))
        r.participants datastore
  | commit {p : Participant Key Value} (unflagged : p.abort = false) :
      HandlerStep r conn (.decided p) (.leaving p) (some (.ack "Commit successful".toList))
        r.participants (r.datastore.commit p.key p.value p.timestamp)
  | leave {p : Participant Key Value} :
      HandlerStep r conn (.leaving p) .idle none (update r.participants p.key none) r.datastore
  | read {key : Key} {result : Value × ℤ} (got : r.datastore.get key default = some result) :
      HandlerStep r conn (.fetching key) (.replying key result) none r.participants r.datastore
  | reply {key : Key} {result : Value × ℤ} :
      HandlerStep r conn (.replying key result) .idle
        (some (.fetchedValue key (if result.2 ≠ 0 then some result else none)))
        r.participants r.datastore

/-- A message is received by the thread that it is meant for. -/
inductive DeliverStep (r : Replica Peer Key Value) (conn : Peer × ℕ) :
    Handler Key Value → Message Key Value → Handler Key Value →
      DatastoreManager Key Value → Prop
  | prepare {uid : ℤ} {key : Key} {value : Value} :
      DeliverStep r conn .idle (.prepare uid key value)
        (.registering { uid := uid, key := key, value := value }) r.datastore
  | fetch {key : Key} : DeliverStep r conn .idle (.fetch key) (.fetching key) r.datastore
  | repair {key : Key} {value : Value} {timestamp : ℤ} :
      DeliverStep r conn .idle (.repair key value timestamp) .closed
        (r.datastore.tryUpdate key value timestamp)
  | abort {p : Participant Key Value} {uid : ℤ} {key : Key} :
      DeliverStep r conn (.deciding p) (.globalAbort uid key)
        (.decided { p with abort := true }) r.datastore
  | commit {p : Participant Key Value} {uid : ℤ} {key : Key} {value : Value} {timestamp : ℤ} :
      DeliverStep r conn (.deciding p) (.globalCommit uid key value timestamp)
        (.decided { p with timestamp := timestamp }) r.datastore

namespace Replica

variable {settings : Settings Peer} {r r' : Replica Peer Key Value} {a : ℕ} {x : Peer}
  {conn : Peer × ℕ} {m : Message Key Value}

/-- An action makes an attempt, moves one, or replaces a failed one by the next. -/
theorem run_cases {action : Action Peer Key Value} (h : r.run settings action = some r') :
    Moves settings r action.of r' ∨
    (∃ a op key uid, action = .request a op key uid ∧ r.attempt a = none ∧
      r' = { r.setAttempt a { op := op, key := key, uid := uid } with
        replicaTS := r.replicaTS + settings.replicasAmount }) ∨
    ∃ a b co, action = .retry a b ∧ r.attempt a = some co ∧ co.pc = .backoff ∧
      r.attempt b = none ∧
      r' = (r.moved a { co with pc := .superseded } r.coordinators r.datastore).setAttempt b
        co.nextAttempt := by
  cases action with
  | request a op key uid =>
    right; left
    simp only [run, request] at h
    split_ifs at h with hnone
    cases h
    exact ⟨a, op, key, uid, rfl, by simpa using hnone, rfl⟩
  | retry a b =>
    right; right
    obtain ⟨co, hco, h⟩ := Option.bind_eq_some_iff.mp h
    obtain ⟨hco, hpc⟩ := attemptAt_eq_some.mp hco
    split_ifs at h with hnone
    cases h
    exact ⟨a, b, co, rfl, hco, hpc, by simpa using hnone, rfl⟩
  | addCoordinator a => exact .inl (addCoordinator_moves h)
  | begin a => exact .inl (begin_moves h)
  | connect a connectTo shuffled => exact .inl (connect_moves h)
  | decide a => exact .inl (decide_moves h)
  | closeAborted a => exact .inl (closeAborted_moves h)
  | release a => exact .inl (release_moves h)
  | acknowledge a => exact .inl (acknowledge_moves h)
  | repair a => exact .inl (repair_moves h)
  | endRepair a => exact .inl (endRepair_moves h)
  | removeCoordinator a => exact .inl (removeCoordinator_moves h)

omit [DecidableEq Key] [Inhabited Value] in
theorem send_eq_some (h : r.send a x = some (r', m)) :
    ∃ co, r.attempt a = some co ∧ x ∈ co.quorum ∧ co.sender x = .unsent ∧
      co.message (Coordinator.getLatestValue co.values) = some m ∧
      r' = r.moved a (co.sentTo x) r.coordinators r.datastore := by
  obtain ⟨co, hco, h⟩ := Option.bind_eq_some_iff.mp h
  split at h
  case isFalse => cases h
  next hx =>
  obtain ⟨m', hm, h⟩ := Option.bind_eq_some_iff.mp h
  cases h
  exact ⟨co, hco, hx.1, hx.2, hm, rfl⟩

omit [DecidableEq Key] [Inhabited Value] in
/-- A coordinator that is registered for the key of an answer counts the answer. -/
theorem receive_eq_some {co : Coordinator Peer Key Value} (h : r.receive a x m = some r')
    (hco : r.attempt a = some co) (hreg : r.coordinators co.key = some a) (hm : m.Answers co.key) :
    co.pc = .exchange ∧ x ∈ co.quorum ∧ co.sender x = .waiting ∧
      r' = r.moved a (co.heardFrom x m) r.coordinators r.datastore := by
  obtain ⟨co', hco', h⟩ := Option.bind_eq_some_iff.mp h
  obtain ⟨hco', hpc⟩ := attemptAt_eq_some.mp hco'
  obtain rfl : co' = co := Option.some.inj (hco'.symm.trans hco)
  split_ifs at h with hx
  refine ⟨hpc, hx.1, hx.2, ?_⟩
  have hmod : ∀ f, r.modifyCoordinator co'.key f = some (r.setAttempt a (f co')) := by
    intro f
    simp [modifyCoordinator, hreg, hco]
  have hset : ∀ co₁ co₂, (r.setAttempt a co₁).setAttempt a co₂ = r.setAttempt a co₂ := by
    simp [setAttempt]
  have hget : ∀ co₁, (r.setAttempt a co₁).attempt a = some co₁ := by simp [setAttempt]
  cases m with
  | voteCommit uid key timestamp =>
    obtain rfl : key = co'.key := hm
    simp only [manageReply, hmod, hget, hset, Option.map_some, Option.some.injEq] at h
    exact h.symm
  | voteAbort uid key =>
    obtain rfl : key = co'.key := hm
    simp only [manageReply, hmod, hget, hset, Option.map_some, Option.some.injEq] at h
    exact h.symm
  | fetchedValue key entry =>
    obtain rfl : key = co'.key := hm
    cases entry with
    | none =>
      simp only [manageReply, hco, Option.map_some, Option.some.injEq] at h
      exact h.symm
    | some entry =>
      simp only [manageReply, hmod, hget, hset, Option.map_some, Option.some.injEq] at h
      exact h.symm
  | _ => exact hm.elim

theorem proceed_cases {sent : Option (Message Key Value)}
    (h : r.proceed conn = some (r', sent)) :
    ∃ hd hd' participants datastore, r.handler conn = hd ∧
      HandlerStep r conn hd hd' sent participants datastore ∧
        r' = r.handled conn hd' participants datastore := by
  cases hh : r.handler conn with
  | registering p =>
    simp only [proceed, hh] at h
    split_ifs at h with hfree
    · cases h
      exact ⟨_, _, _, _, rfl, .enter hfree, rfl⟩
    · cases h
      exact ⟨_, _, _, _, rfl, .turnAway, rfl⟩
  | refusing p =>
    simp only [proceed, hh] at h
    cases h
    exact ⟨_, _, _, _, rfl, .refuse, rfl⟩
  | preparing p =>
    cases hp : r.datastore.prepare p.key p.uid with
    | none =>
      simp only [proceed, hh, hp] at h
      cases h
      exact ⟨_, _, _, _, rfl, .busy hp, rfl⟩
    | some result =>
      simp only [proceed, hh, hp] at h
      cases h
      exact ⟨_, _, _, _, rfl, .lock hp, rfl⟩
  | declining p =>
    simp only [proceed, hh] at h
    cases h
    exact ⟨_, _, _, _, rfl, .decline, rfl⟩
  | voting p =>
    simp only [proceed, hh] at h
    cases h
    exact ⟨_, _, _, _, rfl, .vote, rfl⟩
  | decided p =>
    simp only [proceed, hh] at h
    split_ifs at h with hflag
    · obtain ⟨datastore, hd, h⟩ := Option.map_eq_some_iff.mp h
      cases h
      exact ⟨_, _, _, _, rfl, .abort hflag hd, rfl⟩
    · cases h
      exact ⟨_, _, _, _, rfl, .commit (by simpa using hflag), rfl⟩
  | leaving p =>
    simp only [proceed, hh] at h
    cases h
    exact ⟨_, _, _, _, rfl, .leave, rfl⟩
  | fetching key =>
    simp only [proceed, hh] at h
    obtain ⟨result, hresult, h⟩ := Option.map_eq_some_iff.mp h
    cases h
    exact ⟨_, _, _, _, rfl, .read hresult, rfl⟩
  | replying key result =>
    simp only [proceed, hh] at h
    cases h
    exact ⟨_, _, _, _, rfl, .reply, rfl⟩
  | _ => simp [proceed, hh] at h

omit [DecidableEq Key] [Inhabited Value] in
/-- `GlobalAbort::manage` touches nothing but the flag of the registered participant. -/
theorem globalAbort_handler (r : Replica Peer Key Value) (uid : ℤ) (key : Key)
    (conn : Peer × ℕ) :
    (r.globalAbort uid key).handler conn = r.handler conn ∨
      r.participants key = some conn ∧
        (r.globalAbort uid key).handler conn = (r.handler conn).flag uid := by
  unfold globalAbort
  cases hp : r.participants key with
  | none => exact .inl rfl
  | some conn' =>
    by_cases h : conn = conn'
    · subst h
      exact .inr ⟨rfl, update_self ..⟩
    · exact .inl (update_of_ne h ..)

omit [Inhabited Value] in
/-- A message is taken by the thread of its own connection, unless it is a `GLOBAL_ABORT`
that comes when the thread has nothing to abort any more.  A thread that waits for a decision
must have its participant registered, under the key and the id that the decision names. -/
theorem deliver_cases (h : r.deliver conn m = some r')
    (hown : ∀ p, r.handler conn = .deciding p → r.participants p.key = some conn ∧
      ((∃ uid key, m = .globalAbort uid key) → m = .globalAbort p.uid p.key) ∧
      (∀ uid key value timestamp, m = .globalCommit uid key value timestamp → key = p.key))
    (hidle : r.handler conn = .idle → ∀ uid key value timestamp,
      m ≠ .globalCommit uid key value timestamp) :
    (∃ hd hd' datastore, r.handler conn = hd ∧ DeliverStep r conn hd m hd' datastore ∧
      r' = r.handled conn hd' r.participants datastore) ∨
    ∃ uid key, m = .globalAbort uid key ∧ r.handler conn = .idle ∧ r' = r.globalAbort uid key := by
  cases hh : r.handler conn with
  | idle =>
    cases m with
    | prepare uid key value =>
      simp only [deliver, hh, Option.some.injEq] at h
      exact .inl ⟨_, _, _, rfl, .prepare, h.symm⟩
    | fetch key =>
      simp only [deliver, hh, Option.some.injEq] at h
      exact .inl ⟨_, _, _, rfl, .fetch, h.symm⟩
    | repair key value timestamp =>
      simp only [deliver, hh, Option.some.injEq] at h
      exact .inl ⟨_, _, _, rfl, .repair, h.symm⟩
    | globalAbort uid key =>
      simp only [deliver, hh, Option.some.injEq] at h
      exact .inr ⟨uid, key, rfl, rfl, h.symm⟩
    | globalCommit uid key value timestamp => exact absurd rfl (hidle hh uid key value timestamp)
    | _ => simp [deliver, hh] at h
  | deciding p =>
    obtain ⟨hreg, habort, hcommit⟩ := hown p hh
    cases m with
    | globalAbort uid key =>
      obtain ⟨rfl, rfl⟩ : uid = p.uid ∧ key = p.key := by simpa using habort ⟨uid, key, rfl⟩
      simp only [deliver, hh, globalAbort, hreg, Handler.mapParticipant, ↓reduceIte, setHandler,
        wake, update_self, update_idem, Option.some.injEq] at h
      exact .inl ⟨_, _, _, rfl, .abort, h.symm⟩
    | globalCommit uid key value timestamp =>
      obtain rfl : key = p.key := hcommit uid key value timestamp rfl
      simp only [deliver, hh, globalCommit, hreg, Handler.mapParticipant, setHandler, wake,
        update_self, update_idem, Option.map_some, Option.some.injEq] at h
      exact .inl ⟨_, _, _, rfl, .commit, h.symm⟩
    | _ => simp [deliver, hh] at h
  | _ => simp [deliver, hh] at h

end Replica
end LeaderlessDatastore
