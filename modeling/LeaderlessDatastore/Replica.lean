import LeaderlessDatastore.Coordinator

/-!
# `Replica`

One server process: its datastore, its two registries, the coordinators of its
clients and the threads that serve the connections of other replicas.  A step is
one critical section of a mutex, one message sent or one message received,
together with the local computation up to the next such point; `none` means that
the thread is not at that point or is blocked there.
-/

namespace LeaderlessDatastore

open Function

structure Participant (Key Value : Type) where
  uid : ℤ
  key : Key
  value : Value
  timestamp : ℤ := 0
  abort : Bool := false

/-- Where the thread that serves one accepted connection stands. -/
inductive Handler (Key Value : Type) where
  /-- in `receive`, called from `startReceiving` -/
  | idle
  /-- `Prepare::manage`, before `addParticipant` -/
  | registering (p : Participant Key Value)
  /-- not registered, before the `VOTE_ABORT` is sent -/
  | refusing (p : Participant Key Value)
  /-- registered, before `prepare` of the datastore -/
  | preparing (p : Participant Key Value)
  /-- `prepare` returned false, before the `VOTE_ABORT` is sent -/
  | declining (p : Participant Key Value)
  /-- locked, before the `VOTE_COMMIT` is sent -/
  | voting (p : Participant Key Value)
  /-- in the `receive` of `prepare2PC`, waiting for the decision -/
  | deciding (p : Participant Key Value)
  /-- after that `receive`, before the test of `abort` -/
  | decided (p : Participant Key Value)
  /-- before `removeParticipant` -/
  | leaving (p : Participant Key Value)
  /-- ended by the exception of the `receive` in `prepare2PC` -/
  | leaked (p : Participant Key Value)
  /-- `Fetch::manage`, before `get` of the datastore -/
  | fetching (key : Key)
  /-- before the `FETCHED_VALUE` is sent -/
  | replying (key : Key) (result : Value × ℤ)
  | closed

namespace Handler

variable {Key Value : Type}

/-- The participant this thread has in the registry. -/
def registered : Handler Key Value → Option (Participant Key Value)
  | .preparing p | .declining p | .voting p | .deciding p | .decided p | .leaving p
  | .leaked p => some p
  | _ => none

/-- The participant for which this thread holds the lock of its key. -/
def locking : Handler Key Value → Option (Participant Key Value)
  | .voting p | .deciding p | .decided p | .leaked p => some p
  | _ => none

/-- A change made to the participant object through the registry. -/
def mapParticipant (f : Participant Key Value → Participant Key Value) :
    Handler Key Value → Handler Key Value
  | .idle => .idle
  | .registering p => .registering (f p)
  | .refusing p => .refusing (f p)
  | .preparing p => .preparing (f p)
  | .declining p => .declining (f p)
  | .voting p => .voting (f p)
  | .deciding p => .deciding (f p)
  | .decided p => .decided (f p)
  | .leaving p => .leaving (f p)
  | .leaked p => .leaked (f p)
  | .fetching key => .fetching key
  | .replying key result => .replying key result
  | .closed => .closed

end Handler

/-- A coordinator is named by the number of its attempt, an accepted connection by the
replica it comes from and the number of the attempt there. -/
structure Replica (Peer Key Value : Type) where
  datastore : DatastoreManager Key Value
  coordinators : Key → Option ℕ
  participants : Key → Option (Peer × ℕ)
  replicaTS : ℤ
  attempt : ℕ → Option (Coordinator Peer Key Value)
  handler : Peer × ℕ → Handler Key Value

namespace Replica

variable {Peer Key Value : Type}

def setAttempt (r : Replica Peer Key Value) (a : ℕ) (co : Coordinator Peer Key Value) :
    Replica Peer Key Value := { r with attempt := update r.attempt a (some co) }

/-- The coordinator `a`, if its thread is at `pc`. -/
def attemptAt (r : Replica Peer Key Value) (a : ℕ) (pc : Pc) :
    Option (Coordinator Peer Key Value) := (r.attempt a).filter fun co => co.pc = pc

section Handlers

variable [DecidableEq Peer]

def setHandler (r : Replica Peer Key Value) (conn : Peer × ℕ) (h : Handler Key Value) :
    Replica Peer Key Value := { r with handler := update r.handler conn h }

end Handlers

variable [DecidableEq Key]

/-- The test of `addCoordinator` and `addParticipant`. -/
def free (r : Replica Peer Key Value) (key : Key) : Bool :=
  (r.coordinators key).isNone && (r.participants key).isNone

/-! ## Coordinators -/

/-- A request arrives: the coordinator is made, with `uid` as its transaction id, and the
counter of `getNewReplicaTS` advances. -/
def request (settings : Settings Peer) (r : Replica Peer Key Value) (a : ℕ)
    (op : Operation Value) (key : Key) (uid : ℤ) : Option (Replica Peer Key Value) :=
  if (r.attempt a).isSome then none
  else some { r.setAttempt a { op := op, key := key, uid := uid } with
    replicaTS := r.replicaTS + settings.replicasAmount }

/-- `Put::manage` and `Get::manage` try again after a failed attempt. -/
def retry (r : Replica Peer Key Value) (a b : ℕ) : Option (Replica Peer Key Value) := do
  let co ← r.attemptAt a .backoff
  if (r.attempt b).isSome then none
  else some ((r.setAttempt a { co with pc := .superseded }).setAttempt b co.nextAttempt)

def addCoordinator (r : Replica Peer Key Value) (a : ℕ) : Option (Replica Peer Key Value) := do
  let co ← r.attemptAt a .register
  if r.free co.key then
    some { r.setAttempt a { co with pc := .begin } with
      coordinators := update r.coordinators co.key (some a) }
  else none

/-- `put` up to its `prepare`, `get` up to its local `get`; the latter sleeps while the key
is locked. -/
def begin [Inhabited Value] (r : Replica Peer Key Value) (a : ℕ) :
    Option (Replica Peer Key Value) := do
  let co ← r.attemptAt a .begin
  match co.op with
  | .put _ =>
    match r.datastore.prepare co.key co.uid with
    | none => some (r.setAttempt a { co with abort := false, pc := .finish false })
    | some (datastore, version) =>
      some { r.setAttempt a { co with
          abort := false, version := version, replies := 1, pc := .connect } with
        datastore := datastore }
  | .get =>
    match r.datastore.get co.key default with
    -- asleep until the key is free
    | none => none
    | some result =>
      some (r.setAttempt a { co with
        values := if result.2 ≠ 0 then co.values ++ [result] else co.values
        replies := 1
        pc := .connect })

/-- `connectToQuorum`, with any shuffle of the addresses and any set of reachable replicas. -/
def connect [DecidableEq Peer] (settings : Settings Peer) (r : Replica Peer Key Value) (a : ℕ)
    (connectTo : Peer → Bool) (shuffled : List Peer) : Option (Replica Peer Key Value) := do
  let co ← r.attemptAt a .connect
  if shuffled.Perm settings.replicaAddresses then
    let quorum := Coordinator.connectToQuorum connectTo shuffled (co.quorumSize settings) true
    -- also where no connection was wanted
    if quorum.isEmpty then
      some (r.setAttempt a { co with
        pc := match co.op with
          | .put _ => .release
          | .get => .finish false })
    else
      some (r.setAttempt a { co with
        quorum := quorum, sender := fun _ => .unsent, pc := .exchange })
  else none

/-- A thread of `sendToReplicas` sends to `x`. -/
def send [DecidableEq Peer] (r : Replica Peer Key Value) (a : ℕ) (x : Peer) :
    Option (Replica Peer Key Value × Message Key Value) := do
  let co ← r.attempt a
  if x ∈ co.quorum ∧ co.sender x = .unsent then
    let m ← co.message (Coordinator.getLatestValue co.values)
    let next := if co.pc = .exchange then Sender.waiting else .finished
    some (r.setAttempt a { co with sender := update co.sender x next }, m)
  else none

/-- A change made to the coordinator that the registry holds for `key`; `none` is the
exception of `getCoordinator`. -/
def modifyCoordinator (r : Replica Peer Key Value) (key : Key)
    (f : Coordinator Peer Key Value → Coordinator Peer Key Value) :
    Option (Replica Peer Key Value) := do
  let a ← r.coordinators key
  let co ← r.attempt a
  some (r.setAttempt a (f co))

/-- `manage` of the messages that answer a `PREPARE` or a `FETCH`. -/
def manageReply (r : Replica Peer Key Value) :
    Message Key Value → Option (Replica Peer Key Value)
  | .voteCommit _ key timestamp => r.modifyCoordinator key fun co =>
    { co with version := if timestamp > co.version then timestamp else co.version }
  | .voteAbort _ key => r.modifyCoordinator key fun co => { co with abort := true }
  | .fetchedValue key (some entry) => r.modifyCoordinator key fun co =>
    { co with values := co.values ++ [entry] }
  | .fetchedValue _ none => some r
  | _ => none

/-- The same thread receives the reply `m`; a reply that throws is not counted. -/
def receive [DecidableEq Peer] (r : Replica Peer Key Value) (a : ℕ) (x : Peer)
    (m : Message Key Value) : Option (Replica Peer Key Value) := do
  let co ← r.attemptAt a .exchange
  if x ∈ co.quorum ∧ co.sender x = .waiting then
    match r.manageReply m with
    | some r => (r.attempt a).map fun co => r.setAttempt a { co with
        replies := co.replies + 1, sender := update co.sender x .finished }
    | none => some (r.setAttempt a { co with sender := update co.sender x .finished })
  else none

/-- After the exchange: `put` commits locally or goes on to abort, `get` answers its client. -/
def decide (settings : Settings Peer) (r : Replica Peer Key Value) (a : ℕ) :
    Option (Replica Peer Key Value) := do
  let co ← r.attemptAt a .exchange
  if co.joined then
    match co.op with
    | .put value =>
      -- both failures send the same message and throw
      if co.replies ≠ settings.writeQuorum ∨ co.abort then
        some (r.setAttempt a { co with sender := fun _ => .unsent, pc := .aborting })
      else
        let version := co.version + 1
        some { r.setAttempt a { co with
            version := version, sender := fun _ => .unsent, pc := .committing } with
          datastore := r.datastore.commit co.key value version }
    | .get =>
      if co.replies ≠ settings.readQuorum then
        some (r.setAttempt a { co with closed := true, pc := .finish false })
      else
        match Coordinator.getLatestValue co.values with
        | none => some (r.setAttempt a { co with
            answer := some none, closed := true, pc := .finish true })
        -- the one way out of `get` without `closeConnections`
        | some latest => some (r.setAttempt a { co with
            answer := some (some latest), pc := .repair })
  else none

/-- All `GLOBAL_ABORT`s are sent and the connections are closed. -/
def closeAborted (r : Replica Peer Key Value) (a : ℕ) : Option (Replica Peer Key Value) := do
  let co ← r.attemptAt a .aborting
  if co.joined then some (r.setAttempt a { co with closed := true, pc := .release }) else none

/-- `put` ends with an exception, of `abort` if the key is not locked and its own otherwise. -/
def release (r : Replica Peer Key Value) (a : ℕ) : Option (Replica Peer Key Value) := do
  let co ← r.attemptAt a .release
  let r' := r.setAttempt a { co with pc := .finish false }
  match r.datastore.abort co.key co.uid with
  | some datastore => some { r' with datastore := datastore }
  | none => some r'

/-- All `GLOBAL_COMMIT`s are sent; the client gets its `ACK`, the connections are closed. -/
def acknowledge (r : Replica Peer Key Value) (a : ℕ) : Option (Replica Peer Key Value) := do
  let co ← r.attemptAt a .committing
  if co.joined then some (r.setAttempt a { co with closed := true, pc := .finish true }) else none

/-- The `tryUpdate` of `Coordinator::get`. -/
def repair (r : Replica Peer Key Value) (a : ℕ) : Option (Replica Peer Key Value) := do
  let co ← r.attemptAt a .repair
  let latest ← Coordinator.getLatestValue co.values
  some { r.setAttempt a { co with sender := fun _ => .unsent, pc := .repairing } with
    datastore := r.datastore.tryUpdate co.key latest.1 latest.2 }

/-- All `REPAIR`s are sent and `get` returns. -/
def endRepair (r : Replica Peer Key Value) (a : ℕ) : Option (Replica Peer Key Value) := do
  let co ← r.attemptAt a .repairing
  if co.joined then some (r.setAttempt a { co with pc := .finish true }) else none

def removeCoordinator (r : Replica Peer Key Value) (a : ℕ) :
    Option (Replica Peer Key Value) := do
  let co ← r.attempt a
  match co.pc with
  | .finish returned =>
    some { r.setAttempt a { co with pc := if returned then .succeeded else .backoff } with
      coordinators := update r.coordinators co.key none }
  | _ => none

/-- The steps of a coordinator that involve no other replica. -/
inductive Action (Peer Key Value : Type) where
  | request (a : ℕ) (op : Operation Value) (key : Key) (uid : ℤ)
  | retry (a b : ℕ)
  | addCoordinator (a : ℕ)
  | begin (a : ℕ)
  | connect (a : ℕ) (connectTo : Peer → Bool) (shuffled : List Peer)
  | decide (a : ℕ)
  | closeAborted (a : ℕ)
  | release (a : ℕ)
  | acknowledge (a : ℕ)
  | repair (a : ℕ)
  | endRepair (a : ℕ)
  | removeCoordinator (a : ℕ)

def run [DecidableEq Peer] [Inhabited Value] (settings : Settings Peer)
    (r : Replica Peer Key Value) : Action Peer Key Value → Option (Replica Peer Key Value)
  | .request a op key uid => r.request settings a op key uid
  | .retry a b => r.retry a b
  | .addCoordinator a => r.addCoordinator a
  | .begin a => r.begin a
  | .connect a connectTo shuffled => r.connect settings a connectTo shuffled
  | .decide a => r.decide settings a
  | .closeAborted a => r.closeAborted a
  | .release a => r.release a
  | .acknowledge a => r.acknowledge a
  | .repair a => r.repair a
  | .endRepair a => r.endRepair a
  | .removeCoordinator a => r.removeCoordinator a

/-! ## Connections of other replicas -/

variable [DecidableEq Peer]

/-- `GlobalAbort::manage`: the registered participant of the key is told, if the id matches. -/
def globalAbort (r : Replica Peer Key Value) (uid : ℤ) (key : Key) : Replica Peer Key Value :=
  match r.participants key with
  | some conn => r.setHandler conn ((r.handler conn).mapParticipant fun p =>
      if p.uid = uid then { p with abort := true } else p)
  | none => r

/-- `GlobalCommit::manage`; `none` is the exception of `getParticipant`. -/
def globalCommit (r : Replica Peer Key Value) (key : Key) (timestamp : ℤ) :
    Option (Replica Peer Key Value) :=
  (r.participants key).map fun conn =>
    r.setHandler conn ((r.handler conn).mapParticipant fun p => { p with timestamp := timestamp })

/-- The `receive` of `prepare2PC` returns. -/
def wake (r : Replica Peer Key Value) (conn : Peer × ℕ) : Replica Peer Key Value :=
  match r.handler conn with
  | .deciding p => r.setHandler conn (.decided p)
  | _ => r

/-- `Connection::receive` on an accepted connection. -/
def deliver (r : Replica Peer Key Value) (conn : Peer × ℕ) (m : Message Key Value) :
    Option (Replica Peer Key Value) :=
  match r.handler conn, m with
  | .idle, .prepare uid key value =>
    some (r.setHandler conn (.registering { uid := uid, key := key, value := value }))
  | .idle, .globalAbort uid key => some (r.globalAbort uid key)
  | .idle, .globalCommit _ key _ timestamp => r.globalCommit key timestamp
  | .idle, .fetch key => some (r.setHandler conn (.fetching key))
  | .idle, .repair key value timestamp =>
    some { r.setHandler conn .closed with
      datastore := r.datastore.tryUpdate key value timestamp }
  -- handled inside the `receive` of `prepare2PC`, which then returns
  | .deciding _, .globalAbort uid key => some ((r.globalAbort uid key).wake conn)
  | .deciding _, .globalCommit _ key _ timestamp =>
    (r.globalCommit key timestamp).map fun r => r.wake conn
  | _, _ => none

/-- The next step of `Prepare::manage`, `Participant::prepare2PC` or `Fetch::manage`, with the
message it sends. -/
def proceed [Inhabited Value] (r : Replica Peer Key Value) (conn : Peer × ℕ) :
    Option (Replica Peer Key Value × Option (Message Key Value)) :=
  match r.handler conn with
  | .registering p =>
    if r.free p.key then
      some ({ r.setHandler conn (.preparing p) with
        participants := update r.participants p.key (some conn) }, none)
    else some (r.setHandler conn (.refusing p), none)
  | .refusing p => some (r.setHandler conn .idle, some (.voteAbort p.uid p.key))
  | .preparing p =>
    match r.datastore.prepare p.key p.uid with
    | some (datastore, timestamp) =>
      some ({ r.setHandler conn (.voting { p with timestamp := timestamp }) with
        datastore := datastore }, none)
    | none => some (r.setHandler conn (.declining p), none)
  | .declining p => some (r.setHandler conn (.leaving p), some (.voteAbort p.uid p.key))
  | .voting p =>
    some (r.setHandler conn (.deciding p), some (.voteCommit p.uid p.key p.timestamp))
  | .decided p =>
    if p.abort then
      (r.datastore.abort p.key p.uid).map fun datastore =>
        ({ r.setHandler conn (.leaving p) with datastore := datastore },
          some (.ack "Aborting transaction".toList))
    else
      -- also when `receive` brought no decision at all
      some ({ r.setHandler conn (.leaving p) with
        datastore := r.datastore.commit p.key p.value p.timestamp },
        some (.ack "Commit successful".toList))
  | .leaving p =>
    some ({ r.setHandler conn .idle with
      participants := update r.participants p.key none }, none)
  | .fetching key =>
    (r.datastore.get key default).map fun result =>
      (r.setHandler conn (.replying key result), none)
  | .replying key result =>
    some (r.setHandler conn .idle,
      some (.fetchedValue key (if result.2 ≠ 0 then some result else none)))
  | _ => none

/-- `recv` reports that the other side has closed the connection. -/
def hangup (r : Replica Peer Key Value) (conn : Peer × ℕ) : Option (Replica Peer Key Value) :=
  match r.handler conn with
  | .idle => some (r.setHandler conn .closed)
  -- neither `abort` nor `removeParticipant` is called
  | .deciding p => some (r.setHandler conn (.leaked p))
  | _ => none

/-- A replica that has just synchronised. -/
def started (contents : Key → Option (Value × ℤ)) (replicaId : ℤ) : Replica Peer Key Value where
  datastore := .loaded contents
  coordinators := fun _ => none
  participants := fun _ => none
  replicaTS := replicaId
  attempt := fun _ => none
  handler := fun _ => .idle

end Replica
end LeaderlessDatastore
