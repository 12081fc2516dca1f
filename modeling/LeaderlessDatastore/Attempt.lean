import LeaderlessDatastore.Coordinator

/-!
# One call of `Coordinator::get`, `put` or `sync`

The functions of the coordinator as they are written, with the connections they obtain.
What the other replicas, the network and the other threads do is an argument.
-/

namespace LeaderlessDatastore

/-- A `ReplicaConnectionHandler::Connection` that `connectTo` has made. -/
structure Outgoing where
  name : Text
  connectionOpen : Bool := true
  sent : List (Message Text Text) := []

namespace Outgoing

def send (message : Message Text Text) (c : Outgoing) : Outgoing :=
  if c.connectionOpen then { c with sent := c.sent ++ [message] } else c

def close (c : Outgoing) : Outgoing := { c with connectionOpen := false }

@[simp] theorem send_connectionOpen (message : Message Text Text) (c : Outgoing) :
    (c.send message).connectionOpen = c.connectionOpen := by
  unfold send
  split <;> rfl

@[simp] theorem close_connectionOpen (c : Outgoing) : c.close.connectionOpen = false := rfl

end Outgoing

/-- What `connectTo` gives. -/
inductive Reached where
  | connected
  /-- `nullopt` -/
  | refused
  /-- the exception of `stoi` for an address without a port -/
  | threw
  deriving DecidableEq

/-- The end of the `receive` of a thread of `sendToReplicas`. -/
structure Received where
  /-- `receive` returns, with an exception otherwise -/
  returned : Bool := true
  /-- the message was a `REPAIR`, which closes the connection -/
  closed : Bool := false

/-- What the surroundings of one call do. -/
structure Surroundings where
  /-- the addresses after `std::shuffle` -/
  shuffled : List Text
  /-- the calls of `connectTo`, one after the other -/
  connectTo : ℕ → Reached
  /-- the threads of the `sendToReplicas` that waits for replies -/
  receive : ℕ → Received
  /-- what reaches the coordinator meanwhile, in the order of `repliesLock` -/
  answers : List (Message Text Text) := []
  /-- what other threads do to the datastore meanwhile -/
  meanwhile : DatastoreManager Text Text → DatastoreManager Text Text := id
  /-- the keys of `getStatus` in iteration order -/
  keys : List Text := []

inductive Failure where
  | runtimeError (what : String)
  /-- `owner2pc.at` in `abort` of the datastore -/
  | outOfRange
  | connectTo
  deriving DecidableEq

/-- A coordinator in a call, with the datastore of its replica. -/
structure Attempt where
  datastore : DatastoreManager Text Text
  uid : ℤ
  abort : Bool := false
  replies : ℤ := 0
  version : ℤ := 0
  values : List (Text × ℤ) := []
  /-- the connections in `quorum` -/
  quorum : List Outgoing := []
  /-- the connections that are in no vector any more -/
  dropped : List Outgoing := []
  /-- what has been sent to the client -/
  client : List (Message Text Text) := []

namespace Attempt

/-- `voteCommit`, `voteAbort` and `addValue` -/
def hear (a : Attempt) : Message Text Text → Attempt
  | .voteCommit _ _ timestamp =>
    { a with version := if timestamp > a.version then timestamp else a.version }
  | .voteAbort _ _ => { a with abort := true }
  | .fetchedValue _ (some entry) => { a with values := a.values ++ [entry] }
  | _ => a

/-- The loop of `connectToQuorum`; the error holds what it has obtained when `connectTo`
throws. -/
def connectLoop (connectTo : ℕ → Reached) (wanted : ℕ) :
    ℕ → List Outgoing → List Text → Except (List Outgoing) (List Outgoing)
  | _, connections, [] => .ok connections
  | n, connections, address :: addresses =>
    if connections.length < wanted then
      match connectTo n with
      | .connected =>
        connectLoop connectTo wanted (n + 1) (connections ++ [{ name := address }]) addresses
      | .refused => connectLoop connectTo wanted (n + 1) connections addresses
      | .threw => .error connections
    else .ok connections

/-- What the loop of `connectToQuorum(quorum, …)` obtains. -/
def obtained (env : Surroundings) (quorum : ℤ) : Except (List Outgoing) (List Outgoing) :=
  connectLoop env.connectTo (Coordinator.toSize (quorum - 1)) 0 [] env.shuffled.reverse

def connectToQuorum (env : Surroundings) (quorum : ℤ) (safe : Bool) (a : Attempt) :
    Except Failure Unit × Attempt :=
  match obtained env quorum with
  | .error connections => (.error .connectTo, { a with dropped := a.dropped ++ connections })
  | .ok connections =>
    -- too few: what there is gets closed, and an empty list is returned
    if safe ∧ connections.length ≠ Coordinator.toSize (quorum - 1) then
      (.ok (), { a with quorum := [], dropped := a.dropped ++ connections.map Outgoing.close })
    else (.ok (), { a with quorum := connections })

/-- `sendToReplicas` that waits for the replies. -/
def exchange (env : Surroundings) (message : Message Text Text) (a : Attempt) : Attempt :=
  let a := env.answers.foldl hear a
  { a with
    quorum := a.quorum.mapIdx fun n c =>
      if (env.receive n).closed then (c.send message).close else c.send message
    replies := a.replies + (List.range a.quorum.length).countP fun n => (env.receive n).returned
    datastore := env.meanwhile a.datastore }

/-- `sendToReplicas` with `waitReplies` false. -/
def sendToReplicas (message : Message Text Text) (a : Attempt) : Attempt :=
  { a with quorum := a.quorum.map (Outgoing.send message) }

def closeConnections (a : Attempt) : Attempt := { a with quorum := a.quorum.map Outgoing.close }

/-- `connection->send` to the client -/
def answer (message : Message Text Text) (a : Attempt) : Attempt :=
  { a with client := a.client ++ [message] }

/-- `get` once it is connected to a quorum. -/
def getFrom (settings : Settings Text) (env : Surroundings) (key : Text) (a : Attempt) :
    Except Failure Unit × Attempt :=
  let a := a.exchange env (.fetch key)
  if a.replies ≠ settings.readQuorum then
    (.error (.runtimeError "Some replica didn't reply"), a.closeConnections)
  else
    match Coordinator.getLatestValue a.values with
    | none => (.ok (), (a.answer (.value none)).closeConnections)
    | some (value, version) =>
      let a := a.answer (.value (some value))
      let a := { a with datastore := a.datastore.tryUpdate key value version }
      -- no `closeConnections` here
      (.ok (), a.sendToReplicas (.repair key value version))

/-- The own replica is the first to reply to `get`. -/
def read (result : Text × ℤ) (a : Attempt) : Attempt :=
  { a with values := if result.2 ≠ 0 then a.values ++ [result] else a.values, replies := 1 }

/-- `none` where the call sleeps because the key is locked. -/
def get (settings : Settings Text) (env : Surroundings) (key : Text) (a : Attempt) :
    Option (Except Failure Unit × Attempt) :=
  (a.datastore.get key ([], 0)).map fun result =>
    match (a.read result).connectToQuorum env settings.readQuorum true with
    | (.error failure, a) => (.error failure, a)
    | (.ok (), a) =>
      -- a read quorum of one wants no connection and fails here
      if a.quorum.isEmpty then (.error (.runtimeError "Couldn't connect to quorum"), a)
      else a.getFrom settings env key

/-- `abort` of the datastore, and then an exception. -/
def abortWith (key : Text) (failure : Failure) (a : Attempt) : Except Failure Unit × Attempt :=
  match a.datastore.abort key a.uid with
  | some datastore => (.error failure, { a with datastore := datastore })
  | none => (.error .outOfRange, a)

/-- `put` once it is connected to a quorum. -/
def putTo (settings : Settings Text) (env : Surroundings) (key value : Text) (a : Attempt) :
    Except Failure Unit × Attempt :=
  let a := a.exchange env (.prepare a.uid key value)
  if a.replies ≠ settings.writeQuorum then
    (a.sendToReplicas (.globalAbort a.uid key)).closeConnections.abortWith key
      (.runtimeError "Some replica didn't reply")
  else if a.abort then
    (a.sendToReplicas (.globalAbort a.uid key)).closeConnections.abortWith key
      (.runtimeError "Received vote abort")
  else
    let version := a.version + 1
    let a := { a with version := version, datastore := a.datastore.commit key value version }
    let a := a.sendToReplicas (.globalCommit a.uid key value (castInt version))
    let a := a.answer (.ack ("Value \"".toList ++ value ++
      "\" effectively inserted for key \"".toList ++ key ++ "\"".toList))
    (.ok (), a.closeConnections)

/-- The own replica is the first to vote in `put`. -/
def vote (datastore : DatastoreManager Text Text) (version : ℤ) (a : Attempt) : Attempt :=
  { a with datastore := datastore, version := version, replies := 1 }

def put (settings : Settings Text) (env : Surroundings) (key value : Text) (a : Attempt) :
    Except Failure Unit × Attempt :=
  let a := { a with abort := false }
  match a.datastore.prepare key a.uid with
  | none => (.error (.runtimeError "Couldn't obtain Datastore lock"), a)
  | some (datastore, version) =>
    match (a.vote datastore version).connectToQuorum env settings.writeQuorum true with
    | (.error failure, a) => (.error failure, a)
    | (.ok (), a) =>
      if a.quorum.isEmpty then a.abortWith key (.runtimeError "Couldn't connect to quorum")
      else a.putTo settings env key value

/-- The `SYNC` with the keys and versions of the datastore. -/
def statusOf (env : Surroundings) (a : Attempt) : Message Text Text :=
  .sync (env.keys.filterMap fun key =>
    (a.datastore.getStatus key).map fun version => (key, version))

def sync (settings : Settings Text) (env : Surroundings) (a : Attempt) :
    Except Failure Unit × Attempt :=
  match a.connectToQuorum env (castInt settings.replicaAddresses.length) false with
  | (.error failure, a) => (.error failure, a)
  | (.ok (), a) => (.ok (), (a.exchange env (a.statusOf env)).closeConnections)

/-! ## The exchange -/

/-- The entry in an answer to a `FETCH`. -/
def entryOf : Message Text Text → Option (Text × ℤ)
  | .fetchedValue _ entry => entry
  | _ => none

def isVoteAbort : Message Text Text → Bool
  | .voteAbort .. => true
  | _ => false

/-- What the answers change. -/
theorem exists_foldl_hear (answers : List (Message Text Text)) (a : Attempt) :
    ∃ version, answers.foldl hear a = { a with
      abort := a.abort || answers.any isVoteAbort
      version := version
      values := a.values ++ answers.filterMap entryOf } := by
  induction answers generalizing a with
  | nil => exact ⟨a.version, by simp⟩
  | cons m answers ih =>
    obtain ⟨version, hversion⟩ := ih (a.hear m)
    refine ⟨version, ?_⟩
    rw [List.foldl_cons, hversion]
    cases m with
    | fetchedValue key entry =>
      cases entry <;> simp [hear, entryOf, isVoteAbort, List.filterMap_cons]
    | _ => simp [hear, entryOf, isVoteAbort, List.filterMap_cons]

/-- What `sendToReplicas` does when it waits. -/
theorem exists_exchange (env : Surroundings) (message : Message Text Text) (a : Attempt) :
    ∃ version, a.exchange env message = { a with
      abort := a.abort || env.answers.any isVoteAbort
      version := version
      values := a.values ++ env.answers.filterMap entryOf
      quorum := a.quorum.mapIdx fun n c =>
        if (env.receive n).closed then (c.send message).close else c.send message
      replies := a.replies + (List.range a.quorum.length).countP fun n => (env.receive n).returned
      datastore := env.meanwhile a.datastore } := by
  obtain ⟨version, hversion⟩ := exists_foldl_hear env.answers a
  refine ⟨version, ?_⟩
  rw [exchange, hversion]

theorem abortWith_ne_ok {a a' : Attempt} {key : Text} {failure : Failure} :
    a.abortWith key failure ≠ (.ok (), a') := by
  unfold abortWith
  split <;> exact nofun

/-! ## The loop -/

variable {connectTo : ℕ → Reached} {wanted n : ℕ} {connections : List Outgoing}
  {addresses : List Text}

theorem connectLoop_connected (h : ∀ n, connectTo n = .connected)
    (hle : connections.length ≤ wanted) :
    connectLoop connectTo wanted n connections addresses = .ok (connections ++
      (addresses.take (wanted - connections.length)).map fun address => { name := address }) := by
  induction addresses generalizing n connections with
  | nil => simp [connectLoop]
  | cons address addresses ih =>
    rw [connectLoop, h]
    split_ifs with hlt
    · obtain ⟨k, hk⟩ : ∃ k, wanted - connections.length = k + 1 :=
        ⟨wanted - connections.length - 1, by omega⟩
      dsimp only
      rw [ih (by simp; omega), hk, List.take_succ_cons, List.map_cons, List.append_assoc,
        List.singleton_append, List.length_append, List.length_singleton,
        show wanted - (connections.length + 1) = k by omega]
    · simp [show wanted - connections.length = 0 by omega]

/-- The connections of a call are open, also those it had when `connectTo` threw. -/
theorem connectLoop_open (h : ∀ c ∈ connections, c.connectionOpen) {obtained : List Outgoing}
    (hloop : connectLoop connectTo wanted n connections addresses = .ok obtained ∨
      connectLoop connectTo wanted n connections addresses = .error obtained) :
    ∀ c ∈ obtained, c.connectionOpen := by
  induction addresses generalizing n connections with
  | nil =>
    rcases hloop with hloop | hloop <;> cases hloop
    exact h
  | cons address addresses ih =>
    rw [connectLoop] at hloop
    split_ifs at hloop
    · split at hloop
      · refine ih (fun c hc => ?_) hloop
        rcases List.mem_append.mp hc with hc | hc
        · exact h c hc
        · rw [List.mem_singleton.mp hc]
      · exact ih h hloop
      · rcases hloop with hloop | hloop <;> cases hloop
        exact h
    · rcases hloop with hloop | hloop <;> cases hloop
      exact h

/-- Calls that answer a list from the number `n` on answer its rest from the next number on. -/
theorem calls_cons {f : ℕ → Reached} {g : Text → Reached} {address : Text}
    (h : ∀ i (hi : i < (address :: addresses).length), f (n + i) = g (address :: addresses)[i]) :
    f n = g address ∧ ∀ i (hi : i < addresses.length), f (n + 1 + i) = g addresses[i] := by
  refine ⟨h 0 (Nat.zero_lt_succ _), fun i hi => ?_⟩
  rw [show n + 1 + i = n + (i + 1) by omega]
  exact h (i + 1) (Nat.succ_lt_succ hi)

/-- Without exceptions the loop is the one of `Coordinator.connectToQuorum`. -/
theorem connectLoop_eq_map (reachable : Text → Bool) (names : List Text)
    (hconnections : connections.map Outgoing.name = names)
    (h : ∀ i (hi : i < addresses.length), connectTo (n + i) =
      if reachable addresses[i] then .connected else .refused) :
    (connectLoop connectTo wanted n connections addresses).map (List.map Outgoing.name) =
      .ok (Coordinator.connectLoop reachable wanted names addresses) := by
  induction addresses generalizing n connections names with
  | nil =>
    rw [connectLoop, Coordinator.connectLoop, ← hconnections]
    rfl
  | cons address addresses ih =>
    obtain ⟨hfirst, hrest⟩ :=
      calls_cons (g := fun a => if reachable a then .connected else .refused) h
    rw [connectLoop, Coordinator.connectLoop, hfirst, ← hconnections, List.length_map]
    split_ifs with hlt hreachable
    · exact ih _ (by simp) hrest
    · exact ih _ rfl hrest
    · rfl

end Attempt
end LeaderlessDatastore
