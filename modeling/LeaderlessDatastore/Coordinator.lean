import LeaderlessDatastore.Message
import LeaderlessDatastore.DatastoreManager

/-!
# `Coordinator`

The object behind one client request, with the place its thread has reached.
Each attempt of `Put::manage` or `Get::manage` gets a record of its own: the
fields that an attempt resets start afresh, the others are carried over.
-/

namespace LeaderlessDatastore

/-- What a `ReplicaConnectionHandler` and its replica take from the configuration. -/
structure Settings (Peer : Type) where
  replicaAddresses : List Peer
  readQuorum : ℤ
  writeQuorum : ℤ
  replicasAmount : ℤ

inductive Operation (Value : Type) where
  | put (value : Value)
  | get

/-- Where the thread of a coordinator stands. -/
inductive Pc where
  /-- `while (!replica.addCoordinator(key, coordinator))` -/
  | register
  /-- registered, before `prepare` or the local `get` of the datastore -/
  | begin
  /-- before `connectToQuorum` -/
  | connect
  /-- in `sendToReplicas`, with replies awaited -/
  | exchange
  /-- in `sendToReplicas` with the `GLOBAL_ABORT`s -/
  | aborting
  /-- before `abort` of the datastore -/
  | release
  /-- committed locally, in `sendToReplicas` with the `GLOBAL_COMMIT`s -/
  | committing
  /-- the value has been sent to the client, before the local `tryUpdate` -/
  | repair
  /-- in `sendToReplicas` with the `REPAIR`s -/
  | repairing
  /-- `put` or `get` has returned or thrown, before `removeCoordinator` -/
  | finish (returned : Bool)
  /-- asleep after a failed attempt -/
  | backoff
  /-- failed, and the next attempt has started -/
  | superseded
  | succeeded
  deriving DecidableEq

/-- A thread of `sendToReplicas`. -/
inductive Sender where
  | unsent
  | waiting
  | finished
  deriving DecidableEq

structure Coordinator (Peer Key Value : Type) where
  op : Operation Value
  key : Key
  uid : ℤ
  pc : Pc := .register
  abort : Bool := false
  replies : ℤ := 0
  version : ℤ := 0
  values : List (Value × ℤ) := []
  quorum : List Peer := []
  sender : Peer → Sender := fun _ => .unsent
  /-- the connections have been closed by `closeConnections` -/
  closed : Bool := false
  /-- what a `get` has sent to its client, with the version it stands for -/
  answer : Option (Option (Value × ℤ)) := none

namespace Coordinator

variable {Peer Key Value : Type}

/-- Between `addCoordinator` and `removeCoordinator`. -/
def registered (co : Coordinator Peer Key Value) : Bool :=
  match co.pc with
  | .register | .backoff | .superseded | .succeeded => false
  | _ => true

/-- Between a successful `prepare` and the end of the transaction on the own datastore. -/
def locking (co : Coordinator Peer Key Value) : Bool :=
  match co.op, co.pc with
  | .put _, .connect | .put _, .exchange | .put _, .aborting | .put _, .release => true
  | _, _ => false

/-- The number of replicas an operation wants, itself included. -/
def quorumSize (settings : Settings Peer) (co : Coordinator Peer Key Value) : ℤ :=
  match co.op with
  | .put _ => settings.writeQuorum
  | .get => settings.readQuorum

/-- All threads of the running `sendToReplicas` have ended. -/
def joined (co : Coordinator Peer Key Value) : Bool :=
  co.quorum.all fun x => co.sender x = .finished

/-- The record of the next attempt of the same request. -/
def nextAttempt (co : Coordinator Peer Key Value) : Coordinator Peer Key Value :=
  { co with pc := .register, quorum := [], sender := fun _ => .unsent, closed := false }

/-- The message that the running `sendToReplicas` carries. -/
def message (co : Coordinator Peer Key Value) (latest : Option (Value × ℤ)) :
    Option (Message Key Value) :=
  match co.pc, co.op, latest with
  | .exchange, .put value, _ => some (.prepare co.uid co.key value)
  | .exchange, .get, _ => some (.fetch co.key)
  | .aborting, _, _ => some (.globalAbort co.uid co.key)
  | .committing, .put value, _ =>
    some (.globalCommit co.uid co.key value (castInt co.version))
  | .repairing, _, some (value, version) => some (.repair co.key value version)
  | _, _, _ => none

/-- The first loop of `getLatestValue`. -/
def maxVersion (values : List (Value × ℤ)) (max : ℤ) : ℤ :=
  values.foldl (fun max entry => if entry.2 > max then entry.2 else max) max

/-- `none` where `values` is empty. -/
def getLatestValue (values : List (Value × ℤ)) : Option (Value × ℤ) :=
  match values.find? (·.2 = maxVersion values 0) with
  | some entry => some entry
  | none => values.head?

/-! ## `connectToQuorum` -/

/-- `size_t(n)` -/
def toSize (n : ℤ) : ℕ := (n % 2 ^ 64).toNat

/-- The loop of `connectToQuorum`, over the addresses in the order in which they are popped. -/
def connectLoop (connectTo : Peer → Bool) (wanted : ℕ) : List Peer → List Peer → List Peer
  | connections, [] => connections
  | connections, address :: addresses =>
    if connections.length < wanted then
      connectLoop connectTo wanted
        (if connectTo address then connections ++ [address] else connections) addresses
    else connections

/-- The connections are taken from the back of the shuffled addresses. -/
def connectToQuorum (connectTo : Peer → Bool) (shuffled : List Peer) (quorum : ℤ)
    (safe : Bool) : List Peer :=
  let wanted := toSize (quorum - 1)
  let connections := connectLoop connectTo wanted [] shuffled.reverse
  if safe ∧ connections.length ≠ wanted then [] else connections

theorem toSize_le {n : ℤ} (h : 0 ≤ n) : (toSize n : ℤ) ≤ n := by
  unfold toSize
  omega

/-- The loop adds reachable addresses, each at most once, until enough are connected. -/
theorem connectLoop_eq (connectTo : Peer → Bool) (wanted : ℕ) (connections addresses : List Peer)
    (h : connections.length ≤ wanted) :
    connectLoop connectTo wanted connections addresses =
      connections ++ (addresses.filter connectTo).take (wanted - connections.length) := by
  induction addresses generalizing connections with
  | nil => simp [connectLoop]
  | cons address addresses ih =>
    rw [connectLoop]
    split_ifs with hlt hc
    · obtain ⟨k, hk⟩ : ∃ k, wanted - connections.length = k + 1 :=
        ⟨wanted - connections.length - 1, by omega⟩
      rw [ih _ (by simp; omega), List.filter_cons_of_pos hc, hk, List.take_succ_cons,
        List.append_assoc, List.singleton_append]
      simp [show wanted - (connections.length + 1) = k by omega]
    · rw [ih _ h, List.filter_cons_of_neg (by simpa using hc)]
    · simp [show wanted - connections.length = 0 by omega]

theorem connectToQuorum_sublist (connectTo : Peer → Bool) (shuffled : List Peer) (quorum : ℤ)
    (safe : Bool) : (connectToQuorum connectTo shuffled quorum safe).Sublist shuffled.reverse := by
  unfold connectToQuorum
  dsimp only
  split_ifs
  · exact List.nil_sublist _
  · rw [connectLoop_eq _ _ _ _ (by simp)]
    exact (List.take_sublist _ _).trans List.filter_sublist

theorem connectToQuorum_length_le (connectTo : Peer → Bool) (shuffled : List Peer) {quorum : ℤ}
    (safe : Bool) (h : 1 ≤ quorum) :
    ((connectToQuorum connectTo shuffled quorum safe).length : ℤ) ≤ quorum - 1 := by
  unfold connectToQuorum
  have hsize := toSize_le (n := quorum - 1) (by omega)
  dsimp only
  split_ifs
  · simpa using h
  · rw [connectLoop_eq _ _ _ _ (by simp)]
    simp only [List.nil_append, List.length_take]
    omega

/-! ## `getLatestValue` -/

/-- The loop ends at the start value or at the version of an entry, and nothing is above it. -/
theorem maxVersion_spec (values : List (Value × ℤ)) (m : ℤ) :
    m ≤ maxVersion values m ∧ (∀ e ∈ values, e.2 ≤ maxVersion values m) ∧
      (maxVersion values m = m ∨ ∃ e ∈ values, e.2 = maxVersion values m) := by
  induction values generalizing m with
  | nil => simp [maxVersion]
  | cons e values ih =>
    have hcons : maxVersion (e :: values) m = maxVersion values (if e.2 > m then e.2 else m) := rfl
    obtain ⟨hle, hall, hmem⟩ := ih (if e.2 > m then e.2 else m)
    have hstart : m ≤ (if e.2 > m then e.2 else m) ∧ e.2 ≤ (if e.2 > m then e.2 else m) := by
      split_ifs <;> omega
    rw [hcons]
    refine ⟨hstart.1.trans hle, ?_, ?_⟩
    · intro e' he'
      rcases List.mem_cons.mp he' with rfl | he'
      · exact hstart.2.trans hle
      · exact hall e' he'
    · rcases hmem with hmem | ⟨e', he', hmem⟩
      · rw [hmem]
        split_ifs
        · exact .inr ⟨e, List.mem_cons_self, rfl⟩
        · exact .inl rfl
      · exact .inr ⟨e', List.mem_cons_of_mem _ he', hmem⟩

theorem getLatestValue_eq_none {values : List (Value × ℤ)} :
    getLatestValue values = none ↔ values = [] := by
  unfold getLatestValue
  split
  · next hfind =>
    refine iff_of_false nofun ?_
    rintro rfl
    cases hfind
  · exact List.head?_eq_none_iff

theorem getLatestValue_mem {values : List (Value × ℤ)} {latest : Value × ℤ}
    (h : getLatestValue values = some latest) : latest ∈ values := by
  unfold getLatestValue at h
  split at h
  · next hf => exact Option.some.inj h ▸ List.mem_of_find?_eq_some hf
  · exact List.mem_of_mem_head? h

/-- The latest value is at least as high as every value of positive version. -/
theorem le_getLatestValue {values : List (Value × ℤ)} {e : Value × ℤ} (he : e ∈ values)
    (hpos : 0 < e.2) : ∃ latest, getLatestValue values = some latest ∧ e.2 ≤ latest.2 := by
  obtain ⟨-, hall, hmem⟩ := maxVersion_spec values 0
  have hle := hall e he
  obtain ⟨e', he', hmax⟩ : ∃ e' ∈ values, e'.2 = maxVersion values 0 :=
    hmem.resolve_left (by omega)
  unfold getLatestValue
  cases hf : values.find? (·.2 = maxVersion values 0) with
  | none => exact absurd hmax (by simpa using List.find?_eq_none.mp hf e' he')
  | some latest =>
    have hlatest : latest.2 = maxVersion values 0 := by simpa using List.find?_some hf
    exact ⟨latest, rfl, hlatest ▸ hle⟩

end Coordinator
end LeaderlessDatastore
