import LeaderlessDatastore.Replica
import LeaderlessDatastore.ServerConfig
import LeaderlessDatastore.Transition

/-!
# The cluster

The replicas of one configuration file and the connections between them.  A
connection carries messages in order in both directions; different connections
are independent.  Nothing crashes and an established connection does not fail.
-/

namespace LeaderlessDatastore

open Function

/-- The connection that attempt `attempt` at replica `coordinator` opens to `peer`. -/
structure Link (n : ℕ) where
  coordinator : Fin n
  attempt : ℕ
  peer : Fin n
  deriving DecidableEq

/-- The name of the connection at the peer. -/
def Link.source {n : ℕ} (ℓ : Link n) : Fin n × ℕ := (ℓ.coordinator, ℓ.attempt)

theorem Link.ext_source {n : ℕ} {ℓ ℓ' : Link n} (hsource : ℓ.source = ℓ'.source)
    (hpeer : ℓ.peer = ℓ'.peer) : ℓ = ℓ' := by
  cases ℓ
  cases ℓ'
  simp_all [Link.source]

/-- `down` holds the messages on their way to the peer, `up` those to the coordinator. -/
structure Cluster (n : ℕ) (Key Value : Type) where
  replica : Fin n → Replica (Fin n) Key Value
  down : Link n → List (Message Key Value)
  up : Link n → List (Message Key Value)

namespace Cluster

variable {n : ℕ} {Key Value : Type}

/-- What the replicas take from a file with `n` servers and the given quorum entries. -/
def settings (n : ℕ) (readQuorum writeQuorum : ℤ) (c : Fin n) : Settings (Fin n) where
  replicaAddresses := (List.finRange n).eraseIdx c
  readQuorum := ServerConfig.normaliseReadQuorum readQuorum
    (ServerConfig.normaliseWriteQuorum writeQuorum (n - 1)) (n - 1)
  writeQuorum := ServerConfig.normaliseWriteQuorum writeQuorum (n - 1)
  replicasAmount := n - 1

inductive Event (n : ℕ) (Key Value : Type) where
  | run (c : Fin n) (action : Replica.Action (Fin n) Key Value)
  /-- the coordinator sends to the peer -/
  | send (ℓ : Link n)
  /-- the coordinator receives from the peer -/
  | reply (ℓ : Link n)
  /-- the peer receives from the coordinator -/
  | deliver (ℓ : Link n)
  /-- the thread at the peer goes on, and may send -/
  | proceed (ℓ : Link n)
  /-- the peer finds the connection closed by the coordinator -/
  | hangup (ℓ : Link n)

def setReplica (s : Cluster n Key Value) (c : Fin n) (r : Replica (Fin n) Key Value) :
    Cluster n Key Value := { s with replica := update s.replica c r }

/-- The coordinator has closed its side of the connection. -/
def closed (s : Cluster n Key Value) (ℓ : Link n) : Bool :=
  match (s.replica ℓ.coordinator).attempt ℓ.attempt with
  | some co => co.closed
  | none => false

variable [DecidableEq Key] [Inhabited Value]

def step (settings : Fin n → Settings (Fin n)) (s : Cluster n Key Value) :
    Event n Key Value → Option (Cluster n Key Value)
  | .run c action => ((s.replica c).run (settings c) action).map fun r => s.setReplica c r
  | .send ℓ =>
    ((s.replica ℓ.coordinator).send ℓ.attempt ℓ.peer).map fun (r, m) =>
      { s.setReplica ℓ.coordinator r with down := update s.down ℓ (s.down ℓ ++ [m]) }
  | .reply ℓ =>
    match s.up ℓ with
    | [] => none
    | m :: rest =>
      ((s.replica ℓ.coordinator).receive ℓ.attempt ℓ.peer m).map fun r =>
        { s.setReplica ℓ.coordinator r with up := update s.up ℓ rest }
  | .deliver ℓ =>
    match s.down ℓ with
    | [] => none
    | m :: rest =>
      ((s.replica ℓ.peer).deliver ℓ.source m).map fun r =>
        { s.setReplica ℓ.peer r with down := update s.down ℓ rest }
  | .proceed ℓ =>
    ((s.replica ℓ.peer).proceed ℓ.source).map fun (r, m) =>
      { s.setReplica ℓ.peer r with up := update s.up ℓ (s.up ℓ ++ m.toList) }
  | .hangup ℓ =>
    if (s.down ℓ).isEmpty ∧ s.closed ℓ then
      ((s.replica ℓ.peer).hangup ℓ.source).map fun r => s.setReplica ℓ.peer r
    else none

/-- All replicas have synchronised and hold the given contents. -/
def initial (contents : Fin n → Key → Option (Value × ℤ)) : Cluster n Key Value where
  replica := fun c => .started (contents c) c
  down := fun _ => []
  up := fun _ => []

/-- A run of the cluster in which every event satisfies a condition on the state it finds. -/
def Run (settings : Fin n → Settings (Fin n)) (allowed : Cluster n Key Value → Event n Key Value →
    Prop) : Cluster n Key Value → Cluster n Key Value → Prop :=
  Transition.Run (step settings) allowed

end Cluster
end LeaderlessDatastore
