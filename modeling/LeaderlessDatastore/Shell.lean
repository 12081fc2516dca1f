import LeaderlessDatastore.Client
import LeaderlessDatastore.Requests

/-!
# A command from the keyboard to the screen

The loop of the client's `main`.  The replica decodes what the client has sent, serves it with as
many rounds as it takes, and its answer is what is shown.
-/

namespace LeaderlessDatastore

open Pattern Regex ClientMessage

namespace Client

/-- What a line leads to: the replica and the bytes sent to it, and what is shown. -/
structure Did where
  sent : Option (Text × Text) := none
  shown : Option Shown := none
  deriving DecidableEq

/-- `get` and `put` -/
def request (c : ClientConnectionHandler) (trip : Trip) (msg : Text) :
    Option (ClientConnectionHandler × Did) :=
  (c.exchange trip).map fun (c', received) => (c',
    match received with
    | none => { shown := some .unreachable }
    | some (replicaName, reception) =>
      { sent := some (replicaName, frame msg), shown := reception.shown })

def get (c : ClientConnectionHandler) (key : Text) (trip : Trip) :
    Option (ClientConnectionHandler × Did) :=
  request c trip (ClientGet.toString key)

def put (c : ClientConnectionHandler) (key value : Text) (trip : Trip) :
    Option (ClientConnectionHandler × Did) :=
  request c trip (ClientPut.toString key value)

end Client

/-- A line, what its command meets on the way to a replica, and how that replica serves it: its
settings, the new coordinator and the rounds. -/
structure Turn where
  line : Text
  trip : Trip
  settings : Settings Text
  coordinator : Attempt
  rounds : List Round

namespace Turn

open Attempt

abbrev operation (t : Turn) : ClientOperation := ClientOperation.parse t.line

def reached (t : Turn) : Option Text := t.trip.shuffled.reverse.find? t.trip.reaches

/-- What the replica makes of the text of a request: `done` and the coordinator. -/
def serve (t : Turn) (request : Text) : Option (Bool × Attempt) :=
  match ServerMessage.toMessage (request ++ [escape]) with
  | .ok (.get key) => some (manageGet t.settings key t.rounds t.coordinator)
  | .ok (.put key text) => some (managePut t.settings key text t.rounds t.coordinator)
  | _ => none

/-- The text that the command sends. -/
def request (t : Turn) : Option Text :=
  match t.operation.type with
  | .get => some (ClientGet.toString t.operation.key)
  | .put => some (ClientPut.toString t.operation.key t.operation.value)
  | _ => none

/-- The whole of a one-line reply is received in at most two chunks. -/
structure Heard (t : Turn) (reply : Text) : Prop where
  delivers : Delivers reply t.trip.incoming
  arrived : Arrived reply (t.trip.incoming.take 2)
  isDot : ∀ c ∈ reply, isDot c

/-- If the command reaches a replica, that is done with the request, and what its coordinator
has sent to the client is received. -/
structure Served (t : Turn) : Prop where
  ports : Trip.NumericPorts t.trip.shuffled
  fresh : t.coordinator.client = []
  served : t.reached.isSome → ∀ request ∈ t.request, ∀ s ∈ t.serve request,
    s.1 ∧ ∀ reply ∈ s.2.client, t.Heard reply.toString

def shownValue : Option (Text × ℤ) → Shown
  | none => .notFound
  -- with the quotes around it
  | some (value, _) => .found ('"' :: value ++ ['"'])

/-- What the command stands for: the answer to the request that was typed. -/
def answer (t : Turn) : Shown :=
  match t.operation.type with
  | .get => shownValue (Coordinator.getLatestValue
      (manageGet t.settings t.operation.key t.rounds t.coordinator).2.values)
  | _ => .info (inserted t.operation.key t.operation.value)

variable {t : Turn} {reply msg replicaName : Text}

/-! ## One command -/

/-- A replica that is reached at once, with the surroundings of `succeeding`. -/
def typed (line : String) (incoming : List Text) : Turn where
  line := line.toList
  trip := ⟨["a:1".toList], fun _ => true, fun _ => true, incoming⟩
  settings := ⟨["a:1".toList, "b:1".toList], 3, 3, 3⟩
  coordinator := { datastore := .empty, uid := 0 }
  rounds := [failing, succeeding]

end Turn
end LeaderlessDatastore
