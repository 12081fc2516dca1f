import LeaderlessDatastore.Transition
import LeaderlessDatastore.Occupancy
import LeaderlessDatastore.Emplace
import LeaderlessDatastore.Attempt

/-!
# The descriptors of a server

Accepting, connecting, using and closing connections by any number of threads, and the end of the
handler.  A descriptor that is closed can be given out again at once, so a call that has found
its connection open may meet another one's stream.
-/

namespace LeaderlessDatastore

open Function

/-- What the operating system has behind a descriptor. -/
inductive Endpoint where
  | listening
  /-- the stream of the connection that was made as the `i`-th -/
  | stream (i : ℕ)
  /-- a socket that `connectTo` has not connected -/
  | unconnected
  /-- of other code, the file of the datastore for instance -/
  | other
  deriving DecidableEq

namespace ReplicaConnectionHandler

/-- `ReplicaConnectionHandler::Connection` without its buffers. -/
structure Connection where
  name : Text
  socket : ℕ
  connectionOpen : Bool := true
  /-- whether `connections.insert` has kept it -/
  inserted : Bool

inductive Operation where
  | receive
  | send (text : Text)
  | close
  /-- `client->close()` in the loop of the handler -/
  | closeClient
  deriving DecidableEq

def Operation.closes : Operation → Bool
  | close | closeClient => true
  | _ => false

/-- A call that is past the test of `connectionOpen`. -/
structure Call where
  connection : ℕ
  operation : Operation
  deriving DecidableEq

/-- The thread of `open`. -/
inductive Acceptor where
  | testing
  | accepting
  | stopped
  deriving DecidableEq

/-- How far `ReplicaConnectionHandler::close` has come. -/
inductive Closing where
  | idle
  | joining
  /-- in the loop, which began when `made` connections had been made: between two entries or in
  the `close` of one, with those `ahead` that the iterator has still to come to -/
  | iterating (made : ℕ) (ahead : List Text) (client : Option Text)
  /-- returned, from a loop that began when `made` connections had been made -/
  | returned (made : ℕ)
  deriving DecidableEq

def Closing.iterates : Closing → Bool
  | .iterating _ _ _ => true
  | _ => false

/-- Where the map has a new entry, as the iterator of `close` sees it. -/
inductive Place where
  | before
  | ahead
  /-- the map has rehashed, and the iterator, which is not valid any more, comes to some names -/
  | rehashed (ahead : List Text)

end ReplicaConnectionHandler

open ReplicaConnectionHandler

structure ReplicaConnectionHandler where
  descriptor : ℕ → Option Endpoint
  acceptingSocket : ℕ
  openBool : Bool := true
  /-- every `new Connection`, in order -/
  made : List Connection := []
  connections : List (Text × ℕ) := []
  calls : List Call := []
  acceptor : Acceptor := .testing
  closing : Closing := .idle
  /-- the descriptors with which `connectTo` has failed -/
  lost : List ℕ := []
  /-- what the calls have found behind the descriptor of their connection -/
  used : List (Call × Option Endpoint) := []

namespace ReplicaConnectionHandler

/-- What the threads of the server do next. -/
inductive Event where
  /-- `while (isOpen())` -/
  | test
  /-- `accept` returns, with a descriptor and the address of the peer or without -/
  | accept (result : Option (ℕ × Text))
  | connectTo (addressString : Text) (socket : Option ℕ) (result : Reached) (place : Place)
  /-- a call tests `connectionOpen` -/
  | enter (call : Call)
  /-- a call that has passed the test does what it is for -/
  | perform (call : Call)
  /-- the handler's `close` up to its `join` -/
  | close
  | join
  /-- the iterator comes to the entry of a name, in whatever order the map has them -/
  | next (name : Text)
  | erase
  | finish
  /-- other code is given a descriptor or gives it back -/
  | acquire (socket : ℕ)
  | release (socket : ℕ)

/-- `new Connection` and `connections.insert`. -/
def insert (name : Text) (socket : ℕ) (s : ReplicaConnectionHandler) : ReplicaConnectionHandler :=
  { s with
    descriptor := update s.descriptor socket (some (.stream s.made.length))
    made := s.made ++
      [{ name := name, socket := socket, inserted := (s.connections.lookup name).isNone }]
    connections := emplace s.connections name s.made.length }

/-- What a new entry changes for the loop of `close`. -/
def meet (name : Text) (place : Place) (s : ReplicaConnectionHandler) :
    ReplicaConnectionHandler :=
  match s.closing, place with
  | .iterating made ahead client, .ahead =>
    { s with closing := .iterating made (name :: ahead) client }
  | .iterating made _ client, .rehashed ahead =>
    { s with closing := .iterating made ahead client }
  | _, _ => s

/-- `itr = connections.erase(itr)` -/
def eraseClient (name : Text) (made : ℕ) (ahead : List Text) (s : ReplicaConnectionHandler) :
    ReplicaConnectionHandler :=
  { s with
    connections := s.connections.filter (·.1 ≠ name)
    closing := .iterating made ahead none }

/-- `Connection::receive` up to its `recv`, `send` and `close`, each behind its test of
`connectionOpen`. -/
def perform (call : Call) (c : Connection) (s : ReplicaConnectionHandler) :
    ReplicaConnectionHandler :=
  let found := s.descriptor c.socket
  let s := { s with calls := s.calls.erase call }
  match call.operation with
  | .receive => { s with used := s.used ++ [(call, found)] }
  | .send _ => if s.openBool then { s with used := s.used ++ [(call, found)] } else s
  | _ =>
    -- `connectionOpen` is not tested again
    { s with
      made := s.made.set call.connection { c with connectionOpen := false }
      descriptor := update s.descriptor c.socket none
      used := s.used ++ [(call, found)] }

def step (s : ReplicaConnectionHandler) : Event → Option ReplicaConnectionHandler
  | .test =>
    if s.acceptor = .testing then
      some { s with acceptor := if s.openBool then .accepting else .stopped }
    else none
  | .accept result =>
    if s.acceptor = .accepting then
      match result with
      | some (socket, name) =>
        if s.descriptor s.acceptingSocket = some .listening ∧ s.descriptor socket = none then
          some { s.insert name socket with acceptor := .testing }
        else none
      | none => some { s with acceptor := .testing }
    else none
  | .connectTo addressString (some socket) result place =>
    if s.descriptor socket = none then
      match result with
      | .connected =>
        if (s.connections.lookup addressString).isNone then
          some ((s.insert addressString socket).meet addressString place)
        else some (s.insert addressString socket)
      -- neither `return nullopt` nor the exception closes the socket
      | _ => some { s with
          descriptor := update s.descriptor socket (some .unconnected)
          lost := socket :: s.lost }
    else none
  | .connectTo _ none result _ => if result = .refused then some s else none
  | .enter call =>
    if call.operation ≠ .closeClient then
      s.made[call.connection]?.map fun c =>
        if c.connectionOpen then { s with calls := s.calls ++ [call] } else s
    else none
  | .perform call =>
    if call ∈ s.calls then s.made[call.connection]?.map (s.perform call) else none
  | .close =>
    if s.openBool then
      some { s with
        openBool := false
        descriptor := update s.descriptor s.acceptingSocket none
        closing := .joining }
    else some s
  | .join =>
    if s.closing = .joining ∧ s.acceptor = .stopped then
      some { s with closing := .iterating s.made.length (s.connections.map Prod.fst) none }
    else none
  | .next name =>
    match s.closing with
    | .iterating made ahead none =>
      if name ∈ ahead then do
        let i ← s.connections.lookup name
        let c ← s.made[i]?
        if c.connectionOpen then
          some { s with
            calls := s.calls ++ [⟨i, .closeClient⟩]
            closing := .iterating made (ahead.erase name) (some name) }
        else some (s.eraseClient name made (ahead.erase name))
      else none
    | _ => none
  | .erase =>
    match s.closing with
    | .iterating made ahead (some name) => do
      let i ← s.connections.lookup name
      if ⟨i, .closeClient⟩ ∈ s.calls then none else some (s.eraseClient name made ahead)
    | _ => none
  | .finish =>
    match s.closing with
    | .iterating made [] none => some { s with closing := .returned made }
    | _ => none
  | .acquire socket =>
    if s.descriptor socket = none then
      some { s with descriptor := update s.descriptor socket (some .other) }
    else none
  | .release socket =>
    if s.descriptor socket = some .other then
      some { s with descriptor := update s.descriptor socket none }
    else none

/-- `open` has returned, and other code may have descriptors as well. -/
def opened (others : List ℕ) (acceptingSocket : ℕ) : ReplicaConnectionHandler where
  descriptor := update (fun d => if d ∈ others then some .other else none) acceptingSocket
    (some .listening)
  acceptingSocket := acceptingSocket

/-- The `close` of a connection begins and ends without another call that has found it open, and
the map does not rehash under the loop of the handler's. -/
def Alone (s : ReplicaConnectionHandler) : Event → Prop
  | .enter call => ∀ other ∈ s.calls, other.connection = call.connection →
      ¬ call.operation.closes ∧ ¬ other.operation.closes
  | .next name => ∀ other ∈ s.calls, s.connections.lookup name ≠ some other.connection
  | .connectTo _ _ _ (.rehashed _) => ¬ s.closing.iterates
  | _ => True

instance (s : ReplicaConnectionHandler) (e : Event) : Decidable (s.Alone e) := by
  unfold Alone
  split <;> infer_instance

/-! ## The table of descriptors -/

variable {s t : ReplicaConnectionHandler} {e : Event} {name : Text} {d i : ℕ} {c : Connection}
  {call : Call}

/-- The entry that `insert` makes. -/
def inserted (name : Text) (socket : ℕ) (s : ReplicaConnectionHandler) : Connection :=
  { name := name, socket := socket, inserted := (s.connections.lookup name).isNone }

theorem made_insert : (s.insert name d).made[i]? = some c ↔
    s.made[i]? = some c ∨ i = s.made.length ∧ s.inserted name d = c := by
  change (s.made ++ [s.inserted name d])[i]? = some c ↔ _
  rcases Nat.lt_trichotomy i s.made.length with hlt | rfl | hgt
  · simp [List.getElem?_append_left hlt, hlt.ne]
  · simp
  · have hlen : (s.made ++ [s.inserted name d]).length ≤ i := by simpa using hgt
    simp [List.getElem?_eq_none hlen, List.getElem?_eq_none hgt.le, hgt.ne']

theorem made_insert_of_lt (hc : (s.insert name d).made[i]? = some c) (hi : i < s.made.length) :
    s.made[i]? = some c := by
  rcases made_insert.mp hc with hc | ⟨rfl, -⟩
  · exact hc
  · exact absurd hi (lt_irrefl _)

/-- What a written entry neither was nor becomes, is where it was. -/
theorem update_eq_some_of_ne {f : ℕ → Option Endpoint} {d d' : ℕ} {v : Option Endpoint}
    {x : Endpoint} (hold : f d ≠ some x) (hnew : v ≠ some x) :
    update f d v d' = some x ↔ f d' = some x := by
  rw [Occupancy.update_eq_some]
  constructor
  · rintro (⟨rfl, hv⟩ | ⟨-, hd'⟩)
    · exact absurd hv hnew
    · exact hd'
  · intro hd'
    right
    refine ⟨?_, hd'⟩
    rintro rfl
    exact hold hd'

/-- Every descriptor of the handler, and whose it is. -/
structure Account (s : ReplicaConnectionHandler) : Prop where
  stream : ∀ d i, s.descriptor d = some (.stream i) ↔
    ∃ c, s.made[i]? = some c ∧ c.connectionOpen ∧ c.socket = d
  listening : ∀ d, s.descriptor d = some .listening ↔ s.openBool ∧ d = s.acceptingSocket
  unconnected : ∀ d, s.descriptor d = some .unconnected ↔ d ∈ s.lost
  nodup : s.lost.Nodup

theorem Account.opened (others : List ℕ) (acceptingSocket : ℕ) :
    Account (opened others acceptingSocket) where
  stream d i := by
    simp only [ReplicaConnectionHandler.opened, update_apply]
    split_ifs <;> simp
  listening d := by
    simp only [ReplicaConnectionHandler.opened, update_apply]
    split_ifs <;> simp_all
  unconnected d := by
    simp only [ReplicaConnectionHandler.opened, update_apply]
    split_ifs <;> simp
  nodup := List.nodup_nil

/-- The table is the same whatever the calls, the map and the threads are. -/
theorem Account.frame (h : Account s) {connections : List (Text × ℕ)} {calls : List Call}
    {acceptor : Acceptor} {closing : Closing} {used : List (Call × Option Endpoint)} :
    Account { s with
      connections := connections, calls := calls, acceptor := acceptor, closing := closing
      used := used } :=
  ⟨h.stream, h.listening, h.unconnected, h.nodup⟩

theorem Account.insert (h : Account s) (hfree : s.descriptor d = none) (name : Text) :
    Account (s.insert name d) where
  stream d' i := by
    simp only [made_insert]
    constructor
    · intro hstream
      rcases Occupancy.update_eq_some.mp hstream with ⟨rfl, hi⟩ | ⟨-, hold⟩
      · cases hi
        exact ⟨_, .inr ⟨rfl, rfl⟩, rfl, rfl⟩
      · obtain ⟨c, hc, hopen⟩ := (h.stream d' i).mp hold
        exact ⟨c, .inl hc, hopen⟩
    · rintro ⟨c, hc | ⟨rfl, rfl⟩, hopen, rfl⟩
      · have hstream := (h.stream _ i).mpr ⟨c, hc, hopen, rfl⟩
        refine Occupancy.update_eq_some.mpr (.inr ⟨?_, hstream⟩)
        rintro rfl
        cases hfree.symm.trans hstream
      · exact Occupancy.update_eq_some.mpr (.inl ⟨rfl, rfl⟩)
  listening d' := (update_eq_some_of_ne (by simp [hfree]) (by simp)).trans (h.listening d')
  unconnected d' := (update_eq_some_of_ne (by simp [hfree]) (by simp)).trans (h.unconnected d')
  nodup := h.nodup

/-- A failed `connectTo` keeps its descriptor. -/
theorem Account.lose (h : Account s) (hfree : s.descriptor d = none) :
    Account { s with
      descriptor := update s.descriptor d (some .unconnected), lost := d :: s.lost } where
  stream d' i := (update_eq_some_of_ne (by simp [hfree]) (by simp)).trans (h.stream d' i)
  listening d' := (update_eq_some_of_ne (by simp [hfree]) (by simp)).trans (h.listening d')
  unconnected d' := by
    rw [List.mem_cons, ← h.unconnected, Occupancy.update_eq_some]
    by_cases hd : d' = d <;> simp [hd]
  nodup := List.nodup_cons.mpr ⟨fun hd => by simpa [hfree] using (h.unconnected d).mpr hd, h.nodup⟩

theorem Account.close (h : Account s) (hopen : s.openBool) (closing : Closing) :
    Account { s with
      openBool := false
      descriptor := update s.descriptor s.acceptingSocket none
      closing := closing } where
  stream d' i := by
    have hlistening := (h.listening s.acceptingSocket).mpr ⟨hopen, rfl⟩
    exact (update_eq_some_of_ne (by simp [hlistening]) (by simp)).trans (h.stream d' i)
  listening d' := by
    rw [Occupancy.update_eq_some, h.listening]
    constructor
    · rintro (⟨-, hnone⟩ | ⟨hd, -, hd'⟩)
      · cases hnone
      · exact absurd hd' hd
    · rintro ⟨hfalse, -⟩
      cases hfalse
  unconnected d' := by
    have hlistening := (h.listening s.acceptingSocket).mpr ⟨hopen, rfl⟩
    exact (update_eq_some_of_ne (by simp [hlistening]) (by simp)).trans (h.unconnected d')
  nodup := h.nodup

/-- Other code takes a descriptor that is free, or gives its own back. -/
theorem Account.others (h : Account s) {v : Option Endpoint}
    (hold : s.descriptor d = none ∨ s.descriptor d = some .other)
    (hnew : v = none ∨ v = some .other) :
    Account { s with descriptor := update s.descriptor d v } := by
  have same : ∀ {d' x}, x ≠ .other → (update s.descriptor d v d' = some x ↔
      s.descriptor d' = some x) := fun hx =>
    update_eq_some_of_ne (by rcases hold with hold | hold <;> simp [hold, hx.symm])
      (by rcases hnew with hnew | hnew <;> simp [hnew, hx.symm])
  exact ⟨fun d' i => (same (by simp)).trans (h.stream d' i),
    fun d' => (same (by simp)).trans (h.listening d'),
    fun d' => (same (by simp)).trans (h.unconnected d'), h.nodup⟩

theorem made_set (hc : s.made[i]? = some c) {j : ℕ} {c' : Connection} :
    (s.made.set i { c with connectionOpen := false })[j]? = some c' ↔
      (j = i ∧ { c with connectionOpen := false } = c') ∨ (j ≠ i ∧ s.made[j]? = some c') := by
  have hlt : i < s.made.length := (List.getElem?_eq_some_iff.mp hc).1
  by_cases hj : j = i
  · subst hj
    simp [List.getElem?_set_self hlt]
  · simp [List.getElem?_set_ne (Ne.symm hj), hj]

/-- The descriptor of an open connection is given back. -/
theorem Account.shut (h : Account s) (hc : s.made[i]? = some c) (hopen : c.connectionOpen)
    (calls : List Call) (used : List (Call × Option Endpoint)) :
    Account { s with
      calls := calls
      made := s.made.set i { c with connectionOpen := false }
      descriptor := update s.descriptor c.socket none
      used := used } := by
  have hstream := (h.stream c.socket i).mpr ⟨c, hc, hopen, rfl⟩
  refine ⟨fun d' j => ?_, fun d' => ?_, fun d' => ?_, h.nodup⟩
  · simp only [made_set hc, Occupancy.update_eq_some, h.stream]
    constructor
    · rintro (⟨-, hnone⟩ | ⟨hd, c', hc', hopen', rfl⟩)
      · cases hnone
      · refine ⟨c', .inr ⟨?_, hc'⟩, hopen', rfl⟩
        rintro rfl
        cases hc.symm.trans hc'
        exact hd rfl
    · rintro ⟨c', ⟨rfl, rfl⟩ | ⟨hj, hc'⟩, hopen', rfl⟩
      · cases hopen'
      · refine .inr ⟨fun hd => hj ?_, c', hc', hopen', rfl⟩
        have hstream' := (h.stream c'.socket j).mpr ⟨c', hc', hopen', rfl⟩
        rw [hd] at hstream'
        cases hstream.symm.trans hstream'
        rfl
  · exact (update_eq_some_of_ne (by simp [hstream]) (by simp)).trans (h.listening d')
  · exact (update_eq_some_of_ne (by simp [hstream]) (by simp)).trans (h.unconnected d')

/-! ## Calls under way -/

def IsOpen (s : ReplicaConnectionHandler) (i : ℕ) : Prop :=
  ∃ c, s.made[i]? = some c ∧ c.connectionOpen

/-- Calls under way are on open connections, and a `close` is the only one on its connection. -/
structure Guarded (s : ReplicaConnectionHandler) : Prop where
  isOpen : ∀ call ∈ s.calls, s.IsOpen call.connection
  alone : ∀ call ∈ s.calls, call.operation.closes → ∀ other ∈ s.calls.erase call,
    other.connection ≠ call.connection
  used : ∀ call found, (call, found) ∈ s.used → found = some (.stream call.connection)

/-- The calls do not depend on the table, the map and the threads. -/
theorem Guarded.frame (h : Guarded s) {descriptor : ℕ → Option Endpoint} {openBool : Bool}
    {connections : List (Text × ℕ)} {acceptor : Acceptor} {closing : Closing} {lost : List ℕ} :
    Guarded { s with
      descriptor := descriptor, openBool := openBool, connections := connections
      acceptor := acceptor, closing := closing, lost := lost } :=
  ⟨h.isOpen, h.alone, h.used⟩

theorem isOpen_insert (h : s.IsOpen i) : (s.insert name d).IsOpen i := by
  obtain ⟨c, hc, hopen⟩ := h
  exact ⟨c, made_insert.mpr (.inl hc), hopen⟩

theorem Guarded.insert (h : Guarded s) (name : Text) (d : ℕ) : Guarded (s.insert name d) :=
  ⟨fun call hcall => isOpen_insert (h.isOpen call hcall), h.alone, h.used⟩

/-- A call begins: no other one is under way if it is a `close`, and no `close` is. -/
theorem Guarded.enter (h : Guarded s) (hopen : s.IsOpen call.connection)
    (hothers : ∀ other ∈ s.calls, other.connection = call.connection →
      ¬ call.operation.closes ∧ ¬ other.operation.closes) (closing : Closing) :
    Guarded { s with calls := s.calls ++ [call], closing := closing } where
  isOpen other hother := by
    rcases List.mem_append.mp hother with hother | hother
    · exact h.isOpen other hother
    · exact List.mem_singleton.mp hother ▸ hopen
  alone other hother hcloses third hthird hsame := by
    change third ∈ (s.calls ++ [call]).erase other at hthird
    by_cases hmem : other ∈ s.calls
    · rw [List.erase_append_left _ hmem] at hthird
      rcases List.mem_append.mp hthird with hthird | hthird
      · exact h.alone other hmem hcloses third hthird hsame
      · rw [List.mem_singleton.mp hthird] at hsame
        exact (hothers other hmem hsame.symm).2 hcloses
    · rw [List.erase_append_right _ hmem] at hthird
      obtain rfl := List.mem_singleton.mp ((List.mem_append.mp hother).resolve_left hmem)
      rcases List.mem_append.mp hthird with hthird | hthird
      · exact (hothers third hthird hsame).1 hcloses
      · simp at hthird
  used := h.used

/-- A call ends that has not closed its connection. -/
theorem Guarded.leave (h : Guarded s) : Guarded { s with calls := s.calls.erase call } where
  isOpen other hother := h.isOpen other (List.mem_of_mem_erase hother)
  alone other hother hcloses third hthird := by
    change third ∈ (s.calls.erase call).erase other at hthird
    rw [List.erase_comm] at hthird
    exact h.alone other (List.mem_of_mem_erase hother) hcloses third (List.mem_of_mem_erase hthird)
  used := h.used

theorem Guarded.use (h : Guarded s) (haccount : Account s) (hcall : call ∈ s.calls)
    (hc : s.made[call.connection]? = some c) :
    s.descriptor c.socket = some (.stream call.connection) := by
  obtain ⟨c', hc', hopen⟩ := h.isOpen call hcall
  obtain rfl := Option.some.inj (hc.symm.trans hc')
  exact (haccount.stream c.socket call.connection).mpr ⟨c, hc, hopen, rfl⟩

theorem Guarded.perform (h : Guarded s) (haccount : Account s) (hcall : call ∈ s.calls)
    (hc : s.made[call.connection]? = some c) : Guarded (s.perform call c) := by
  have hleave := @Guarded.leave s call h
  have used : ∀ other found, (other, found) ∈ s.used ++ [(call, s.descriptor c.socket)] →
      found = some (.stream other.connection) := by
    intro other found hmem
    rcases List.mem_append.mp hmem with hmem | hmem
    · exact h.used other found hmem
    · cases List.mem_singleton.mp hmem
      exact h.use haccount hcall hc
  have close : call.operation.closes → Guarded { s with
      calls := s.calls.erase call
      made := s.made.set call.connection { c with connectionOpen := false }
      descriptor := update s.descriptor c.socket none
      used := s.used ++ [(call, s.descriptor c.socket)] } := by
    intro hcloses
    refine ⟨fun other hother => ?_, hleave.alone, used⟩
    obtain ⟨c', hc', hopen⟩ := hleave.isOpen other hother
    exact ⟨c', (made_set hc).mpr (.inr ⟨h.alone call hcall hcloses other hother, hc'⟩), hopen⟩
  obtain ⟨i, operation⟩ := call
  cases operation with
  | receive => exact ⟨hleave.isOpen, hleave.alone, used⟩
  | send text =>
    unfold ReplicaConnectionHandler.perform
    dsimp only
    split_ifs with hopen
    · exact ⟨hleave.isOpen, hleave.alone, used⟩
    · exact hleave
  | close => exact close rfl
  | closeClient => exact close rfl

theorem Account.perform (h : Account s) (hopen : c.connectionOpen)
    (hc : s.made[call.connection]? = some c) : Account (s.perform call c) := by
  obtain ⟨i, operation⟩ := call
  cases operation with
  | receive => exact h.frame
  | send text =>
    unfold ReplicaConnectionHandler.perform
    dsimp only
    split_ifs with hopen <;> exact h.frame
  | close => exact h.shut hc hopen _ _
  | closeClient => exact h.shut hc hopen _ _

/-! ## The map of connections -/

def IsClosed (s : ReplicaConnectionHandler) (i : ℕ) : Prop :=
  ∃ c, s.made[i]? = some c ∧ c.connectionOpen = false

/-- What `connections` has, until the loop of `close` is through. -/
structure Kept (s : ReplicaConnectionHandler) : Prop where
  inserted : ∀ i c, s.made[i]? = some c → c.connectionOpen → c.inserted →
    s.connections.lookup c.name = some i
  client : ∀ made ahead name, s.closing = .iterating made ahead (some name) → ∃ i,
    s.connections.lookup name = some i ∧ (⟨i, .closeClient⟩ ∈ s.calls ∨ s.IsClosed i)
  ahead : ∀ made ahead client, s.closing = .iterating made ahead client → made ≤ s.made.length ∧
    ∀ i c, i < made → s.made[i]? = some c → c.connectionOpen → c.inserted →
      c.name ∈ ahead ∨ client = some c.name
  returned : ∀ k, s.closing = .returned k → k ≤ s.made.length ∧
    ∀ i c, i < k → s.made[i]? = some c → c.connectionOpen → ¬ c.inserted

/-- Nor does the map depend on the table and the accepting thread. -/
theorem Kept.frame (h : Kept s) {descriptor : ℕ → Option Endpoint} {acceptor : Acceptor}
    {lost : List ℕ} :
    Kept { s with descriptor := descriptor, acceptor := acceptor, lost := lost } :=
  ⟨h.inserted, h.client, h.ahead, h.returned⟩

theorem lookup_insert (h : s.connections.lookup name = some i) (name' : Text) :
    (s.insert name' d).connections.lookup name = some i := by
  change (emplace s.connections name' _).lookup name = some i
  rw [lookup_emplace, List.lookup_append, h, Option.some_or]

theorem Kept.insert (h : Kept s) (name : Text) (d : ℕ) : Kept (s.insert name d) where
  inserted i c hc hopen hinserted := by
    rcases made_insert.mp hc with hc | ⟨rfl, rfl⟩
    · exact lookup_insert (h.inserted i c hc hopen hinserted) name
    · have hnone : s.connections.lookup name = none := Option.isNone_iff_eq_none.mp hinserted
      change (emplace s.connections name _).lookup name = some _
      rw [lookup_emplace, List.lookup_append, hnone]
      simp
  client made ahead name' hclosing := by
    obtain ⟨i, hi, hcall | ⟨c, hc, hclosed⟩⟩ := h.client made ahead name' hclosing
    · exact ⟨i, lookup_insert hi name, .inl hcall⟩
    · exact ⟨i, lookup_insert hi name, .inr ⟨c, made_insert.mpr (.inl hc), hclosed⟩⟩
  ahead made ahead client hclosing := by
    obtain ⟨hle, hahead⟩ := h.ahead made ahead client hclosing
    refine ⟨hle.trans (by simp [ReplicaConnectionHandler.insert]), fun i c hi hc => ?_⟩
    exact hahead i c hi (made_insert_of_lt hc (hi.trans_le hle))
  returned k hclosing := by
    obtain ⟨hle, hleft⟩ := h.returned k hclosing
    refine ⟨hle.trans (by simp [ReplicaConnectionHandler.insert]), fun i c hi hc => ?_⟩
    exact hleft i c hi (made_insert_of_lt hc (hi.trans_le hle))

/-- The loop goes on to what it would have come to without the new entry. -/
theorem Kept.meet (h : Kept s) {place : Place}
    (hplace : ∀ ahead, place = .rehashed ahead → ¬ s.closing.iterates) :
    Kept (s.meet name place) := by
  unfold ReplicaConnectionHandler.meet
  split
  case h_1 made ahead client hclosing =>
    refine ⟨h.inserted, fun made' ahead' name' hclosing' => ?_,
      fun made' ahead' client' hclosing' => ?_, fun k hk => (nomatch hk)⟩
    · cases hclosing'
      exact h.client made ahead name' hclosing
    · cases hclosing'
      obtain ⟨hle, hahead⟩ := h.ahead made ahead client hclosing
      exact ⟨hle, fun i c hi hc hopen hinserted =>
        (hahead i c hi hc hopen hinserted).imp_left (List.mem_cons_of_mem name)⟩
  case h_2 made _ client ahead hclosing =>
    exact absurd (by simp [hclosing, Closing.iterates]) (hplace ahead rfl)
  case h_3 => exact h

theorem Kept.enter (h : Kept s) (call : Call) : Kept { s with calls := s.calls ++ [call] } where
  inserted := h.inserted
  client made ahead name hclosing := by
    obtain ⟨i, hi, hcall | hclosed⟩ := h.client made ahead name hclosing
    · exact ⟨i, hi, .inl (List.mem_append_left _ hcall)⟩
    · exact ⟨i, hi, .inr hclosed⟩
  ahead := h.ahead
  returned := h.returned

theorem Kept.perform (h : Kept s) (hc : s.made[call.connection]? = some c) :
    Kept (s.perform call c) := by
  have leave : call.operation.closes = false → ∀ used,
      Kept { s with calls := s.calls.erase call, used := used } := by
    refine fun hcloses used =>
      ⟨h.inserted, fun made ahead name hclosing => ?_, h.ahead, h.returned⟩
    obtain ⟨i, hi, hcall | hclosed⟩ := h.client made ahead name hclosing
    · refine ⟨i, hi, .inl ((List.mem_erase_of_ne ?_).mpr hcall)⟩
      rintro rfl
      cases hcloses
    · exact ⟨i, hi, .inr hclosed⟩
  have close : Kept { s with
      calls := s.calls.erase call
      made := s.made.set call.connection { c with connectionOpen := false }
      descriptor := update s.descriptor c.socket none
      used := s.used ++ [(call, s.descriptor c.socket)] } := by
    refine ⟨fun i c' hc' hopen' hinserted => ?_, fun made ahead name hclosing => ?_,
      fun made ahead client hclosing => ?_, fun k hclosing => ?_⟩
    · rcases (made_set hc).mp hc' with ⟨-, rfl⟩ | ⟨-, hc'⟩
      · cases hopen'
      · exact h.inserted i c' hc' hopen' hinserted
    · obtain ⟨i, hi, hor⟩ := h.client made ahead name hclosing
      refine ⟨i, hi, ?_⟩
      by_cases hsame : i = call.connection
      · exact .inr ⟨_, (made_set hc).mpr (.inl ⟨hsame, rfl⟩), rfl⟩
      · rcases hor with hcall | ⟨c', hc', hclosed⟩
        · refine .inl ((List.mem_erase_of_ne ?_).mpr hcall)
          rintro rfl
          exact hsame rfl
        · exact .inr ⟨c', (made_set hc).mpr (.inr ⟨hsame, hc'⟩), hclosed⟩
    · obtain ⟨hle, hahead⟩ := h.ahead made ahead client hclosing
      refine ⟨by simpa using hle, fun i c' hi hc' hopen' => ?_⟩
      rcases (made_set hc).mp hc' with ⟨-, rfl⟩ | ⟨-, hc'⟩
      · cases hopen'
      · exact hahead i c' hi hc' hopen'
    · obtain ⟨hle, hleft⟩ := h.returned k hclosing
      refine ⟨by simpa using hle, fun i c' hi hc' hopen' => ?_⟩
      rcases (made_set hc).mp hc' with ⟨-, rfl⟩ | ⟨-, hc'⟩
      · cases hopen'
      · exact hleft i c' hi hc' hopen'
  obtain ⟨i, operation⟩ := call
  cases operation with
  | receive => exact leave rfl _
  | send text =>
    unfold ReplicaConnectionHandler.perform
    dsimp only
    split_ifs with hopenBool
    · exact leave rfl _
    · exact leave rfl _
  | close => exact close
  | closeClient => exact close

theorem Kept.close (h : Kept s) (openBool : Bool) (descriptor : ℕ → Option Endpoint) :
    Kept { s with openBool := openBool, descriptor := descriptor, closing := .joining } where
  inserted := h.inserted
  client _ _ _ hclosing := nomatch hclosing
  ahead _ _ _ hclosing := nomatch hclosing
  returned _ hclosing := nomatch hclosing

/-- The loop begins with all entries before its iterator. -/
theorem Kept.join (h : Kept s) :
    Kept { s with
      closing := .iterating s.made.length (s.connections.map Prod.fst) none } where
  inserted := h.inserted
  client _ _ _ hclosing := nomatch hclosing
  ahead made ahead client hclosing := by
    cases hclosing
    refine ⟨le_rfl, fun i c _ hc hopen hinserted => .inl ?_⟩
    obtain ⟨before, behind, hmap, -⟩ :=
      List.lookup_eq_some_iff.mp (h.inserted i c hc hopen hinserted)
    simp [hmap]
  returned _ hclosing := nomatch hclosing

/-- The loop comes to an entry whose connection is open. -/
theorem Kept.next (h : Kept s) {made : ℕ} {ahead : List Text}
    (hclosing : s.closing = .iterating made ahead none)
    (hi : s.connections.lookup name = some i) :
    Kept { s with
      calls := s.calls ++ [⟨i, .closeClient⟩]
      closing := .iterating made (ahead.erase name) (some name) } where
  inserted := h.inserted
  client _ _ _ hclosing' := by
    cases hclosing'
    exact ⟨i, hi, .inl (List.mem_append_right _ List.mem_cons_self)⟩
  ahead _ _ _ hclosing' := by
    cases hclosing'
    obtain ⟨hle, hahead⟩ := h.ahead made ahead none hclosing
    refine ⟨hle, fun j c hj hc hopen hinserted => ?_⟩
    by_cases hname : c.name = name
    · exact .inr (congrArg some hname.symm)
    · have hmem := (hahead j c hj hc hopen hinserted).resolve_right (by simp)
      exact .inl ((List.mem_erase_of_ne hname).mpr hmem)
  returned _ hclosing' := nomatch hclosing'

/-- The entry of an open connection is not the one that is closed under its name. -/
theorem Kept.name_ne (h : Kept s) (hlookup : s.connections.lookup name = some i)
    (hclosed : s.IsClosed i) {j : ℕ} (hc : s.made[j]? = some c) (hopen : c.connectionOpen)
    (hinserted : c.inserted) : c.name ≠ name := by
  rintro rfl
  obtain rfl := Option.some.inj ((h.inserted j c hc hopen hinserted).symm.trans hlookup)
  obtain ⟨c', hc', hclosed⟩ := hclosed
  obtain rfl := Option.some.inj (hc.symm.trans hc')
  exact absurd hopen (by simp [hclosed])

/-- The loop goes on behind an entry whose connection is closed. -/
theorem Kept.eraseClient (h : Kept s) {made : ℕ} {ahead ahead' : List Text}
    {client : Option Text} (hclosing : s.closing = .iterating made ahead client)
    (hlookup : s.connections.lookup name = some i) (hclosed : s.IsClosed i)
    (hahead' : ∀ name', name' ≠ name → name' ∈ ahead ∨ client = some name' → name' ∈ ahead') :
    Kept (s.eraseClient name made ahead') where
  inserted j c hc hopen hinserted := by
    have hj := h.inserted j c hc hopen hinserted
    have hne := h.name_ne hlookup hclosed hc hopen hinserted
    exact (@lookup_filter _ _ _ _ s.connections (· ≠ name) _ (by simpa using hne)).trans hj
  client _ _ _ hclosing' := nomatch hclosing'
  ahead _ _ _ hclosing' := by
    cases hclosing'
    obtain ⟨hle, hahead⟩ := h.ahead made ahead client hclosing
    refine ⟨hle, fun j c hj hc hopen hinserted => .inl ?_⟩
    exact hahead' c.name (h.name_ne hlookup hclosed hc hopen hinserted)
      (hahead j c hj hc hopen hinserted)
  returned _ hclosing' := nomatch hclosing'

theorem Kept.finish (h : Kept s) {made : ℕ} (hclosing : s.closing = .iterating made [] none) :
    Kept { s with closing := .returned made } where
  inserted := h.inserted
  client _ _ _ hclosing' := nomatch hclosing'
  ahead _ _ _ hclosing' := nomatch hclosing'
  returned k hk := by
    cases hk
    obtain ⟨hle, hahead⟩ := h.ahead made [] none hclosing
    refine ⟨hle, fun i c hi hc hopen hinserted => ?_⟩
    rcases hahead i c hi hc hopen hinserted with hmem | hclient
    · exact absurd hmem List.not_mem_nil
    · cases hclient

/-! ## Runs -/

structure Sound (s : ReplicaConnectionHandler) : Prop where
  account : Account s
  guarded : Guarded s
  kept : Kept s

theorem Sound.opened (others : List ℕ) (acceptingSocket : ℕ) :
    Sound (opened others acceptingSocket) where
  account := .opened others acceptingSocket
  guarded := ⟨fun _ h => absurd h List.not_mem_nil, fun _ h => absurd h List.not_mem_nil,
    fun _ _ h => absurd h List.not_mem_nil⟩
  kept := ⟨fun _ _ h => by simp [ReplicaConnectionHandler.opened] at h,
    fun _ _ _ h => (nomatch h), fun _ _ _ h => (nomatch h), fun _ h => (nomatch h)⟩

/-- What a step leaves of the table, the calls and the map, the accepting thread apart. -/
theorem Sound.accepting (h : Sound s) (acceptor : Acceptor) :
    Sound { s with acceptor := acceptor } :=
  ⟨h.account.frame, h.guarded.frame, h.kept.frame⟩

theorem Sound.insert (h : Sound s) (hfree : s.descriptor d = none) (name : Text) :
    Sound (s.insert name d) :=
  ⟨h.account.insert hfree name, h.guarded.insert name d, h.kept.insert name d⟩

theorem Sound.enter (h : Sound s) (ha : s.Alone (.enter call)) (hopen : s.IsOpen call.connection) :
    Sound { s with calls := s.calls ++ [call] } :=
  ⟨h.account.frame, h.guarded.enter hopen ha s.closing, h.kept.enter call⟩

theorem Sound.perform (h : Sound s) (hcall : call ∈ s.calls)
    (hc : s.made[call.connection]? = some c) : Sound (s.perform call c) := by
  obtain ⟨c', hc', hopen⟩ := h.guarded.isOpen call hcall
  obtain rfl := Option.some.inj (hc.symm.trans hc')
  exact ⟨h.account.perform hopen hc, h.guarded.perform h.account hcall hc, h.kept.perform hc⟩

theorem Sound.meet (h : Sound s) {place : Place}
    (hplace : ∀ ahead, place = .rehashed ahead → ¬ s.closing.iterates) :
    Sound (s.meet name place) := by
  refine ⟨?_, ?_, h.kept.meet hplace⟩
  · unfold ReplicaConnectionHandler.meet
    split
    · exact h.account.frame
    · exact h.account.frame
    · exact h.account
  · unfold ReplicaConnectionHandler.meet
    split
    · exact h.guarded.frame
    · exact h.guarded.frame
    · exact h.guarded

theorem Sound.descriptors (h : Sound s) {descriptor : ℕ → Option Endpoint} {lost : List ℕ}
    (haccount : Account { s with descriptor := descriptor, lost := lost }) :
    Sound { s with descriptor := descriptor, lost := lost } :=
  ⟨haccount, h.guarded.frame, h.kept.frame⟩

theorem Sound.connectTo {addressString : Text} {socket : Option ℕ} {result : Reached}
    {place : Place} (h : Sound s) (ha : s.Alone (.connectTo addressString socket result place))
    (hstep : s.step (.connectTo addressString socket result place) = some t) : Sound t := by
  cases socket with
  | none =>
    obtain ⟨-, ⟨⟩⟩ := Option.ite_none_right_eq_some.mp hstep
    exact h
  | some d =>
    obtain ⟨hfree, hstep⟩ := Option.ite_none_right_eq_some.mp hstep
    cases result with
    | connected =>
      dsimp only at hstep
      split_ifs at hstep
      · cases hstep
        refine (h.insert hfree addressString).meet fun ahead hplace => ?_
        subst hplace
        exact ha
      · cases hstep
        exact h.insert hfree addressString
    | refused | threw =>
      cases hstep
      exact h.descriptors (h.account.lose hfree)

/-- The `close` of the next connection begins, or is over at once. -/
theorem Sound.next (h : Sound s) (ha : s.Alone (.next name))
    (hstep : s.step (.next name) = some t) : Sound t := by
  simp only [ReplicaConnectionHandler.step] at hstep
  split at hstep
  case h_1 made ahead hclosing =>
    obtain ⟨-, hstep⟩ := Option.ite_none_right_eq_some.mp hstep
    obtain ⟨i, hi, hstep⟩ := Option.bind_eq_some_iff.mp hstep
    obtain ⟨c, hc, hstep⟩ := Option.bind_eq_some_iff.mp hstep
    split_ifs at hstep with hopen
    · cases hstep
      have hothers : ∀ other ∈ s.calls, other.connection ≠ i := by
        rintro other hother rfl
        exact ha other hother hi
      refine ⟨h.account.frame, ?_, h.kept.next hclosing hi⟩
      exact h.guarded.enter ⟨c, hc, hopen⟩
        (fun other hother hsame => absurd hsame (hothers other hother)) _
    · cases hstep
      refine ⟨h.account.frame, h.guarded.frame, h.kept.eraseClient hclosing hi
        ⟨c, hc, by simpa using hopen⟩ fun name' hne hmem => ?_⟩
      exact (List.mem_erase_of_ne hne).mpr (hmem.resolve_right (by simp))
  case h_2 => cases hstep

theorem Sound.erase (h : Sound s) (hstep : s.step .erase = some t) : Sound t := by
  simp only [ReplicaConnectionHandler.step] at hstep
  split at hstep
  case h_1 made ahead name hclosing =>
    obtain ⟨i, hi, hstep⟩ := Option.bind_eq_some_iff.mp hstep
    split_ifs at hstep with hcall
    cases hstep
    obtain ⟨i', hi', hor⟩ := h.kept.client made ahead name hclosing
    obtain rfl := Option.some.inj (hi.symm.trans hi')
    refine ⟨h.account.frame, h.guarded.frame, h.kept.eraseClient hclosing hi
      (hor.resolve_left hcall) fun name' hne hmem => ?_⟩
    exact hmem.resolve_right fun heq => hne (Option.some.inj heq).symm
  case h_2 => cases hstep

theorem Sound.finish (h : Sound s) (hstep : s.step .finish = some t) : Sound t := by
  simp only [ReplicaConnectionHandler.step] at hstep
  split at hstep
  case h_1 made hclosing =>
    cases hstep
    exact ⟨h.account.frame, h.guarded.frame, h.kept.finish hclosing⟩
  case h_2 => cases hstep

theorem Sound.step (h : Sound s) (ha : s.Alone e) (hstep : s.step e = some t) : Sound t := by
  cases e with
  | test =>
    simp only [ReplicaConnectionHandler.step, Option.ite_none_right_eq_some] at hstep
    obtain ⟨-, ⟨⟩⟩ := hstep
    exact h.accepting _
  | accept result =>
    simp only [ReplicaConnectionHandler.step, Option.ite_none_right_eq_some] at hstep
    obtain ⟨-, hstep⟩ := hstep
    match result with
    | none =>
      cases hstep
      exact h.accepting _
    | some (socket, name) =>
      obtain ⟨⟨-, hfree⟩, ⟨⟩⟩ := Option.ite_none_right_eq_some.mp hstep
      exact (h.insert hfree name).accepting _
  | connectTo addressString socket result place => exact h.connectTo ha hstep
  | enter call =>
    obtain ⟨-, hstep⟩ := Option.ite_none_right_eq_some.mp hstep
    obtain ⟨c, hc, rfl⟩ := Option.map_eq_some_iff.mp hstep
    split_ifs with hopen
    · exact h.enter ha ⟨c, hc, hopen⟩
    · exact h
  | perform call =>
    obtain ⟨hcall, hstep⟩ := Option.ite_none_right_eq_some.mp hstep
    obtain ⟨c, hc, rfl⟩ := Option.map_eq_some_iff.mp hstep
    exact h.perform hcall hc
  | close =>
    simp only [ReplicaConnectionHandler.step] at hstep
    split_ifs at hstep with hopen
    · cases hstep
      exact ⟨h.account.close hopen .joining, h.guarded.frame, h.kept.close false _⟩
    · cases hstep
      exact h
  | join =>
    obtain ⟨-, ⟨⟩⟩ := Option.ite_none_right_eq_some.mp hstep
    exact ⟨h.account.frame, h.guarded.frame, h.kept.join⟩
  | next name => exact h.next ha hstep
  | erase => exact h.erase hstep
  | finish => exact h.finish hstep
  | acquire socket =>
    obtain ⟨hfree, ⟨⟩⟩ := Option.ite_none_right_eq_some.mp hstep
    exact h.descriptors (h.account.others (.inl hfree) (.inr rfl))
  | release socket =>
    obtain ⟨hother, ⟨⟩⟩ := Option.ite_none_right_eq_some.mp hstep
    exact h.descriptors (h.account.others (.inr hother) (.inl rfl))

/-- Two overlapping `close` of one connection: the second one closes what has the descriptor by
then, and that connection passes for open without one. -/
theorem exists_used_other_stream : ∃ (s : ReplicaConnectionHandler) (c : Connection),
    Transition.Run step (fun _ _ => True) (opened [0, 1, 2] 3) s ∧
    (⟨0, .close⟩, some (.stream 1)) ∈ s.used ∧
    s.made[1]? = some c ∧ c.connectionOpen ∧ s.descriptor c.socket = none := by
  obtain ⟨s, hexec⟩ : ∃ s, Transition.exec step (fun _ _ => true)
    [.connectTo "h:1".toList (some 4) .connected .before, .enter ⟨0, .close⟩,
      .enter ⟨0, .close⟩, .perform ⟨0, .close⟩,
      .connectTo "h:2".toList (some 4) .connected .before, .perform ⟨0, .close⟩]
    (opened [0, 1, 2] 3) = some s := ⟨_, rfl⟩
  have hrun : Transition.Run step (fun _ _ => True) (opened [0, 1, 2] 3) s :=
    Transition.run_of_exec (fun _ _ _ => trivial) hexec
  cases hexec
  exact ⟨_, _, hrun, List.mem_cons_of_mem _ List.mem_cons_self, rfl, rfl, rfl⟩

end ReplicaConnectionHandler
end LeaderlessDatastore
