import LeaderlessDatastore.Attempt
import LeaderlessDatastore.Configuration

/-!
# Which replicas a quorum consists of

`connectToQuorum` over `connectTo`, with the addresses that are tried.
-/

namespace LeaderlessDatastore

/-- What the operating system does for `connectTo`. -/
structure Network where
  /-- whether `::socket` gives one when the address is tried -/
  socket : Text → Bool
  gethostbyname : Text → Option ℕ
  /-- `::connect` to a host and a port -/
  connect : ℕ → ℕ → Bool

namespace Network

/-- `htons` takes 16 bits of the `int`. -/
def portNumber (port : ℤ) : ℕ := (port % 2 ^ 16).toNat

/-- `ReplicaConnectionHandler::connectTo` -/
def connectTo (net : Network) (address : Text) : Reached :=
  if net.socket address then
    match net.gethostbyname (address.takeWhile (· ≠ ':')) with
    | none => .refused
    | some host =>
      match Text.stoi (ServerConfig.afterColon address) with
      | .ok port => if net.connect host (portNumber port) then .connected else .refused
      | .error _ => .threw
  else .refused

/-- The loop of `connectToQuorum`, with the addresses that it hands to `connectTo`. -/
def selectLoop (net : Network) (wanted : ℕ) : List Outgoing → List Text →
    List Text × Except (List Outgoing) (List Outgoing)
  | connections, [] => ([], .ok connections)
  | connections, address :: addresses =>
    if connections.length < wanted then
      match net.connectTo address with
      | .connected =>
        let (tried, result) :=
          selectLoop net wanted (connections ++ [{ name := address }]) addresses
        (address :: tried, result)
      | .refused =>
        let (tried, result) := selectLoop net wanted connections addresses
        (address :: tried, result)
      | .threw => ([address], .error connections)
    else ([], .ok connections)

/-- The addresses tried for a quorum, from the back of the shuffled ones. -/
def tried (net : Network) (shuffled : List Text) (quorum : ℤ) : List Text :=
  (net.selectLoop (Coordinator.toSize (quorum - 1)) [] shuffled.reverse).1

/-- The surroundings of a call whose connections this network makes. -/
def surroundings (net : Network) (shuffled : List Text) : Surroundings where
  shuffled := shuffled
  connectTo n := (shuffled.reverse[n]?).elim .refused net.connectTo
  receive _ := {}

variable {net : Network} {wanted : ℕ} {connections : List Outgoing} {addresses : List Text}

/-- Apart from the tried addresses the loop is the one of the attempt. -/
theorem selectLoop_snd {connectTo : ℕ → Reached} {n : ℕ}
    (h : ∀ i (hi : i < addresses.length), connectTo (n + i) = net.connectTo addresses[i]) :
    (net.selectLoop wanted connections addresses).2 =
      Attempt.connectLoop connectTo wanted n connections addresses := by
  induction addresses generalizing n connections with
  | nil => rfl
  | cons address addresses ih =>
    obtain ⟨hfirst, hrest⟩ := Attempt.calls_cons h
    rw [selectLoop, Attempt.connectLoop, hfirst]
    split_ifs with hlt
    · cases net.connectTo address with
      | connected => exact ih hrest
      | refused => exact ih hrest
      | threw => rfl
    · rfl

/-- The addresses are tried in order, none of them twice. -/
theorem selectLoop_front : (net.selectLoop wanted connections addresses).1 <+: addresses := by
  induction addresses generalizing connections with
  | nil => exact List.nil_prefix
  | cons address addresses ih =>
    rw [selectLoop]
    split_ifs with hlt
    · cases net.connectTo address with
      | connected => exact List.cons_prefix_cons.mpr ⟨rfl, ih⟩
      | refused => exact List.cons_prefix_cons.mpr ⟨rfl, ih⟩
      | threw => exact List.cons_prefix_cons.mpr ⟨rfl, List.nil_prefix⟩
    · exact List.nil_prefix

/-- `connectTo` gives a connection to the reachable addresses and `nullopt` for the others. -/
def Reaches (net : Network) (addresses : List Text) (reachable : Text → Bool) : Prop :=
  ∀ address ∈ addresses, net.connectTo address = if reachable address then .connected else .refused

/-- An address with a port is reachable or not; `stoi` does not throw. -/
theorem reaches_of_port (net : Network) {addresses : List Text}
    (h : ∀ address ∈ addresses, ∃ port,
      Text.stoi (ServerConfig.afterColon address) = .ok port) :
    net.Reaches addresses fun address => net.connectTo address = .connected := by
  intro address haddress
  obtain ⟨port, hport⟩ := h address haddress
  have hreturns : net.connectTo address ≠ .threw := by
    unfold connectTo
    rw [hport]
    split_ifs
    · cases net.gethostbyname (address.takeWhile (· ≠ ':')) with
      | none => simp
      | some host => cases hconnect : net.connect host (portNumber port) <;> simp [hconnect]
    · simp
  cases hconnect : net.connectTo address <;> simp_all

/-- Connected are the reachable ones among the tried addresses. -/
theorem selectLoop_ok {reachable : Text → Bool} (h : net.Reaches addresses reachable) :
    ∃ obtained, (net.selectLoop wanted connections addresses).2 = .ok obtained ∧
      obtained.map Outgoing.name = connections.map Outgoing.name ++
        (net.selectLoop wanted connections addresses).1.filter reachable := by
  induction addresses generalizing connections with
  | nil => exact ⟨connections, rfl, by simp [selectLoop]⟩
  | cons address addresses ih =>
    have hrest : net.Reaches addresses reachable := fun a ha => h a (List.mem_cons_of_mem _ ha)
    rw [selectLoop, h address List.mem_cons_self]
    split_ifs with hlt hreaches
    · obtain ⟨obtained, hok, hnames⟩ := ih hrest
      exact ⟨obtained, hok, by simp [hnames, hreaches]⟩
    · obtain ⟨obtained, hok, hnames⟩ := ih hrest
      exact ⟨obtained, hok, by simp [hnames, hreaches]⟩
    · exact ⟨connections, rfl, by simp⟩

/-! ## The selected replicas -/

/-- What `connectToQuorum` makes of the listed addresses: `returned` and `closed` are the
connections it has opened. -/
structure Selects (addresses : List Text) (reachable : Text → Bool) (quorum : ℤ) (safe : Bool)
    (tried : List Text) (returned closed : List Outgoing) : Prop where
  once : tried.Nodup
  listed : ∀ address ∈ tried, address ∈ addresses
  opened : returned.map Outgoing.name ++ closed.map Outgoing.name = tried.filter reachable
  returned_open : ∀ c ∈ returned, c.connectionOpen = true
  closed_closed : ∀ c ∈ closed, c.connectionOpen = false
  distinct : (returned.map Outgoing.name).Nodup
  members : ∀ c ∈ returned, c.name ∈ addresses ∧ reachable c.name = true
  unsafe_count : safe = false →
    (returned.length : ℤ) = min (quorum - 1) (addresses.filter reachable).length
  safe_count : safe = true → quorum - 1 ≤ (addresses.filter reachable).length →
    (returned.length : ℤ) = quorum - 1
  safe_none : safe = true → ¬ quorum - 1 ≤ (addresses.filter reachable).length → returned = []

/-- The loop for a quorum, over any order of the addresses. -/
theorem obtained_spec (net : Network) {shuffled : List Text} (hdistinct : addresses.Nodup)
    (hshuffled : shuffled.Perm addresses) {reachable : Text → Bool}
    (h : net.Reaches addresses reachable) (quorum : ℤ) :
    ∃ obtained, Attempt.obtained (net.surroundings shuffled) quorum = .ok obtained ∧
      obtained.map Outgoing.name = (net.tried shuffled quorum).filter reachable ∧
      (net.tried shuffled quorum).Nodup ∧
      (∀ address ∈ net.tried shuffled quorum, address ∈ addresses) ∧
      obtained.length =
        min (Coordinator.toSize (quorum - 1)) (addresses.filter reachable).length := by
  have hperm : shuffled.reverse.Perm addresses := shuffled.reverse_perm.trans hshuffled
  have hfront : net.tried shuffled quorum <+: shuffled.reverse := selectLoop_front
  have hreaches : net.Reaches shuffled.reverse reachable := fun address ha =>
    h address (hperm.mem_iff.mp ha)
  have hconnect : ∀ i (hi : i < shuffled.reverse.length),
      (net.surroundings shuffled).connectTo (0 + i) = net.connectTo shuffled.reverse[i] := by
    intro i hi
    simp only [surroundings, Nat.zero_add, List.getElem?_eq_getElem hi, Option.elim_some]
  obtain ⟨obtained, hok, hnames⟩ := selectLoop_ok hreaches
  have hloop : Attempt.obtained (net.surroundings shuffled) quorum = .ok obtained :=
    (selectLoop_snd hconnect).symm.trans hok
  -- the names are those of the coordinator's own loop
  have hmap : (Attempt.obtained (net.surroundings shuffled) quorum).map (List.map Outgoing.name) =
      .ok (Coordinator.connectLoop reachable (Coordinator.toSize (quorum - 1)) []
        shuffled.reverse) :=
    Attempt.connectLoop_eq_map reachable [] List.map_nil fun i hi =>
      (hconnect i hi).trans (hreaches _ (List.getElem_mem hi))
  rw [hloop, Coordinator.connectLoop_eq _ _ _ _ (Nat.zero_le _)] at hmap
  have hlength := congrArg List.length (Except.ok.inj hmap)
  refine ⟨obtained, hloop, hnames, hfront.sublist.nodup (hperm.nodup_iff.mpr hdistinct),
    fun address ha => hperm.mem_iff.mp (hfront.subset ha), ?_⟩
  simpa [(hshuffled.filter reachable).length_eq] using hlength

/-- Every quorum of a call consists of distinct reachable replicas, as many as it takes or, when
it need not be complete, as there are. -/
theorem connectToQuorum_selects (net : Network) {addresses shuffled : List Text}
    (hdistinct : addresses.Nodup) (hshuffled : shuffled.Perm addresses)
    {reachable : Text → Bool} (h : net.Reaches addresses reachable) {quorum : ℤ}
    (hpos : 1 ≤ quorum) (hint : quorum < 2 ^ 31) (safe : Bool) (a : Attempt) :
    ∃ returned closed,
      a.connectToQuorum (net.surroundings shuffled) quorum safe =
        (.ok (), { a with quorum := returned, dropped := a.dropped ++ closed }) ∧
      Selects addresses reachable quorum safe (net.tried shuffled quorum) returned closed := by
  obtain ⟨obtained, hok, hnames, honce, hlisted, hlength⟩ :=
    net.obtained_spec hdistinct hshuffled h quorum
  have hwanted : (Coordinator.toSize (quorum - 1) : ℤ) = quorum - 1 := by
    unfold Coordinator.toSize
    omega
  have hopen : ∀ c ∈ obtained, c.connectionOpen := Attempt.connectLoop_open (by simp) (.inl hok)
  have hdistinct' : (obtained.map Outgoing.name).Nodup := hnames ▸ honce.filter _
  have hreachable : ∀ c ∈ obtained, c.name ∈ addresses ∧ reachable c.name = true := by
    intro c hc
    have hmem : c.name ∈ (net.tried shuffled quorum).filter reachable :=
      hnames ▸ List.mem_map_of_mem hc
    exact ⟨hlisted _ (List.mem_of_mem_filter hmem), (List.mem_filter.mp hmem).2⟩
  by_cases hfew : safe ∧ obtained.length ≠ Coordinator.toSize (quorum - 1)
  · refine ⟨[], obtained.map Outgoing.close, by simp [Attempt.connectToQuorum, hok, hfew], ?_⟩
    refine ⟨honce, hlisted, ?_, by simp, by simp, by simp, by simp, by simp [hfew.1], ?_,
      fun _ _ => rfl⟩
    · rw [← hnames]
      simp [Outgoing.close]
    · intro _ hle
      omega
  · refine ⟨obtained, [], by simp [Attempt.connectToQuorum, hok, hfew], ?_⟩
    refine ⟨honce, hlisted, by simpa using hnames, hopen, by simp, hdistinct', hreachable, ?_, ?_,
      ?_⟩
    · intro _
      omega
    · intro _ hle
      omega
    · intro hsafe hle
      exact absurd (by omega) (fun h => hfew ⟨hsafe, h⟩)

/-- Three addresses, the one in the middle unreachable, and a quorum of two others. -/
theorem connectToQuorum_selects_two :
    let net : Network := ⟨fun _ => true, fun _ => some 1, fun _ port => port ≠ 2⟩
    let addresses := ["a:1".toList, "b:2".toList, "c:3".toList]
    ∃ returned closed, Attempt.connectToQuorum (net.surroundings addresses) 3 true
        { datastore := .empty, uid := 0 } =
      (.ok (), { datastore := .empty, uid := 0, quorum := returned, dropped := closed }) ∧
      returned.length = 2 := by
  intro net addresses
  have hports : ∀ address ∈ addresses, ∃ port,
      Text.stoi (ServerConfig.afterColon address) = .ok port := by
    simp only [addresses, List.forall_mem_cons, List.not_mem_nil, false_implies, implies_true,
      and_true]
    exact ⟨⟨1, by decide⟩, ⟨2, by decide⟩, 3, by decide⟩
  obtain ⟨returned, closed, hvalue, hselects⟩ := connectToQuorum_selects net
    (by decide : addresses.Nodup) (List.Perm.refl _) (net.reaches_of_port hports)
    (show (1 : ℤ) ≤ 3 by decide) (by decide) true { datastore := .empty, uid := 0 }
  have hreached : (addresses.filter fun address => net.connectTo address = .connected).length =
      2 := by decide +kernel
  have hlength := hselects.safe_count rfl (by rw [hreached]; decide)
  exact ⟨returned, closed, by simpa using hvalue, by omega⟩

end Network
end LeaderlessDatastore
