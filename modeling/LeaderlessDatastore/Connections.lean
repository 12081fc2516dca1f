import LeaderlessDatastore.Attempt

/-!
# The connections of a call

Which calls of `get`, `put` and `sync` leave a connection open on this side: all others end
with `closeConnections`, or with the loop of `connectToQuorum` that closes what it has.
-/

namespace LeaderlessDatastore
namespace Attempt

variable {settings : Settings Text} {env : Surroundings} {key value : Text} {quorum : ℤ}
  {a a' : Attempt} {result : Except Failure Unit}

/-- Every connection of the call is closed on this side. -/
def AllClosed (a : Attempt) : Prop := ∀ c ∈ a.dropped ++ a.quorum, c.connectionOpen = false

/-- `connectTo` throws when the loop has obtained a connection. -/
def Interrupted (env : Surroundings) (quorum : ℤ) : Prop :=
  ∃ c connections, obtained env quorum = .error (c :: connections)

/-- `get` has all its replies and a value, and one of its connections is still open. -/
def Repairs (settings : Settings Text) (env : Surroundings) (key : Text) (a : Attempt) : Prop :=
  ∃ connections, obtained env settings.readQuorum = .ok connections ∧
    connections.length = Coordinator.toSize (settings.readQuorum - 1) ∧
    1 + ((List.range connections.length).countP fun n => (env.receive n).returned : ℤ) =
      settings.readQuorum ∧
    (a.datastore.storedVersion key ≠ 0 ∨ a.values ≠ [] ∨ env.answers.filterMap entryOf ≠ []) ∧
    ∃ n < connections.length, (env.receive n).closed = false

theorem allClosed_nil (h : a.dropped = []) (hquorum : a.quorum = []) : AllClosed a := by
  simp [AllClosed, h, hquorum]

theorem allClosed_closeConnections (h : a.dropped = []) : AllClosed a.closeConnections := by
  simp [AllClosed, closeConnections, h]

theorem obtained_open {connections : List Outgoing}
    (h : obtained env quorum = .ok connections ∨ obtained env quorum = .error connections) :
    ∀ c ∈ connections, c.connectionOpen :=
  connectLoop_open (by simp) h

/-- The exits of `connectToQuorum`. -/
theorem connectToQuorum_cases (env : Surroundings) (quorum : ℤ) (safe : Bool)
    (hdropped : a.dropped = []) :
    (∃ connections, obtained env quorum = .error connections ∧
      a.connectToQuorum env quorum safe =
        (.error .connectTo, { a with dropped := connections })) ∨
    (∃ connections, obtained env quorum = .ok connections ∧ safe ∧
      connections.length ≠ Coordinator.toSize (quorum - 1) ∧
      a.connectToQuorum env quorum safe =
        (.ok (), { a with quorum := [], dropped := connections.map Outgoing.close })) ∨
    ∃ connections, obtained env quorum = .ok connections ∧
      (safe → connections.length = Coordinator.toSize (quorum - 1)) ∧
      a.connectToQuorum env quorum safe = (.ok (), { a with quorum := connections }) := by
  unfold connectToQuorum
  cases hobtained : obtained env quorum with
  | error connections => exact .inl ⟨connections, rfl, by simp [hdropped]⟩
  | ok connections =>
    by_cases hsafe : safe ∧ connections.length ≠ Coordinator.toSize (quorum - 1)
    · exact .inr (.inl ⟨connections, rfl, hsafe.1, hsafe.2, by simp [hsafe, hdropped]⟩)
    · refine .inr (.inr ⟨connections, rfl, fun h => ?_, by simp [if_neg hsafe]⟩)
      by_contra hne
      exact hsafe ⟨h, hne⟩

theorem not_interrupted {connections : List Outgoing}
    (h : obtained env quorum = .ok connections) : ¬ Interrupted env quorum := by
  rintro ⟨c, connections', h'⟩
  cases h.symm.trans h'

/-- What is obtained before `connectTo` throws stays open. -/
theorem allClosed_dropped_iff {connections : List Outgoing} (hquorum : a.quorum = [])
    (h : obtained env quorum = .error connections) :
    AllClosed { a with dropped := connections } ↔ ¬ Interrupted env quorum := by
  have hopen := obtained_open (.inr h)
  cases connections with
  | nil =>
    refine iff_of_true (by simp [AllClosed, hquorum]) ?_
    rintro ⟨c, connections, h'⟩
    cases h.symm.trans h'
  | cons c connections =>
    refine iff_of_false (fun hclosed => ?_) (not_not.mpr ⟨c, connections, h⟩)
    have hc := hclosed c (by simp)
    rw [hopen c (by simp)] at hc
    cases hc

theorem allClosed_abortWith {failure : Failure} (h : AllClosed a) :
    AllClosed (a.abortWith key failure).2 := by
  unfold abortWith
  split <;> exact h

theorem exchange_dropped (env : Surroundings) (message : Message Text Text) (a : Attempt) :
    (a.exchange env message).dropped = a.dropped := by
  obtain ⟨version, hversion⟩ := exists_exchange env message a
  rw [hversion]

theorem putTo_allClosed (hdropped : a.dropped = []) :
    AllClosed (a.putTo settings env key value).2 := by
  have hexchange := exchange_dropped env (.prepare a.uid key value) a
  unfold putTo
  dsimp only
  split_ifs
  · exact allClosed_abortWith (allClosed_closeConnections (hexchange.trans hdropped))
  · exact allClosed_abortWith (allClosed_closeConnections (hexchange.trans hdropped))
  · exact allClosed_closeConnections (hexchange.trans hdropped)

theorem allClosed_map_close {connections : List Outgoing}
    (h : a.dropped = connections.map Outgoing.close) (hquorum : a.quorum = []) : AllClosed a := by
  intro c hc
  rw [h, hquorum, List.append_nil] at hc
  obtain ⟨c, -, rfl⟩ := List.mem_map.mp hc
  rfl

theorem put_allClosed_iff (hquorum : a.quorum = []) (hdropped : a.dropped = []) :
    AllClosed (a.put settings env key value).2 ↔
      ¬ (a.datastore.owner2pc key = none ∧ Interrupted env settings.writeQuorum) := by
  unfold put
  cases hprepare : a.datastore.prepare key a.uid with
  | none =>
    have hlocked : a.datastore.owner2pc key ≠ none := fun h =>
      DatastoreManager.prepare_ne_none h hprepare
    simp only [hprepare]
    exact iff_of_true (allClosed_nil hdropped hquorum) fun h => hlocked h.1
  | some prepared =>
    obtain ⟨datastore, version⟩ := prepared
    have hfree := (DatastoreManager.prepare_eq_some hprepare).1
    simp only [hprepare, hfree, true_and]
    rcases connectToQuorum_cases (a := { a with abort := false }.vote datastore version) env
        settings.writeQuorum true hdropped with ⟨connections, hobtained, heq⟩ |
      ⟨connections, hobtained, -, -, heq⟩ | ⟨connections, hobtained, -, heq⟩
    · rw [heq]
      exact allClosed_dropped_iff hquorum hobtained
    · simp only [heq, List.isEmpty_nil, if_true]
      exact iff_of_true (allClosed_abortWith (allClosed_map_close rfl rfl))
        (not_interrupted hobtained)
    · simp only [heq]
      refine iff_of_true ?_ (not_interrupted hobtained)
      split_ifs with hempty
      · exact allClosed_abortWith (allClosed_nil hdropped (List.isEmpty_iff.mp hempty))
      · exact putTo_allClosed hdropped

theorem getFrom_allClosed_iff (hdropped : a.dropped = [])
    (hopen : ∀ c ∈ a.quorum, c.connectionOpen) :
    AllClosed (a.getFrom settings env key).2 ↔
      ¬ (a.replies + ((List.range a.quorum.length).countP fun n => (env.receive n).returned : ℤ) =
          settings.readQuorum ∧ a.values ++ env.answers.filterMap entryOf ≠ [] ∧
        ∃ n < a.quorum.length, (env.receive n).closed = false) := by
  obtain ⟨version, hversion⟩ := exists_exchange env (.fetch key) a
  unfold getFrom
  rw [hversion]
  dsimp only
  split_ifs with hreplies
  · exact iff_of_true (allClosed_closeConnections hdropped) fun h => hreplies h.1
  · rw [not_not] at hreplies
    cases hlatest : Coordinator.getLatestValue (a.values ++ env.answers.filterMap entryOf) with
    | none =>
      have hnone := Coordinator.getLatestValue_eq_none.mp hlatest
      exact iff_of_true (allClosed_closeConnections hdropped) fun h => h.2.1 hnone
    | some latest =>
      have hsome : a.values ++ env.answers.filterMap entryOf ≠ [] := fun h => by
        rw [Coordinator.getLatestValue_eq_none.mpr h] at hlatest
        cases hlatest
      simp only [hreplies, hsome, ne_eq, not_false_eq_true, true_and]
      -- after the `REPAIR`s a connection is as open as the exchange has left it
      constructor
      · rintro hclosed ⟨n, hn, hnot⟩
        have hc := hclosed ((a.quorum[n].send (.fetch key)).send
          (.repair key latest.1 latest.2)) (by
          simp only [sendToReplicas, answer, hdropped, List.nil_append, List.mem_map]
          exact ⟨_, List.mem_mapIdx.mpr ⟨n, hn, rfl⟩, by simp [hnot]⟩)
        rw [Outgoing.send_connectionOpen, Outgoing.send_connectionOpen,
          hopen _ (List.getElem_mem hn)] at hc
        cases hc
      · intro hclosed c hc
        simp only [sendToReplicas, answer, hdropped, List.nil_append, List.mem_map] at hc
        obtain ⟨c, hc, rfl⟩ := hc
        obtain ⟨n, hn, rfl⟩ := List.mem_mapIdx.mp hc
        have hn' : (env.receive n).closed = true := by
          by_contra hne
          exact hclosed ⟨n, hn, by simpa using hne⟩
        simp [hn']

theorem values_ne_nil {entry : Text × ℤ} (found : List (Text × ℤ)) :
    (a.read entry).values ++ found ≠ [] ↔ entry.2 ≠ 0 ∨ a.values ≠ [] ∨ found ≠ [] := by
  unfold read
  split_ifs with hentry
  · simp [hentry]
  · simp only [hentry, false_or, ne_eq, List.append_eq_nil_iff]
    tauto

/-- `get` leaves nothing open exactly when no `connectTo` throws in the middle and it does not
go on to the `REPAIR`s. -/
theorem get_allClosed_iff (hquorum : a.quorum = []) (hdropped : a.dropped = [])
    (hget : a.get settings env key = some (result, a')) :
    AllClosed a' ↔ ¬ Interrupted env settings.readQuorum ∧ ¬ Repairs settings env key a := by
  obtain ⟨entry, hentry, hresult⟩ := Option.map_eq_some_iff.mp hget
  obtain ⟨-, hversion, -⟩ := DatastoreManager.get_eq_some hentry
  rcases connectToQuorum_cases (a := a.read entry) env settings.readQuorum true hdropped with
    ⟨connections, hobtained, heq⟩ | ⟨connections, hobtained, -, hne, heq⟩ |
    ⟨connections, hobtained, hwanted, heq⟩
  · -- `connectTo` has thrown
    have hnot : ¬ Repairs settings env key a := by
      rintro ⟨connections', hobtained', -⟩
      cases hobtained.symm.trans hobtained'
    simp only [heq] at hresult
    cases hresult
    have hread : (a.read entry).quorum = [] := hquorum
    rw [allClosed_dropped_iff hread hobtained]
    exact (and_iff_left hnot).symm
  · -- too few connections, all of them closed
    have hnot : ¬ Repairs settings env key a := by
      rintro ⟨connections', hobtained', hlength, -⟩
      cases hobtained.symm.trans hobtained'
      exact hne hlength
    simp only [heq, List.isEmpty_nil, if_true] at hresult
    cases hresult
    exact iff_of_true (allClosed_map_close rfl rfl) ⟨not_interrupted hobtained, hnot⟩
  · have hrepairs : Repairs settings env key a ↔
        1 + ((List.range connections.length).countP fun n => (env.receive n).returned : ℤ) =
          settings.readQuorum ∧ (a.read entry).values ++ env.answers.filterMap entryOf ≠ [] ∧
        ∃ n < connections.length, (env.receive n).closed = false := by
      rw [values_ne_nil, hversion]
      constructor
      · rintro ⟨connections', hobtained', -, h⟩
        cases hobtained.symm.trans hobtained'
        exact h
      · exact fun h => ⟨connections, hobtained, hwanted rfl, h⟩
    rw [hrepairs, and_iff_right (not_interrupted hobtained)]
    simp only [heq] at hresult
    split_ifs at hresult with hempty
    · cases hresult
      refine iff_of_true (allClosed_nil hdropped (List.isEmpty_iff.mp hempty)) ?_
      rintro ⟨-, -, n, hn, -⟩
      rw [List.isEmpty_iff.mp hempty] at hn
      cases hn
    · have hclosed : AllClosed (getFrom settings env key { a.read entry with
          quorum := connections }).2 ↔ _ :=
        getFrom_allClosed_iff hdropped (obtained_open (.inl hobtained))
      rw [hresult] at hclosed
      exact hclosed

/-- `sync` is interrupted or closes what it has. -/
theorem sync_allClosed_iff (hquorum : a.quorum = []) (hdropped : a.dropped = []) :
    AllClosed (a.sync settings env).2 ↔
      ¬ Interrupted env (castInt settings.replicaAddresses.length) := by
  unfold sync
  rcases connectToQuorum_cases (a := a) env (castInt settings.replicaAddresses.length) false
      hdropped with ⟨connections, hobtained, heq⟩ | ⟨connections, hobtained, hsafe, -⟩ |
    ⟨connections, hobtained, -, heq⟩
  · rw [heq]
    exact allClosed_dropped_iff hquorum hobtained
  · cases hsafe
  · rw [heq]
    exact iff_of_true (allClosed_closeConnections ((exchange_dropped _ _ _).trans hdropped))
      (not_interrupted hobtained)

/-! ## All three calls -/

inductive Call where
  | get (key : Text)
  | put (key value : Text)
  | sync

/-- `none` while the call is not over. -/
def run (settings : Settings Text) (env : Surroundings) (a : Attempt) :
    Call → Option (Except Failure Unit × Attempt)
  | .get key => a.get settings env key
  | .put key value => some (a.put settings env key value)
  | .sync => some (a.sync settings env)

/-- The quorum with which the call uses `connectToQuorum`, if it comes to it. -/
def wants (settings : Settings Text) (a : Attempt) : Call → Option ℤ
  | .get _ => some settings.readQuorum
  | .put key _ => if (a.datastore.owner2pc key).isSome then none else some settings.writeQuorum
  | .sync => some (castInt settings.replicaAddresses.length)

/-- A call that is over has closed all its connections exactly when no `connectTo` threw after
another had succeeded and it was no `get` that came to its `REPAIR`s with an open connection. -/
theorem allClosed_iff {call : Call} (hquorum : a.quorum = []) (hdropped : a.dropped = [])
    (h : a.run settings env call = some (result, a')) :
    AllClosed a' ↔ (∀ quorum ∈ a.wants settings call, ¬ Interrupted env quorum) ∧
      ∀ key, call = .get key → ¬ Repairs settings env key a := by
  cases call with
  | get key =>
    rw [get_allClosed_iff hquorum hdropped h]
    simp [wants]
  | put key value =>
    have ha' : a' = (a.put settings env key value).2 := congrArg Prod.snd (Option.some.inj h).symm
    rw [ha', put_allClosed_iff hquorum hdropped]
    cases howner : a.datastore.owner2pc key <;> simp [wants, howner]
  | sync =>
    have ha' : a' = (a.sync settings env).2 := congrArg Prod.snd (Option.some.inj h).symm
    rw [ha', sync_allClosed_iff hquorum hdropped]
    simp [wants]

/-! ## Two replicas -/

/-- The other replica is reached and answers. -/
def reached (answers : List (Message Text Text)) : Surroundings where
  shuffled := ["h:1".toList]
  connectTo := fun _ => .connected
  receive := fun _ => {}
  answers := answers

def pair : Settings Text := ⟨["h:1".toList], 2, 2, 2⟩

/-- A put that is committed. -/
theorem allClosed_iff_committed : ∃ a',
    run pair (reached [.voteCommit 0 "k".toList 0]) { datastore := .empty, uid := 0 }
      (.put "k".toList "v".toList) = some (.ok (), a') ∧ AllClosed a' := by
  obtain ⟨a', hrun⟩ : ∃ a', run pair (reached [.voteCommit 0 "k".toList 0])
    { datastore := .empty, uid := 0 } (.put "k".toList "v".toList) = some (.ok (), a') := ⟨_, rfl⟩
  refine ⟨a', hrun, (allClosed_iff rfl rfl hrun).mpr ⟨?_, nofun⟩⟩
  rintro quorum hquorum
  cases hquorum
  exact not_interrupted (show obtained _ 2 = .ok [{ name := "h:1".toList }] from rfl)

/-- A get that finds a value keeps its connection. -/
theorem get_leaves_open : ∃ a',
    run pair (reached [.fetchedValue "k".toList (some ("v".toList, 1))])
      { datastore := .empty, uid := 0 } (.get "k".toList) = some (.ok (), a') ∧
        ¬ AllClosed a' := by
  refine ⟨_, rfl, fun h => ?_⟩
  cases h _ List.mem_cons_self

end Attempt
end LeaderlessDatastore
