import LeaderlessDatastore.DatastoreFile
import LeaderlessDatastore.Numbering
import LeaderlessDatastore.Rejoining
import LeaderlessDatastore.Synchronisation

/-!
# Restarts

The cluster together with the files that its replicas keep.  A replica may be shut down
and started again while nothing is going on: the constructor of `Replica` loads the file
and `start` runs `sync`.  If the file has been written since the last change, clients do not
notice.
-/

namespace LeaderlessDatastore

open Function

namespace StartUp

variable {Peer Key Value : Type} [DecidableEq Peer] [DecidableEq Key]
  [DecidableEq Value] {arrived : Peer → List (Key × Value × ℤ)}
  {s t : StartUp Peer Key Value} {e : Event Peer Key Value}

/-- `sync` locks nothing. -/
theorem step_owner2pc (h : step arrived s e = some t) : t.ds.owner2pc = s.ds.owner2pc := by
  obtain ⟨p, -, rfl⟩ | ⟨p, _, -, -, rfl⟩ | ⟨p, key, value, version, rest, -, rfl⟩ := step_cases h
  · rfl
  · rfl
  · exact DatastoreManager.tryUpdate_owner2pc s.ds key value version

theorem Run.owner2pc (h : Run arrived s t) : t.ds.owner2pc = s.ds.owner2pc :=
  Transition.Run.preserves (P := fun u => u.ds.owner2pc = s.ds.owner2pc)
    (fun _ _ _ hs _ hstep => (step_owner2pc hstep).trans hs) h rfl

end StartUp

structure Deployed (n : ℕ) where
  cluster : Cluster n Text Text
  /-- the file at `path` of each replica -/
  file : Fin n → Text

namespace Deployed

variable {n : ℕ}

inductive Event (n : ℕ) where
  | act (e : Cluster.Event n Text Text)
  /-- the dump thread of `x` writes its entries, in this order -/
  | dump (x : Fin n) (localDatastore : Entries Text Text)
  /-- `x` has been shut down and started again; `ds` is its datastore after `sync`, in which the
  `SYNC`s and the answers have come in these chunks -/
  | restart (x : Fin n) (loadDatastoreFromFile : Bool) (asking incoming : Fin n → List Text)
    (ds : DatastoreManager Text Text)

def step (config : Fin n → Settings (Fin n)) (s : Deployed n) : Event n → Option (Deployed n)
  | .act e => (s.cluster.step config e).map fun cluster => { s with cluster := cluster }
  | .dump x localDatastore =>
    some { s with file := update s.file x (DatastoreManager.dump localDatastore) }
  | .restart x _ _ _ ds => some { s with cluster := s.cluster.rejoin config x ds }

/-- What the new process can have once `start` returns: the datastore is initialised, loaded if
it is to be, and synchronised with the others. -/
def Starts (config : Fin n → Settings (Fin n)) (s : Deployed n) (x : Fin n)
    (loadDatastoreFromFile : Bool) (asking incoming : Fin n → List Text)
    (ds : DatastoreManager Text Text) : Prop :=
  ∃ (loaded : DatastoreManager Text Text) (start : Entries Text Text)
    (contents : Fin n → Entries Text Text) (shuffled : List (Fin n))
    (t : StartUp (Fin n) Text Text),
    (if loadDatastoreFromFile then DatastoreManager.load .empty (s.file x) = .ok loaded
      else loaded = .empty) ∧
    (∀ key, start.lookup key = loaded.datastore key) ∧
    (∀ y key, (contents y).lookup key = (s.cluster.datastore y).datastore key) ∧
    shuffled.Perm (config x).replicaAddresses ∧
    StartUp.Answered start contents (Coordinator.syncQuorum shuffled) asking incoming ∧
    StartUp.Run (StartUp.arrivedIn ∘ incoming) (.initial start shuffled) t ∧ t.Returned ∧ t.ds = ds

/-- An entry that comes from a `PUT` and is told apart from what stands around it, in a line of the
file as in an `UPDATE`. -/
structure Separable (key value : Text) : Prop where
  storable : Storable key value
  splitsKey : ¬ SplitsKey key
  splitsValue : ¬ SplitsValue value
  key : WellFormed key
  value : WellFormed value

/-- The file holds the entries, as `close` leaves it. -/
def Saved (s : Deployed n) (x : Fin n) : Prop :=
  ∃ localDatastore : Entries Text Text, s.file x = DatastoreManager.dump localDatastore ∧
    ∀ key, localDatastore.lookup key = (s.cluster.datastore x).datastore key

/-- Replicas are restarted while nothing is going on. -/
def Feasible (config : Fin n → Settings (Fin n)) (s : Deployed n) : Event n → Prop
  | .act e => Cluster.Agreed s.cluster e
  | .dump x localDatastore =>
    ∀ key, localDatastore.lookup key = (s.cluster.datastore x).datastore key
  | .restart x loadDatastoreFromFile asking incoming ds =>
    s.cluster.Quiet ∧ s.Starts config x loadDatastoreFromFile asking incoming ds

/-- And they are restarted from what they had stored, with every entry of the cluster separable and
every answer whole or lost. -/
def Orderly (config : Fin n → Settings (Fin n)) (s : Deployed n) (e : Event n) : Prop :=
  s.Feasible config e ∧ ∀ x loadDatastoreFromFile asking incoming ds,
    e = .restart x loadDatastoreFromFile asking incoming ds →
      loadDatastoreFromFile = true ∧ s.Saved x ∧
      (∀ y key entry, (s.cluster.datastore y).datastore key = some entry →
        Separable key entry.1) ∧
      ∀ y, Connection.InTwo (incoming y) ∨ StartUp.arrivedIn (incoming y) = []

variable {config : Fin n → Settings (Fin n)} {s t : Deployed n} {e : Event n}

variable {readQuorum writeQuorum : ℤ} {state : ℕ → Deployed n} {length : ℕ}

theorem orderly_of_feasible (h : s.Feasible config e)
    (hrestart : ∀ x loads asking incoming ds, e ≠ .restart x loads asking incoming ds) :
    s.Orderly config e :=
  ⟨h, fun x loads asking incoming ds he => absurd he (hrestart x loads asking incoming ds)⟩

theorem run_act {c c' : Cluster n Text Text} (h : Cluster.Run config Cluster.Agreed c c')
    (file : Fin n → Text) :
    Transition.Run (step config) (Orderly config) ⟨c, file⟩ ⟨c', file⟩ := by
  induction h with
  | refl => exact .refl _
  | @tail t u e _ he hstep ih =>
    have horderly : Orderly config ⟨t, file⟩ (.act e) := orderly_of_feasible he (by simp)
    exact ih.tail horderly (by rw [step, hstep, Option.map_some])

theorem datastore_eq_none {c : Cluster n Text Text} (hs : Cluster.Good config c) {x : Fin n}
    {ca : Fin n × ℕ} (hother : ∀ cb, cb ≠ ca → c.attempt cb = none) {key key' : Text}
    (hkey : ∃ co, c.attempt ca = some co ∧ co.key = key) (hne : key' ≠ key) :
    (c.datastore x).datastore key' = none := by
  by_contra hstored
  obtain ⟨entry, hentry⟩ := Option.ne_none_iff_exists'.mp hstored
  obtain ⟨cb, put, hput, -, hkey', -⟩ := hs.sourced.stored x key' entry hentry
  obtain ⟨co, hco, rfl⟩ := hkey
  obtain rfl : cb = ca := by
    by_contra hcb
    simp [hother cb hcb] at hput
  obtain rfl := Option.some.inj (hput.symm.trans hco)
  exact hne hkey'.symm

/-- What both replicas hold after the first put. -/
def firstEntry : Entries Text Text := .singleton ['k'] (['v'], 1)

/-- No replica is contacted. -/
def nothing (_ : Fin n) : List Text := []

/-- A put of replica 0 is acknowledged, which replica 1 has taken part in and replica 2 has not
heard of. -/
def heardOfByOne : List (Cluster.Event 3 Text Text) :=
  [.run 0 (.request 0 (.put ['v']) ['k'] 0), .run 0 (.addCoordinator 0), .run 0 (.begin 0),
    .run 0 (.connect 0 (fun _ => true) [2, 1])] ++ Cluster.askEvents 0 1 0 3 ++
  [.reply ⟨0, 0, 1⟩, .run 0 (.decide 0), .send ⟨0, 0, 1⟩, .run 0 (.acknowledge 0),
    .run 0 (.removeCoordinator 0), .deliver ⟨0, 0, 1⟩, .proceed ⟨0, 0, 1⟩, .proceed ⟨0, 0, 1⟩]

/-- Replica 2 answers a get with the help of replica 1. -/
def gottenFromOne : List (Cluster.Event 3 Text Text) :=
  [.run 2 (.request 0 .get ['k'] 2), .run 2 (.addCoordinator 0), .run 2 (.begin 0),
    .run 2 (.connect 0 (fun _ => true) [0, 1])] ++ Cluster.askEvents 2 1 0 2 ++
  [.reply ⟨2, 0, 1⟩, .run 2 (.decide 0)]

theorem heard_quiet {s : Cluster 3 Text Text}
    (hexec : Transition.exec (Cluster.step (Cluster.settings 3 2 2)) Cluster.calm heardOfByOne
      (.initial fun _ _ => none) = some s) : s.Quiet := by
  have hrun := Transition.run_of_exec (fun _ _ => Cluster.agreed_of_calm) hexec
  refine (Cluster.Numbered.run hrun).1.inv.quiet (fun ⟨c, a⟩ co hco => ?_) (fun ⟨c, a, x⟩ => ?_)
    fun ⟨c, a, x⟩ => ?_
  · cases hexec
    fin_cases c <;> rcases a with _ | a <;> cases hco
    exact .inl rfl
  · cases hexec
    fin_cases c <;> fin_cases x <;> rcases a with _ | a
    all_goals exact .inl rfl
  · cases hexec
    fin_cases c <;> fin_cases x <;> rcases a with _ | a <;> rfl

/-- Two of the three replicas have the put. -/
theorem heard_contents {s : Cluster 3 Text Text}
    (hexec : Transition.exec (Cluster.step (Cluster.settings 3 2 2)) Cluster.calm heardOfByOne
      (.initial fun _ _ => none) = some s) (y : Fin 3) (key : Text) :
    (![firstEntry, firstEntry, ∅] y).lookup key = (s.datastore y).datastore key := by
  have hgood := (Cluster.Numbered.run
    (Transition.run_of_exec (fun _ _ => Cluster.agreed_of_calm) hexec)).1
  by_cases hk : key = ['k']
  · subst hk
    cases hexec
    fin_cases y <;> rfl
  · have hother : ∀ ca, ca ≠ (0, 0) → s.attempt ca = none := by
      rintro ⟨c, a⟩ hne
      cases hexec
      fin_cases c <;> rcases a with _ | a <;> first
        | rfl
        | exact absurd rfl hne
    have hkey : ∃ co, s.attempt (0, 0) = some co ∧ co.key = ['k'] := by
      cases hexec
      exact ⟨_, rfl, rfl⟩
    rw [datastore_eq_none hgood hother hkey hk]
    refine AList.lookup_eq_none.mpr fun hmem => ?_
    fin_cases y
    · exact hk (List.mem_singleton.mp hmem)
    · exact hk (List.mem_singleton.mp hmem)
    · exact absurd hmem (AList.notMem_empty key)

/-- `sync` asks replica 2 alone, which answers with an empty list. -/
theorem exists_starts_empty {s : Cluster 3 Text Text} (file : Fin 3 → Text)
    {contents : Fin 3 → Entries Text Text}
    (hcontents : ∀ y key, (contents y).lookup key = (s.datastore y).datastore key)
    (hempty : contents 2 = ∅) : ∃ asking incoming,
    Starts (Cluster.settings 3 2 2) ⟨s, file⟩ 1 false asking incoming .empty := by
  have hasked : Coordinator.syncQuorum ([0, 2] : List (Fin 3)) = [2] :=
    Coordinator.syncQuorum_eq (by decide)
  have hread : Connection.read [frame (Message.update []).toString] =
      some (.ok (.update [])) :=
    ((Connection.brings_frame (by decide +kernel)).read (by decide +kernel)
      (Connection.inTwo_frame _)).trans (congrArg some (by decide +kernel))
  refine ⟨fun _ => [frame (Message.sync []).toString],
    fun _ => [frame (Message.update []).toString], .empty, ∅, contents, [0, 2],
    (StartUp.initial ∅ [0, 2]).exchange 2 [], by simp, fun key => rfl, hcontents, .refl _,
    ⟨[], .refl _, fun p hp => ?_⟩, StartUp.run_exchange (by simp [StartUp.initial, hasked]) ?_,
    fun p thread hp => ?_, rfl⟩
  · obtain rfl := List.mem_singleton.mp (hasked ▸ hp)
    exact StartUp.answers_short (by decide +kernel) (by decide +kernel) (by rw [hempty]; rfl)
      (by decide +kernel) (by decide +kernel)
  · simp [StartUp.arrivedIn, hread]
  · rcases StartUp.thread_setThread_eq_some hp with ⟨-, hthread⟩ | ⟨hne, hp⟩
    · exact hthread
    · have := (StartUp.thread_initial hp).1
      rw [hasked] at this
      exact absurd (List.mem_singleton.mp this) hne

/-- A replica that is started without its file may lose a put that was acknowledged: `sync` has
asked only the one that has not heard of it. -/
theorem restart_forgets : ∃ (length : ℕ) (state : ℕ → Deployed 3),
    (state 0).cluster = .initial (fun _ _ => none) ∧
    Transition.Path (step (Cluster.settings 3 2 2)) (Feasible (Cluster.settings 3 2 2)) length
      state ∧
    ¬ (Cluster.history (fun i => (state i).cluster) length ['k']).Linearizable := by
  obtain ⟨s, hexec⟩ : ∃ s, Transition.exec (Cluster.step (Cluster.settings 3 2 2)) Cluster.calm
    heardOfByOne (.initial fun _ _ => none) = some s := ⟨_, rfl⟩
  have hrun := Transition.run_of_exec (fun _ _ => Cluster.agreed_of_calm) hexec
  obtain ⟨asking, incoming, hstarts⟩ :=
    exists_starts_empty (fun _ => []) (heard_contents hexec) rfl
  have hrestarted : Transition.Run (step (Cluster.settings 3 2 2))
      (Feasible (Cluster.settings 3 2 2)) ⟨.initial fun _ _ => none, fun _ => []⟩
      ⟨s.rejoin (Cluster.settings 3 2 2) 1 .empty, fun _ => []⟩ := by
    have hfeasible : Feasible (Cluster.settings 3 2 2) ⟨s, fun _ => []⟩
        (.restart 1 false asking incoming .empty) :=
      ⟨heard_quiet hexec, hstarts⟩
    exact ((run_act hrun _).mono fun _ _ h => h.1).tail hfeasible rfl
  obtain ⟨u, hexec'⟩ : ∃ u, Transition.exec (Cluster.step (Cluster.settings 3 2 2)) Cluster.calm
      gottenFromOne (s.rejoin (Cluster.settings 3 2 2) 1 .empty) = some u := by
    cases hexec
    exact ⟨_, rfl⟩
  have hrun' := (run_act (Transition.run_of_exec (fun _ _ => Cluster.agreed_of_calm) hexec')
    fun _ => []).mono fun _ _ h => h.1
  obtain ⟨i, before, hstart, hmiddle, hpath⟩ := hrestarted.exists_path
  obtain ⟨length, state, hi, hsame, hend, hpath⟩ := hpath.extend hrun' hmiddle
  have hmiddle' : state i = ⟨s.rejoin (Cluster.settings 3 2 2) 1 .empty, fun _ => []⟩ :=
    (hsame i le_rfl).trans hmiddle
  obtain ⟨co, co', put, hco, hco', hput, hkey, hreplied, hfresh, hkey', hcall, hcall'⟩ :
      ∃ co co' put, u.attempt (0, 0) = some co ∧ u.attempt (2, 0) = some co' ∧
        (s.rejoin (Cluster.settings 3 2 2) 1 .empty).attempt (0, 0) = some put ∧ co.key = ['k'] ∧
        put.replied ∧ (s.rejoin (Cluster.settings 3 2 2) 1 .empty).attempt (2, 0) = none ∧
        co'.key = ['k'] ∧ co.call = some (.write ['v']) ∧ co'.call = some (.read none) := by
    cases hexec
    cases hexec'
    exact ⟨_, _, _, rfl, rfl, rfl, rfl, rfl, rfl, rfl, rfl, rfl⟩
  refine ⟨length, state, by rw [hsame 0 i.zero_le, hstart], hpath, fun hlin => ?_⟩
  have hwrite : (Cluster.history (fun i => (state i).cluster) length ['k']).call (0, 0) =
      some (.write ['v']) := Cluster.history_call.mpr ⟨co, by rw [hend, hco], hkey, hcall⟩
  refine hlin.not_lost hwrite ⟨i, hi, ⟨put, by simpa [hmiddle'] using hput, hreplied⟩, ?_⟩
    (Cluster.history_call.mpr ⟨co', by rw [hend, hco'], hkey', hcall'⟩)
  simpa [hmiddle'] using hfresh

end Deployed
end LeaderlessDatastore
