import LeaderlessDatastore.Numbering

/-!
# What messages carry

The keys, values and numbers that the messages of a run carry: nothing but what the requests
have brought in, and versions that fit into an `int` as long as the committed ones do.
-/

namespace LeaderlessDatastore

open Function

section Records

variable {Peer Key Value : Type} (K : Key → Prop) (V : Value → Prop)

structure Coordinator.Fits (co : Coordinator Peer Key Value) : Prop where
  key : K co.key
  put : ∀ value, co.op = .put value → V value
  uid : IsInt co.uid
  version : IsInt co.version
  values : ∀ entry ∈ co.values, V entry.1 ∧ IsInt entry.2

structure Participant.Fits (p : Participant Key Value) : Prop where
  uid : IsInt p.uid
  key : K p.key
  value : V p.value
  timestamp : IsInt p.timestamp

def Handler.Fits : Handler Key Value → Prop
  | .registering p | .refusing p | .preparing p | .declining p | .voting p | .deciding p
  | .decided p | .leaving p | .leaked p => p.Fits K V
  | .fetching key => K key
  | .replying key result => K key ∧ (result.2 ≠ 0 → V result.1 ∧ IsInt result.2)
  | .idle | .closed => True

/-- What is stored. -/
def DatastoreManager.Fits (ds : DatastoreManager Key Value) : Prop :=
  ∀ key entry, ds.datastore key = some entry → V entry.1 ∧ IsInt entry.2

/-- A request brings in what fits, and the next version of an attempt does. -/
def Replica.Moderate (r : Replica Peer Key Value) (action : Replica.Action Peer Key Value) :
    Prop :=
  (∀ a op key uid, action = .request a op key uid →
    K key ∧ (∀ value, op = .put value → V value) ∧ IsInt uid) ∧
  ∀ co, r.attempt action.of = some co → co.version + 1 < 2 ^ 31

theorem isInt_zero : IsInt 0 := ⟨le_rfl, by norm_num⟩

variable {K V}

theorem Handler.Fits.flag {h : Handler Key Value} (hf : h.Fits K V) (uid : ℤ) :
    (h.flag uid).Fits K V := by
  have hflag : ∀ p : Participant Key Value, p.Fits K V →
      (if p.uid = uid then { p with abort := true } else p).Fits K V := by
    intro p hp
    split_ifs
    · exact ⟨hp.uid, hp.key, hp.value, hp.timestamp⟩
    · exact hp
  cases h with
  | idle | closed => exact hf
  | fetching | replying => exact hf
  | _ => exact hflag _ hf

variable [DecidableEq Key] {ds ds' : DatastoreManager Key Value} {key : Key} {value : Value}
  {uid version : ℤ}

omit [DecidableEq Key] in
theorem DatastoreManager.Fits.of_eq (h : ds.Fits V) (heq : ds'.datastore = ds.datastore) :
    ds'.Fits V := fun key entry he => h key entry (heq ▸ he)

theorem DatastoreManager.Fits.commit (h : ds.Fits V) (hvalue : V value) (hversion : IsInt version) :
    (ds.commit key value version).Fits V := by
  intro k entry he
  rcases commit_eq_some he with hold | ⟨-, rfl⟩
  · exact h k entry hold
  · exact ⟨hvalue, hversion⟩

theorem DatastoreManager.Fits.tryUpdate (h : ds.Fits V) (hvalue : V value)
    (hversion : IsInt version) : (ds.tryUpdate key value version).Fits V := by
  intro k entry he
  rcases tryUpdate_eq_some he with hold | ⟨-, rfl⟩
  · exact h k entry hold
  · exact ⟨hvalue, hversion⟩

theorem DatastoreManager.Fits.prepared (h : ds.Fits V)
    (hprepare : ds.prepare key uid = some (ds', version)) : IsInt version ∧ ds'.Fits V := by
  obtain ⟨-, hsame, rfl, -⟩ := prepare_eq_some hprepare
  refine ⟨?_, h.of_eq hsame⟩
  unfold storedVersion
  split
  · next value version he => exact (h key _ he).2
  · exact isInt_zero

omit [DecidableEq Key] in
theorem DatastoreManager.Fits.got (h : ds.Fits V) {result result' : Value × ℤ}
    (hget : ds.get key result = some result') (hne : result'.2 ≠ 0) :
    V result'.1 ∧ IsInt result'.2 := by
  obtain ⟨-, -, he | ⟨-, hzero⟩⟩ := get_eq_some hget
  · exact h key result' he
  · exact absurd hzero hne

/-! ## Steps -/

variable [Inhabited Value] {settings : Settings Peer} {r : Replica Peer Key Value} {a : ℕ}
  {co co' : Coordinator Peer Key Value} {coordinators : Key → Option ℕ}
  {datastore : DatastoreManager Key Value}

theorem CoordinatorStep.fits (hds : r.datastore.Fits V) (hco : co.Fits K V)
    (hnext : co.version + 1 < 2 ^ 31)
    (h : CoordinatorStep settings r a co co' coordinators datastore) :
    co'.Fits K V ∧ datastore.Fits V := by
  have same : ∀ co' : Coordinator Peer Key Value, co'.key = co.key → co'.op = co.op →
      co'.uid = co.uid → co'.version = co.version → co'.values = co.values → co'.Fits K V := by
    rintro co' hkey hop huid hversion hvalues
    exact ⟨hkey ▸ hco.key, hop ▸ hco.put, huid ▸ hco.uid, hversion ▸ hco.version,
      hvalues ▸ hco.values⟩
  cases h with
  | lock pc_eq op_eq prepared =>
    obtain ⟨hversion, hds'⟩ := hds.prepared prepared
    exact ⟨⟨hco.key, hco.put, hco.uid, hversion, hco.values⟩, hds'⟩
  | @read result pc_eq op_eq got =>
    refine ⟨⟨hco.key, hco.put, hco.uid, hco.version, fun entry hentry => ?_⟩, hds⟩
    dsimp only at hentry
    split_ifs at hentry with hne
    · rcases List.mem_append.mp hentry with hold | hnew
      · exact hco.values entry hold
      · obtain rfl := List.mem_singleton.mp hnew
        exact hds.got got hne
    · exact hco.values entry hentry
  | @commit value pc_eq joined op_eq =>
    have hversion : IsInt (co.version + 1) := ⟨by have := hco.version.1; omega, hnext⟩
    exact ⟨⟨hco.key, hco.put, hco.uid, hversion, hco.values⟩,
      hds.commit (hco.put value op_eq) hversion⟩
  | release pc_eq aborted =>
    exact ⟨same _ rfl rfl rfl rfl rfl, hds.of_eq (DatastoreManager.abort_eq_some aborted).1⟩
  | @repair entry pc_eq latest =>
    obtain ⟨hvalue, hversion⟩ := hco.values entry (Coordinator.getLatestValue_mem latest)
    exact ⟨same _ rfl rfl rfl rfl rfl, hds.tryUpdate hvalue hversion⟩
  | _ => exact ⟨same _ rfl rfl rfl rfl rfl, hds⟩

omit [DecidableEq Key] [Inhabited Value] in
theorem Coordinator.Fits.message {m : Message Key Value} (hco : co.Fits K V)
    (h : co.message (Coordinator.getLatestValue co.values) = some m) : m.Fits K V := by
  unfold Coordinator.message at h
  split at h <;> cases h
  · next value _ hop => exact ⟨hco.uid, hco.key, hco.put value hop⟩
  · exact hco.key
  · exact ⟨hco.uid, hco.key⟩
  · next value _ hop =>
    refine ⟨hco.uid, hco.key, hco.put value hop, ?_⟩
    rw [castInt_of_lt hco.version.1 hco.version.2]
    exact hco.version
  · next value version _ hlatest =>
    exact ⟨hco.key, hco.values _ (Coordinator.getLatestValue_mem hlatest)⟩

omit [DecidableEq Key] [Inhabited Value] in
theorem Coordinator.Fits.heardFrom [DecidableEq Peer] {m : Message Key Value}
    (hco : co.Fits K V) (hm : m.Fits K V) (x : Peer) : (co.heardFrom x m).Fits K V := by
  unfold Coordinator.heardFrom Coordinator.hear
  split
  · refine ⟨hco.key, hco.put, hco.uid, ?_, hco.values⟩
    dsimp only
    split_ifs
    · exact hm.2.2
    · exact hco.version
  · exact ⟨hco.key, hco.put, hco.uid, hco.version, hco.values⟩
  · refine ⟨hco.key, hco.put, hco.uid, hco.version, fun e he => ?_⟩
    rcases List.mem_append.mp he with hold | hnew
    · exact hco.values e hold
    · obtain rfl := List.mem_singleton.mp hnew
      exact hm.2 e rfl
  · exact ⟨hco.key, hco.put, hco.uid, hco.version, hco.values⟩

variable {conn : Peer × ℕ} {h h' : Handler Key Value} {sent : Option (Message Key Value)}
  {participants : Key → Option (Peer × ℕ)}

theorem HandlerStep.fits (hds : r.datastore.Fits V) (hh : h.Fits K V)
    (hstep : HandlerStep r conn h h' sent participants datastore) :
    h'.Fits K V ∧ datastore.Fits V ∧ ∀ m ∈ sent, m.Fits K V := by
  cases hstep with
  | enter | turnAway | busy => exact ⟨hh, hds, nofun⟩
  | leave => exact ⟨trivial, hds, nofun⟩
  | refuse => exact ⟨trivial, hds, by rintro _ ⟨⟩; exact ⟨hh.uid, hh.key⟩⟩
  | decline => exact ⟨hh, hds, by rintro _ ⟨⟩; exact ⟨hh.uid, hh.key⟩⟩
  | lock prepared =>
    obtain ⟨htimestamp, hds'⟩ := hds.prepared prepared
    exact ⟨⟨hh.uid, hh.key, hh.value, htimestamp⟩, hds', nofun⟩
  | vote => exact ⟨hh, hds, by rintro _ ⟨⟩; exact ⟨hh.uid, hh.key, hh.timestamp⟩⟩
  | abort flagged aborted =>
    exact ⟨hh, hds.of_eq (DatastoreManager.abort_eq_some aborted).1, by rintro _ ⟨⟩; exact .inl rfl⟩
  | commit => exact ⟨hh, hds.commit hh.value hh.timestamp, by rintro _ ⟨⟩; exact .inr rfl⟩
  | read got => exact ⟨⟨hh, hds.got got⟩, hds, nofun⟩
  | @reply key result =>
    refine ⟨trivial, hds, ?_⟩
    rintro _ ⟨⟩
    refine ⟨hh.1, fun e he => ?_⟩
    split_ifs at he with hne
    · cases he
      exact hh.2 hne
    · cases he

omit [Inhabited Value] in
theorem DeliverStep.fits {m : Message Key Value} (hds : r.datastore.Fits V) (hh : h.Fits K V)
    (hm : m.Fits K V) (hstep : DeliverStep r conn h m h' datastore) :
    h'.Fits K V ∧ datastore.Fits V := by
  cases hstep with
  | prepare => exact ⟨⟨hm.1, hm.2.1, hm.2.2, isInt_zero⟩, hds⟩
  | fetch => exact ⟨hm, hds⟩
  | repair => exact ⟨trivial, hds.tryUpdate hm.2.1 hm.2.2⟩
  | abort => exact ⟨⟨hh.uid, hh.key, hh.value, hh.timestamp⟩, hds⟩
  | commit => exact ⟨⟨hh.uid, hh.key, hh.value, hm.2.2.2⟩, hds⟩

end Records

namespace Cluster

variable {n : ℕ} {Key Value : Type} {config : Fin n → Settings (Fin n)}
  {s t : Cluster n Key Value} {e : Event n Key Value} {K : Key → Prop} {V : Value → Prop}

structure Fits (K : Key → Prop) (V : Value → Prop) (s : Cluster n Key Value) : Prop where
  datastore : ∀ x, (s.datastore x).Fits V
  attempt : ∀ ca co, s.attempt ca = some co → co.Fits K V
  handler : ∀ ℓ, (s.handler ℓ).Fits K V
  down : ∀ ℓ, ∀ m ∈ s.down ℓ, m.Fits K V
  up : ∀ ℓ, ∀ m ∈ s.up ℓ, m.Fits K V

theorem Fits.of_initial : Fits K V (initial fun _ _ => none : Cluster n Key Value) where
  datastore x key entry h := by cases h
  attempt ca co h := by cases h
  handler ℓ := trivial
  down ℓ m h := by cases h
  up ℓ m h := by cases h

/-- The requests and the versions of the run are moderate. -/
def Moderate (K : Key → Prop) (V : Value → Prop) (s : Cluster n Key Value) :
    Event n Key Value → Prop
  | .run c action => (s.replica c).Moderate K V action
  | _ => True

variable [DecidableEq Key] [Inhabited Value]

theorem Fits.change (hs : Fits K V s) (hmoderate : Moderate K V s e) (h : Change config s e t) :
    Fits K V t where
  datastore x := by
    have updates : ∀ {y ds}, t.datastore = update s.datastore y ds → ds.Fits V →
        (t.datastore x).Fits V := by
      intro y ds ht hds
      by_cases hx : x = y
      · rw [ht, hx, update_self]
        exact hds
      · rw [ht, update_of_ne hx]
        exact hs.datastore x
    cases h with
    | request => exact (datastore_spawn s ..) ▸ hs.datastore x
    | retry => exact updates ((datastore_spawn ..).trans (datastore_move ..)) (hs.datastore _)
    | move current step =>
      exact updates (datastore_move ..)
        (step.fits (hs.datastore _) (hs.attempt _ _ current) (hmoderate.2 _ current)).2
    | send => exact updates (datastore_move ..) (hs.datastore _)
    | reply => exact updates (datastore_move ..) (hs.datastore _)
    | @deliver ℓ m rest h datastore down_eq step =>
      exact updates (datastore_handle ..)
        (step.fits (hs.datastore _) (hs.handler ℓ) (hs.down ℓ m (by simp [down_eq]))).2
    | @stale ℓ uid key rest =>
      have hsame := congrFun (datastore_flag s ℓ.peer uid key) x
      exact hsame.symm ▸ hs.datastore x
    | @proceed ℓ h sent participants datastore step =>
      exact updates (datastore_handle ..) (step.fits (hs.datastore _) (hs.handler ℓ)).2.1
    | hangup => exact updates (datastore_handle ..) (hs.datastore _)
  attempt ca co' hco' := by
    have attempts : ∀ {cb co}, t.attempt = update s.attempt cb (some co) → co.Fits K V →
        co'.Fits K V := by
      intro cb co ht hco
      rw [ht] at hco'
      rcases Occupancy.update_eq_some.mp hco' with ⟨-, ⟨⟩⟩ | ⟨-, hold⟩
      · exact hco
      · exact hs.attempt ca co' hold
    cases h with
    | @request c a op key uid =>
      obtain ⟨hkey, hput, huid⟩ := hmoderate.1 a op key uid rfl
      exact attempts (attempt_spawn ..) ⟨hkey, hput, huid, isInt_zero, nofun⟩
    | @retry c a b co current =>
      have hco := hs.attempt _ co current
      rw [attempt_spawn, attempt_move] at hco'
      rcases Occupancy.update_eq_some.mp hco' with ⟨-, ⟨⟩⟩ | ⟨-, hold⟩
      · exact ⟨hco.key, hco.put, hco.uid, hco.version, hco.values⟩
      · rcases Occupancy.update_eq_some.mp hold with ⟨-, ⟨⟩⟩ | ⟨-, hold⟩
        · exact ⟨hco.key, hco.put, hco.uid, hco.version, hco.values⟩
        · exact hs.attempt ca co' hold
    | move current step =>
      exact attempts (attempt_move ..)
        (step.fits (hs.datastore _) (hs.attempt _ _ current) (hmoderate.2 _ current)).1
    | @send ℓ co m current =>
      have hco := hs.attempt _ co current
      exact attempts (attempt_move ..) ⟨hco.key, hco.put, hco.uid, hco.version, hco.values⟩
    | @reply ℓ co m rest current pc_eq mem waiting up_eq =>
      exact attempts (attempt_move ..)
        ((hs.attempt _ co current).heardFrom (hs.up ℓ m (by simp [up_eq])) ℓ.peer)
    | deliver | proceed =>
      exact hs.attempt ca co' ((congrFun (attempt_handle ..) _).symm.trans hco')
    | hangup => exact hs.attempt ca co' ((congrFun (attempt_handle ..) _).symm.trans hco')
    | stale => exact hs.attempt ca co' ((congrFun (attempt_flag ..) _).symm.trans hco')
  handler ℓ := by
    have hturn := h.turns ℓ
    generalize t.handler ℓ = hd' at hturn
    cases hturn with
    | same => exact hs.handler ℓ
    | flag => exact (hs.handler ℓ).flag _
    | @deliver m rest h datastore down_eq step =>
      exact (step.fits (hs.datastore _) (hs.handler ℓ) (hs.down ℓ m (by simp [down_eq]))).1
    | proceed step => exact (step.fits (hs.datastore _) (hs.handler ℓ)).1
    | hangup => trivial
  down ℓ m hm := by
    rcases h.mem_down hm with hold | ⟨co, hco, -, hmessage⟩
    · exact hs.down ℓ m hold
    · exact (hs.attempt _ co hco).message hmessage
  up ℓ m hm := by
    rcases h.mem_up hm with hold | ⟨h, participants, datastore, step⟩
    · exact hs.up ℓ m hold
    · exact (step.fits (hs.datastore _) (hs.handler ℓ)).2.2 m rfl

end Cluster
end LeaderlessDatastore
