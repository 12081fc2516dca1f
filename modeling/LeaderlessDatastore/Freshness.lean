import LeaderlessDatastore.Atomicity
import LeaderlessDatastore.FailedWrites

/-!
# Versions

Every entry that is stored, sent or collected was committed by a put, and every
committed put is shielded at the members of its quorum: either it still has its
lock there, or the stored version and the version known to any later put that has
the lock are at least its own.  So a new put always gets a higher version.
-/

namespace LeaderlessDatastore

open Function

namespace Cluster

variable {n : ℕ} {Key Value : Type} {config : Fin n → Settings (Fin n)}
  {s t u : Cluster n Key Value} {e : Event n Key Value}

/-! ## Where entries come from -/

/-- A committed put of the key wrote this entry. -/
def FromPut (s : Cluster n Key Value) (key : Key) (entry : Value × ℤ) : Prop :=
  ∃ ca co, s.attempt ca = some co ∧ co.committed ∧ co.key = key ∧ co.op = .put entry.1 ∧
    co.version = entry.2

theorem FromPut.later {key : Key} {entry : Value × ℤ} (h : FromPut s key entry)
    (hl : Later s t) : FromPut t key entry := by
  obtain ⟨ca, co, hco, hc, hkey, hop, hversion⟩ := h
  obtain ⟨co', hco', hlater⟩ := hl ca co hco
  obtain ⟨hc', hversion', -⟩ := hlater.committed hc
  exact ⟨ca, co', hco', hc', hlater.key_eq.trans hkey, hlater.op_eq.trans hop,
    hversion'.trans hversion⟩

/-- Every entry in the system was written by a committed put. -/
structure Sourced (s : Cluster n Key Value) : Prop where
  stored : ∀ x key entry, (s.datastore x).datastore key = some entry → FromPut s key entry
  collected : ∀ ca co, s.attempt ca = some co → ∀ entry ∈ co.values, FromPut s co.key entry
  replying : ∀ ℓ key result, s.handler ℓ = .replying key result → result.2 ≠ 0 →
    FromPut s key result
  fetched : ∀ ℓ key entry, .fetchedValue key (some entry) ∈ s.up ℓ → FromPut s key entry
  repairs : ∀ ℓ key value version, .repair key value version ∈ s.down ℓ →
    FromPut s key (value, version)
  answered : ∀ ca co entry, s.attempt ca = some co → co.answer = some (some entry) →
    FromPut s co.key entry

/-- Versions of puts count from one. -/
structure Counted (s : Cluster n Key Value) : Prop where
  begun : ∀ ca co, s.attempt ca = some co → co.op ≠ .get →
    co.pc = .connect ∨ co.pc = .exchange → 0 ≤ co.version
  committed : ∀ ca co, s.attempt ca = some co → co.committed → 1 ≤ co.version

theorem Counted.fromPut (hc : Counted s) {key : Key} {entry : Value × ℤ}
    (h : FromPut s key entry) : 1 ≤ entry.2 := by
  obtain ⟨ca, co, hco, hcommitted, -, -, hversion⟩ := h
  exact hversion ▸ hc.committed ca co hco hcommitted

theorem Sourced.storedVersion_nonneg (hs : Sourced s) (hc : Counted s) (x : Fin n) (key : Key) :
    0 ≤ (s.datastore x).storedVersion key := by
  unfold DatastoreManager.storedVersion
  split
  · next value version he =>
    have := hc.fromPut (hs.stored x key _ he)
    dsimp only at this
    omega
  · exact le_rfl

variable [DecidableEq Key] [Inhabited Value]

/-- Only entries of committed puts are written, by `commit` or by `tryUpdate`. -/
theorem Change.writes (hs : Inv config s) (hsound : Sound s) (hsrc : Sourced s)
    (h : Change config s e t) (x : Fin n) :
    (t.datastore x).datastore = (s.datastore x).datastore ∨
    ∃ key value version, FromPut t key (value, version) ∧
      ((t.datastore x).datastore = ((s.datastore x).commit key value version).datastore ∨
        (t.datastore x).datastore = ((s.datastore x).tryUpdate key value version).datastore) := by
  have hlater := hs.later_of_change h
  have updates : ∀ {y ds}, t.datastore = update s.datastore y ds →
      (ds.datastore = (s.datastore y).datastore ∨
        ∃ key value version, FromPut t key (value, version) ∧
          (ds.datastore = ((s.datastore y).commit key value version).datastore ∨
            ds.datastore = ((s.datastore y).tryUpdate key value version).datastore)) →
      (t.datastore x).datastore = (s.datastore x).datastore ∨
      ∃ key value version, FromPut t key (value, version) ∧
        ((t.datastore x).datastore = ((s.datastore x).commit key value version).datastore ∨
          (t.datastore x).datastore = ((s.datastore x).tryUpdate key value version).datastore) := by
    intro y ds ht hds
    by_cases hx : x = y
    · subst hx
      rw [ht, update_self]
      exact hds
    · rw [ht, update_of_ne hx]
      exact .inl rfl
  cases h with
  | request => exact .inl (by rw [datastore_spawn])
  | retry current pc_eq fresh =>
    exact updates ((datastore_spawn ..).trans (datastore_move ..)) (.inl rfl)
  | @move c action co co' coordinators datastore current step =>
    refine updates (datastore_move ..) ?_
    have hnew : (s.move (c, action.of) co' coordinators datastore).attempt (c, action.of) =
        some co' := by rw [attempt_move, update_self]
    cases step with
    | lock pc_eq op_eq prepared => exact .inl (DatastoreManager.prepare_eq_some prepared).2.1
    | @commit value pc_eq joined op_eq =>
      exact .inr ⟨co.key, value, co.version + 1,
        ⟨_, _, hnew, by simp [Coordinator.committed, op_eq], rfl, op_eq, rfl⟩, .inl rfl⟩
    | release pc_eq aborted => exact .inl (DatastoreManager.abort_eq_some aborted).1
    | @repair entry pc_eq latest =>
      refine .inr ⟨co.key, entry.1, entry.2, ?_, .inr rfl⟩
      exact (hsrc.collected _ co current entry (Coordinator.getLatestValue_mem latest)).later hlater
    | _ => exact .inl rfl
  | send => exact updates (datastore_move ..) (.inl rfl)
  | reply => exact updates (datastore_move ..) (.inl rfl)
  | @deliver ℓ m rest h datastore down_eq step =>
    refine updates (datastore_handle ..) ?_
    generalize s.handler ℓ = hd at step
    cases step with
    | @repair key value timestamp =>
      refine .inr ⟨key, value, timestamp, ?_, .inr rfl⟩
      exact (hsrc.repairs ℓ key value timestamp (by simp [down_eq])).later hlater
    | _ => exact .inl rfl
  | stale => exact .inl (congrArg DatastoreManager.datastore (congrFun (datastore_flag ..) x))
  | @proceed ℓ h sent participants datastore step =>
    refine updates (datastore_handle ..) ?_
    generalize hhd : s.handler ℓ = hd at step
    cases step with
    | lock prepared => exact .inl (DatastoreManager.prepare_eq_some prepared).2.1
    | abort flagged aborted => exact .inl (DatastoreManager.abort_eq_some aborted).1
    | @commit p unflagged =>
      obtain ⟨co, hco⟩ := hs.exists_attempt (ℓ := ℓ) (.inr (.inr (by simp [hhd])))
      have hphase := hs.phase hco
      rw [hhd] at hphase
      obtain ⟨value, hop, made, ⟨-, hflag⟩ | ⟨htold, htimestamp⟩⟩ := hphase.decided
      · simp [unflagged] at hflag
      · have hcommitted := Coordinator.committed_of_toldCommit htold
        rw [hsound.version _ co hco hcommitted] at htimestamp
        refine .inr ⟨p.key, p.value, p.timestamp, ?_, .inl rfl⟩
        refine FromPut.later ⟨_, co, hco, hcommitted, made.key_eq.symm, ?_, htimestamp.symm⟩ hlater
        rw [hop, made.value_eq]
    | _ => exact .inl rfl
  | hangup => exact updates (datastore_handle ..) (.inl rfl)

/-- The entries that an event may change: those of the attempts and those of the messages. -/
theorem Change.stored (hs : Inv config s) (hsound : Sound s) (hsrc : Sourced s)
    (h : Change config s e t) {x : Fin n} {key : Key} {entry : Value × ℤ}
    (hentry : (t.datastore x).datastore key = some entry) : FromPut t key entry := by
  have hlater := hs.later_of_change h
  rcases h.writes hs hsound hsrc x with he | ⟨key', value, version, hput, he⟩
  · exact (hsrc.stored x key entry (by rw [← he, hentry])).later hlater
  · have hcases : (s.datastore x).datastore key = some entry ∨
        key = key' ∧ entry = (value, version) := by
      rcases he with he | he <;> rw [he] at hentry
      · exact DatastoreManager.commit_eq_some hentry
      · exact DatastoreManager.tryUpdate_eq_some hentry
    rcases hcases with hold | ⟨rfl, rfl⟩
    · exact (hsrc.stored x key entry hold).later hlater
    · exact hput

theorem Counted.change (hs : Inv config s) (hsrc : Sourced s) (hcount : Counted s)
    (h : Change config s e t) : Counted t where
  begun ca co' hco' hop hpc := by
    cases h.evolves hco' with
    | same current => exact hcount.begun ca co' current hop hpc
    | request | retry => simp [Coordinator.nextAttempt] at hpc
    | @step co _ coordinators datastore current step =>
      have hold := hcount.begun ca co current
      cases step with
      | lock pc_eq op_eq prepared =>
        rw [(DatastoreManager.prepare_eq_some prepared).2.2.1]
        exact hsrc.storedVersion_nonneg hcount ca.1 co.key
      | connected pc_eq perm => exact hold hop (.inl pc_eq)
      | _ => simp_all
    | @sent co x m current => exact hcount.begun ca co current hop hpc
    | @heard co x m rest current pc_eq mem waiting up_eq =>
      rw [(co.heardFrom_same x m).1] at hop
      exact (hcount.begun ca co current hop (.inr pc_eq)).trans (co.version_le_hear m)
  committed ca co' hco' hcommitted := by
    cases h.evolves hco' with
    | same current => exact hcount.committed ca co' current hcommitted
    | @request op => cases op <;> cases hcommitted
    | @retry a co fresh previous =>
      cases hop : co.op <;> simp [Coordinator.committed, Coordinator.nextAttempt, hop] at hcommitted
    | @step co _ coordinators datastore current step =>
      have hold := hcount.committed ca co current
      have hput := (hs.attempt_ok ca co current).put_pc
      cases step with
      | @commit value pc_eq joined op_eq =>
        have := hcount.begun ca co current (by simp [op_eq]) (.inr pc_eq)
        dsimp only
        omega
      | _ => cases hop : co.op <;> simp_all [Coordinator.committed]
    | @sent co x m current => exact hcount.committed ca co current hcommitted
    | @heard co x m rest current pc_eq =>
      obtain ⟨hop, -, -, hpc, -⟩ := co.heardFrom_same x m
      cases hop' : co.op <;> simp [Coordinator.committed, hop, hpc, pc_eq, hop'] at hcommitted

/-- A thread that is about to answer a `FETCH` has read its datastore. -/
theorem Change.replying (h : Change config s e t) {ℓ : Link n} {key : Key} {result : Value × ℤ}
    (hh : t.handler ℓ = .replying key result) : s.handler ℓ = .replying key result ∨
      (s.datastore ℓ.peer).get key default = some result := by
  have hturn := h.turns ℓ
  rw [hh] at hturn
  generalize hnew : Handler.replying key result = hd' at hturn
  cases hturn with
  | same => exact .inl rfl
  | flag =>
    left
    cases hd : s.handler ℓ <;> simp_all [Handler.flag, Handler.mapParticipant]
  | deliver down_eq step =>
    subst hnew
    generalize s.handler ℓ = hd at step
    cases step
  | proceed step =>
    subst hnew
    generalize s.handler ℓ = hd at step
    cases step with
    | read got => exact .inr got
  | hangup => cases hnew

/-- An answer to a `FETCH` carries what the thread has read. -/
theorem Change.fetched (h : Change config s e t) {ℓ : Link n} {key : Key}
    {entry : Option (Value × ℤ)} (hm : .fetchedValue key entry ∈ t.up ℓ) :
    .fetchedValue key entry ∈ s.up ℓ ∨ ∃ result, s.handler ℓ = .replying key result ∧
      entry = if result.2 ≠ 0 then some result else none := by
  rcases h.mem_up hm with hold | ⟨hd', participants, datastore, step⟩
  · exact .inl hold
  · right
    generalize s.handler ℓ = hd at step
    generalize hm' : Message.fetchedValue key entry = m at step
    cases step with
    | reply =>
      cases hm'
      exact ⟨_, rfl, rfl⟩
    | _ => cases hm'

theorem Sourced.change (hs : Inv config s) (hsound : Sound s) (hsrc : Sourced s)
    (h : Change config s e t) : Sourced t where
  stored x key entry := h.stored hs hsound hsrc
  collected ca co' hco' entry hentry := by
    refine FromPut.later ?_ (hs.later_of_change h)
    cases h.evolves hco' with
    | same current => exact hsrc.collected ca co' current entry hentry
    | request => cases hentry
    | @retry a co fresh previous => exact hsrc.collected (ca.1, a) co previous entry hentry
    | @step co _ coordinators datastore current step =>
      have hold := hsrc.collected ca co current entry
      rw [step.same_request.2.1]
      cases step with
      | @read result pc_eq op_eq got =>
        dsimp only at hentry
        split_ifs at hentry with hne
        · rcases List.mem_append.mp hentry with hentry | hentry
          · exact hold hentry
          · obtain rfl := List.mem_singleton.mp hentry
            obtain ⟨-, -, hstored | ⟨-, hzero⟩⟩ := DatastoreManager.get_eq_some got
            · exact hsrc.stored ca.1 co.key entry hstored
            · exact absurd hzero hne
        · exact hold hentry
      | _ => exact hold hentry
    | @sent co x m current => exact hsrc.collected ca co current entry hentry
    | @heard co x m rest current pc_eq mem waiting up_eq =>
      rw [(co.heardFrom_same x m).2.1]
      have hold := hsrc.collected ca co current entry
      have hphase := hs.phase (ℓ := ⟨ca.1, ca.2, x⟩) current
      rw [up_eq] at hphase
      have hanswers := hphase.answers pc_eq mem
      unfold Coordinator.heardFrom Coordinator.hear at hentry
      split at hentry
      · exact hold hentry
      · exact hold hentry
      · next key entry' =>
        rcases List.mem_append.mp hentry with hentry | hentry
        · exact hold hentry
        · obtain rfl := List.mem_singleton.mp hentry
          obtain rfl : key = co.key := hanswers
          exact hsrc.fetched ⟨ca.1, ca.2, x⟩ co.key entry (by simp [up_eq])
      · exact hold hentry
  replying ℓ key result hh hne := by
    refine FromPut.later ?_ (hs.later_of_change h)
    rcases h.replying hh with hold | hgot
    · exact hsrc.replying ℓ key result hold hne
    · obtain ⟨-, -, hstored | ⟨-, hzero⟩⟩ := DatastoreManager.get_eq_some hgot
      · exact hsrc.stored ℓ.peer key result hstored
      · exact absurd hzero hne
  fetched ℓ key entry hm := by
    refine FromPut.later ?_ (hs.later_of_change h)
    rcases h.fetched hm with hold | ⟨result, hh, hentry⟩
    · exact hsrc.fetched ℓ key entry hold
    · split_ifs at hentry with hne
      cases hentry
      exact hsrc.replying ℓ key entry hh hne
  repairs ℓ key value version hm := by
    refine FromPut.later ?_ (hs.later_of_change h)
    rcases h.mem_down hm with hold | ⟨co, hco, hmem, hmessage⟩
    · exact hsrc.repairs ℓ key value version hold
    · rcases Coordinator.message_cases (hs.attempt_ok _ co hco) hmessage with
        ⟨-, ⟨_, -, he⟩ | ⟨-, he⟩⟩ | ⟨-, -, he⟩ | ⟨-, _, -, he⟩ | ⟨-, -, entry, hlatest, he⟩
      all_goals cases he
      exact hsrc.collected _ co hco entry (Coordinator.getLatestValue_mem hlatest)
  answered ca co' entry hco' hanswer := by
    refine FromPut.later ?_ (hs.later_of_change h)
    cases h.evolves hco' with
    | same current => exact hsrc.answered ca co' entry current hanswer
    | request => cases hanswer
    | @retry a co fresh previous => exact hsrc.answered (ca.1, a) co entry previous hanswer
    | @step co _ coordinators datastore current step =>
      have hold := hsrc.answered ca co entry current
      rw [step.same_request.2.1]
      cases step with
      | answer pc_eq joined op_eq counted latest =>
        cases hanswer
        exact hsrc.collected ca co current entry (Coordinator.getLatestValue_mem latest)
      | answerNull => cases hanswer
      | _ => exact hold hanswer
    | @sent co x m current => exact hsrc.answered ca co entry current hanswer
    | @heard co x m rest current =>
      obtain ⟨-, hkey, -, -, -, -, hanswer'⟩ := co.heardFrom_same x m
      rw [hkey]
      exact hsrc.answered ca co entry current (hanswer' ▸ hanswer)

/-! ## Versions never go back -/

theorem Change.storedVersion_le (hs : Inv config s) (hsound : Sound s) (hsrc : Sourced s)
    (hcount : Counted s) (h : Change config s e t) (x : Fin n) (key : Key) :
    (s.datastore x).storedVersion key ≤ (t.datastore x).storedVersion key := by
  rcases h.writes hs hsound hsrc x with he | ⟨key', value, version, hput, he⟩
  · exact (DatastoreManager.storedVersion_congr he key).ge
  · have hpos : 1 ≤ version := (hcount.change hs hsrc h).fromPut hput
    rcases he with he | he <;> rw [DatastoreManager.storedVersion_congr he]
    · exact DatastoreManager.storedVersion_le_commit _ _ _ _ (by omega)
    · exact DatastoreManager.storedVersion_le_tryUpdate _ _ _ _ (by omega)

end Cluster

/-- The version that a participant with the lock has voted for, or is about to. -/
def Handler.record {Key Value : Type} : Handler Key Value → Option (Key × ℤ)
  | .voting p | .deciding p => some (p.key, p.timestamp)
  | _ => none

theorem Handler.record_flag {Key Value : Type} (h : Handler Key Value) (uid : ℤ) :
    (h.flag uid).record = h.record := by
  cases h <;> simp only [flag, mapParticipant, record, Option.some.injEq] <;> split_ifs <;> rfl

/-- The version that a coordinator with the lock has heard of. -/
def Coordinator.record {Peer Key Value : Type} (co : Coordinator Peer Key Value) :
    Option (Key × ℤ) :=
  match co.op, co.pc with
  | .put _, .connect | .put _, .exchange => some (co.key, co.version)
  | _, _ => none

namespace Cluster

variable {n : ℕ} {Key Value : Type} {config : Fin n → Settings (Fin n)}
  {s t u : Cluster n Key Value} {e : Event n Key Value}

/-- The version that an attempt, with the lock of the key, knows at replica `x`. -/
def recordOf (s : Cluster n Key Value) (ca : Fin n × ℕ) (x : Fin n) : Option (Key × ℤ) :=
  if x = ca.1 then (s.attempt ca).bind Coordinator.record
  else (s.handler ⟨ca.1, ca.2, x⟩).record

/-- Who has recorded a version has the lock. -/
theorem lockOf_of_recordOf {ca : Fin n × ℕ} {x : Fin n} {key : Key} {version : ℤ}
    (h : s.recordOf ca x = some (key, version)) : ∃ uid, s.lockOf ca x = some (key, uid) := by
  unfold recordOf at h
  unfold lockOf
  split_ifs at h ⊢
  · obtain ⟨co, hco, hrecord⟩ := Option.bind_eq_some_iff.mp h
    refine ⟨co.uid, Option.bind_eq_some_iff.mpr ⟨co, hco, ?_⟩⟩
    unfold Coordinator.record at hrecord
    split at hrecord <;> simp_all [Coordinator.lock, Coordinator.locking]
  · unfold Handler.record at h
    split at h <;> simp_all [Handler.lock, Handler.locking]

variable [DecidableEq Key] [Inhabited Value]

/-- A recorded version was recorded before and has at most grown, or it is the stored one. -/
theorem Change.record_cases (h : Change config s e t) {ca : Fin n × ℕ} {x : Fin n} {key : Key}
    {version : ℤ} (hrecord : t.recordOf ca x = some (key, version)) :
    (∃ old, s.recordOf ca x = some (key, old) ∧ old ≤ version) ∨
      version = (s.datastore x).storedVersion key := by
  unfold recordOf at hrecord ⊢
  split_ifs at hrecord ⊢ with hx
  · obtain ⟨co', hco', hrecord⟩ := Option.bind_eq_some_iff.mp hrecord
    have before : ∀ {co old}, s.attempt ca = some co → co.record = some (key, old) →
        old ≤ version → ∃ old, (s.attempt ca).bind Coordinator.record = some (key, old) ∧
          old ≤ version := fun hco ho hle => ⟨_, by rw [hco]; exact ho, hle⟩
    cases h.evolves hco' with
    | same current => exact .inl (before current hrecord le_rfl)
    | @request op => cases op <;> cases hrecord
    | @retry a co fresh previous =>
      cases hop : co.op <;> simp [Coordinator.record, Coordinator.nextAttempt, hop] at hrecord
    | @step co _ coordinators datastore current step =>
      cases hop : co.op with
      | get => cases step <;> simp_all [Coordinator.record]
      | put value =>
        cases step with
        | lock pc_eq op_eq prepared =>
          right
          simp only [Coordinator.record, hop, Option.some.injEq, Prod.mk.injEq] at hrecord
          obtain ⟨rfl, rfl⟩ := hrecord
          rw [hx]
          exact (DatastoreManager.prepare_eq_some prepared).2.2.1
        | connected pc_eq perm =>
          refine .inl (before current ?_ le_rfl)
          simpa [Coordinator.record, hop, pc_eq] using hrecord
        | _ => simp_all [Coordinator.record]
    | @sent co y m current => exact .inl (before current hrecord le_rfl)
    | @heard co y m rest current pc_eq =>
      obtain ⟨hop, hkey, -, hpc, -⟩ := co.heardFrom_same y m
      cases hop' : co.op with
      | get => simp [Coordinator.record, hop, hop'] at hrecord
      | put value =>
        simp only [Coordinator.record, hop, hop', hpc, pc_eq, hkey, Option.some.injEq,
          Prod.mk.injEq] at hrecord
        have hold : co.record = some (key, co.version) := by
          simp [Coordinator.record, hop', pc_eq, hrecord.1]
        exact .inl (before current hold (hrecord.2 ▸ co.version_le_hear m))
  · have hturn := h.turns ⟨ca.1, ca.2, x⟩
    generalize t.handler ⟨ca.1, ca.2, x⟩ = hd' at hrecord hturn
    cases hturn with
    | same => exact .inl ⟨version, hrecord, le_rfl⟩
    | flag =>
      refine .inl ⟨version, ?_, le_rfl⟩
      rwa [Handler.record_flag] at hrecord
    | deliver down_eq step =>
      generalize s.handler ⟨ca.1, ca.2, x⟩ = hd at step
      cases step <;> cases hrecord
    | proceed step =>
      generalize s.handler ⟨ca.1, ca.2, x⟩ = hd at step ⊢
      cases step with
      | lock prepared =>
        right
        cases hrecord
        exact (DatastoreManager.prepare_eq_some prepared).2.2.1
      | vote => exact .inl ⟨version, hrecord, le_rfl⟩
      | _ => cases hrecord
    | hangup => cases hrecord

/-! ## Committed puts are shielded -/

/-- The put `ca` of version `version` has its lock of the key at `x`, or everybody who reads
the version at `x` from now on reads at least this one. -/
def Shielded (s : Cluster n Key Value) (key : Key) (ca : Fin n × ℕ) (version : ℤ) (x : Fin n) :
    Prop :=
  (∃ uid, s.lockOf ca x = some (key, uid)) ∨
    version ≤ (s.datastore x).storedVersion key ∧
      ∀ cb known, s.recordOf cb x = some (key, known) → version ≤ known

omit [DecidableEq Key] [Inhabited Value] in
/-- The committed version is there wherever the key is not locked. -/
theorem Shielded.le_of_unlocked (hs : Inv config s) {key : Key} {ca : Fin n × ℕ} {version : ℤ}
    {x : Fin n} (h : Shielded s key ca version x) (hfree : (s.datastore x).owner2pc key = none) :
    version ≤ (s.datastore x).storedVersion key := by
  rcases h with ⟨uid, hlock⟩ | ⟨hle, -⟩
  · have howner : (s.datastore x).owner2pc key = some uid := (hs.lockedBy_iff.mpr hlock).owner
    rw [hfree] at howner
    cases howner
  · exact hle

/-- A committed put gives up its lock at a replica by storing its version there. -/
theorem Change.lock_lost (hs : Inv config s) (hsound : Sound s) (h : Change config s e t)
    {ca : Fin n × ℕ} {co : Coordinator (Fin n) Key Value} {x : Fin n} {uid : ℤ}
    (hco : s.attempt ca = some co) (hcommitted : co.committed)
    (hlock : s.lockOf ca x = some (co.key, uid)) :
    t.lockOf ca x = some (co.key, uid) ∨ co.version ≤ (t.datastore x).storedVersion co.key := by
  have hx : x ≠ ca.1 := by
    rintro rfl
    rw [lockOf, if_pos rfl, hco] at hlock
    unfold Coordinator.committed at hcommitted
    split at hcommitted <;> simp_all [Coordinator.lock, Coordinator.locking]
  have same : (t.handler ⟨ca.1, ca.2, x⟩).lock = (s.handler ⟨ca.1, ca.2, x⟩).lock →
      t.lockOf ca x = some (co.key, uid) := fun hh => by
    rw [← hlock, lockOf, lockOf, if_neg hx, if_neg hx, hh]
  rw [lockOf, if_neg hx] at hlock
  cases h with
  | request => exact .inl (same (by rw [handler_spawn]))
  | retry => exact .inl (same (by rw [handler_spawn, handler_move]))
  | move => exact .inl (same (by rw [handler_move]))
  | send => exact .inl (same (congrArg Handler.lock (congrFun (handler_move ..) _)))
  | reply => exact .inl (same (congrArg Handler.lock (congrFun (handler_move ..) _)))
  | @hangup ℓ co' current closed down_eq idle =>
    refine .inl (same ?_)
    rw [handler_handle]
    by_cases hℓ : (⟨ca.1, ca.2, x⟩ : Link n) = ℓ
    · rw [hℓ, update_self, idle]
      rfl
    · rw [update_of_ne hℓ]
  | @stale ℓ uid' key rest down_eq idle =>
    refine .inl (same ?_)
    change ((s.flag ℓ.peer uid' key).handler _).lock = _
    rcases s.handler_flag ⟨ca.1, ca.2, x⟩ ℓ.peer uid' key with he | ⟨-, -, he⟩ <;> simp [he]
  | @deliver ℓ m rest hd datastore down_eq step =>
    refine .inl (same ?_)
    change ((s.handle ℓ hd _ datastore).handler _).lock = _
    rw [handler_handle]
    by_cases hℓ : (⟨ca.1, ca.2, x⟩ : Link n) = ℓ
    · rw [hℓ, update_self]
      generalize s.handler ℓ = hd₀ at step
      cases step <;> rfl
    · rw [update_of_ne hℓ]
  | @proceed ℓ hd sent participants datastore step =>
    by_cases hℓ : (⟨ca.1, ca.2, x⟩ : Link n) = ℓ
    · have hphase : co.Phase ℓ.peer (s.handler ℓ) (s.down ℓ) (s.up ℓ) :=
        hs.phase (by rw [← hℓ]; exact hco)
      have hflagged : (s.handler ℓ).flagged → co.stage ℓ.peer = .toldAbort := fun hf =>
        hsound.flagged ℓ hf co (by rw [← hℓ]; exact hco)
      have hpeer : ℓ.peer = x := by rw [← hℓ]
      have hstored : (({ s.handle ℓ hd participants datastore with
          up := update s.up ℓ (s.up ℓ ++ sent.toList) } : Cluster n Key Value).datastore x) =
          datastore := by
        change (s.handle ℓ hd participants datastore).datastore x = datastore
        rw [datastore_handle, hpeer, update_self]
      have hlock' : hd.lock = (s.handler ℓ).lock →
          ({ s.handle ℓ hd participants datastore with
            up := update s.up ℓ (s.up ℓ ++ sent.toList) } : Cluster n Key Value).lockOf ca x =
            some (co.key, uid) := fun he => same (by
        change ((s.handle ℓ hd participants datastore).handler _).lock = _
        rw [handler_handle, hℓ, update_self, he])
      rw [hstored]
      rw [hℓ] at hlock
      generalize s.handler ℓ = hd₀ at step hphase hflagged hlock hlock'
      cases step with
      | vote => exact .inl (hlock' rfl)
      | @abort p _ flagged aborted =>
        exact absurd hcommitted (Coordinator.not_committed_of_toldAbort (hflagged flagged))
      | @commit p unflagged =>
        obtain ⟨value, hop, made, ⟨-, hflag⟩ | ⟨-, htimestamp⟩⟩ := hphase.decided
        · simp [unflagged] at hflag
        · rw [hsound.version ca co hco hcommitted] at htimestamp
          rw [← htimestamp, ← made.key_eq]
          exact .inr (DatastoreManager.le_storedVersion_commit ..)
      | _ => cases hlock
    · refine .inl (same ?_)
      change ((s.handle ℓ hd participants datastore).handler _).lock = _
      rw [handler_handle, update_of_ne hℓ]

theorem Shielded.change (hs : Inv config s) (hsound : Sound s) (hsrc : Sourced s)
    (hcount : Counted s) (h : Change config s e t) {ca : Fin n × ℕ}
    {co : Coordinator (Fin n) Key Value} {x : Fin n} (hco : s.attempt ca = some co)
    (hcommitted : co.committed) (hshield : Shielded s co.key ca co.version x) :
    Shielded t co.key ca co.version x := by
  rcases hshield with ⟨uid, hlock⟩ | ⟨hle, hrecords⟩
  · by_cases hkept : ∃ uid, t.lockOf ca x = some (co.key, uid)
    · exact .inl hkept
    · -- the lock is gone, so this was a step of the put itself and nobody else has the lock
      have hof : ca = e.of := by
        by_contra hne
        exact hkept ⟨uid, (h.lockOf_eq hne).trans hlock⟩
      refine .inr ⟨(h.lock_lost hs hsound hco hcommitted hlock).resolve_left fun hl =>
        hkept ⟨uid, hl⟩, fun cb known hrecord => ?_⟩
      obtain ⟨uid', hlock'⟩ := lockOf_of_recordOf hrecord
      have hcb : cb ≠ ca := by
        rintro rfl
        exact hkept ⟨uid', hlock'⟩
      rw [h.lockOf_eq (hof ▸ hcb)] at hlock'
      exact absurd ((hs.lockedBy_iff.mpr hlock').eq (hs.lockedBy_iff.mpr hlock)) hcb
  · refine .inr ⟨hle.trans (h.storedVersion_le hs hsound hsrc hcount x co.key),
      fun cb known hrecord => ?_⟩
    rcases h.record_cases hrecord with ⟨old, hold, hle'⟩ | hstored
    · exact (hrecords cb old hold).trans hle'
    · exact hstored ▸ hle

/-! ## New versions -/

/-- A put commits at the end of its window, by writing to its own datastore. -/
inductive Committing (config : Fin n → Settings (Fin n)) (s t : Cluster n Key Value)
    (ca : Fin n × ℕ) : Coordinator (Fin n) Key Value → Prop
  | intro {co : Coordinator (Fin n) Key Value} {value : Value}
      (window : Window config s co.key ca co) (op_eq : co.op = .put value)
      (attempt_eq : t.attempt = update s.attempt ca (some { co with
        version := co.version + 1, sender := fun _ => .unsent, pc := .committing }))
      (handler_eq : t.handler = s.handler)
      (datastore_eq : t.datastore = update s.datastore ca.1
        ((s.datastore ca.1).commit co.key value (co.version + 1))) :
      Committing config s t ca { co with
        version := co.version + 1, sender := fun _ => .unsent, pc := .committing }

theorem Change.newly_committed (hs : Inv config s) (h : Change config s e t) {ca : Fin n × ℕ}
    {co' : Coordinator (Fin n) Key Value} (hco' : t.attempt ca = some co')
    (hcommitted : co'.committed) :
    (∃ co, s.attempt ca = some co ∧ co.committed) ∨ Committing config s t ca co' := by
  refine (h.commits hs hco' hcommitted).imp_right ?_
  rintro ⟨action, co, value, -, -, hwindow, hop, rfl, rfl⟩
  exact .intro hwindow hop (attempt_move ..) (handler_move ..) (datastore_move ..)

/-- Every committed put is shielded at every member of its quorum. -/
def AllShielded (s : Cluster n Key Value) : Prop :=
  ∀ ca co, s.attempt ca = some co → co.committed →
    ∀ x ∈ ca.1 :: co.quorum, Shielded s co.key ca co.version x

omit [Inhabited Value] in
/-- A put that commits leaves its lock at the other members and its version in its own
datastore. -/
theorem Committing.shielded (hs : Inv config s) {ca : Fin n × ℕ}
    {co' : Coordinator (Fin n) Key Value} (h : Committing config s t ca co') :
    ∀ x ∈ ca.1 :: co'.quorum, Shielded t co'.key ca co'.version x := by
  obtain ⟨window, op_eq, attempt_eq, handler_eq, datastore_eq⟩ := h
  rename_i co value
  intro x hx
  have hlocked := window.locked hs x hx
  by_cases hself : x = ca.1
  · subst hself
    refine .inr ⟨?_, fun cb known hrecord => ?_⟩
    · rw [datastore_eq, update_self]
      exact DatastoreManager.le_storedVersion_commit ..
    · -- nobody else has the lock here, and the put itself has given it up
      obtain ⟨uid, hlock⟩ := lockOf_of_recordOf hrecord
      have hcb : cb ≠ ca := by
        rintro rfl
        rw [lockOf, if_pos rfl, attempt_eq, update_self] at hlock
        simp [Coordinator.lock, Coordinator.locking, op_eq] at hlock
      have hlock' : s.lockOf cb ca.1 = some (co.key, uid) := by
        rw [← hlock, lockOf, lockOf, attempt_eq, handler_eq, update_of_ne hcb]
      exact absurd ((hs.lockedBy_iff.mpr hlock').eq hlocked) hcb
  · refine .inl ⟨co.uid, ?_⟩
    rw [← hs.lockedBy_iff.mp hlocked, lockOf, lockOf, handler_eq, if_neg hself, if_neg hself]

theorem AllShielded.change (hs : Inv config s) (hsound : Sound s) (hsrc : Sourced s)
    (hcount : Counted s) (hshield : AllShielded s) (h : Change config s e t) : AllShielded t := by
  intro ca co' hco' hcommitted x hx
  rcases h.newly_committed hs hco' hcommitted with ⟨co, hco, hc⟩ | hnew
  · obtain ⟨co₁, hco₁, hlater⟩ := hs.later_of_change h ca co hco
    obtain rfl := Option.some.inj (hco₁.symm.trans hco')
    obtain ⟨-, hversion, hquorum⟩ := hlater.committed hc
    rw [hlater.key_eq, hversion]
    exact Shielded.change hs hsound hsrc hcount h hco hc (hshield ca co hco hc x (hquorum ▸ hx))
  · exact hnew.shielded hs x hx

omit [DecidableEq Key] [Inhabited Value] in
/-- A put in its window knows at least the version recorded at each member of its quorum. -/
theorem Window.recorded (hs : Inv config s) {key : Key} {ca : Fin n × ℕ}
    {co : Coordinator (Fin n) Key Value} (hw : Window config s key ca co) {x : Fin n}
    (hx : x ∈ ca.1 :: co.quorum) : ∃ known, s.recordOf ca x = some (key, known) ∧
      known ≤ co.version := by
  obtain ⟨value, hop⟩ := hw.is_put
  by_cases hself : x = ca.1
  · refine ⟨co.version, ?_, le_rfl⟩
    simp [recordOf, hself, hw.current, Coordinator.record, hop, hw.pc_eq, hw.key_eq]
  · obtain ⟨value, p, -, hh, made, hle⟩ := (hw.pledged hs).2 ⟨ca.1, ca.2, x⟩ rfl
      ((List.mem_cons.mp hx).resolve_left hself)
    refine ⟨p.timestamp, ?_, hle⟩
    rw [recordOf, if_neg hself, hh]
    simp [Handler.record, made.key_eq, hw.key_eq]

omit [Inhabited Value] in
/-- A put that commits gets a version above those of all committed puts of its key. -/
theorem Committing.version_lt
    (hquorums : ∀ c, (n : ℤ) < 2 * (config c).writeQuorum) (hs : Inv config s)
    (hshield : AllShielded s) {ca cb : Fin n × ℕ} {co' co : Coordinator (Fin n) Key Value}
    (h : Committing config s t ca co') (hco : s.attempt cb = some co) (hcommitted : co.committed)
    (hkey : co.key = co'.key) : co.version < co'.version := by
  obtain ⟨window, op_eq, -⟩ := h
  rename_i co₁ value _ _
  have hlength := (window.pledged hs).1
  have hlength' := ((hs.attempt_ok cb co hco).commit_ok hcommitted).2
  have hmajority := hquorums ca.1
  have hmajority' := hquorums cb.1
  obtain ⟨x, hx, hx'⟩ := exists_common_member rfl (hs.attempt_ok ca co₁ window.current).nodup
    (hs.attempt_ok cb co hco).nodup (by omega)
  obtain ⟨known, hrecord, hle⟩ := window.recorded hs hx
  rcases hshield cb co hco hcommitted x hx' with ⟨uid, hlock⟩ | ⟨-, hrecords⟩
  · -- the two puts are the same, which has not committed yet
    rw [hkey] at hlock
    obtain rfl := (window.locked hs x hx).eq (hs.lockedBy_iff.mpr hlock)
    obtain rfl := Option.some.inj (window.current.symm.trans hco)
    simp [Coordinator.committed, op_eq, window.pc_eq] at hcommitted
  · rw [hkey] at hrecords
    have := hrecords ca known hrecord
    dsimp only
    omega

end Cluster
end LeaderlessDatastore
