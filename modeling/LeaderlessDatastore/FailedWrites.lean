import LeaderlessDatastore.MutualExclusion

/-!
# Failed writes

An attempt of `Coordinator::put` that throws has changed no entry of any replica,
its own steps leave the locks of other attempts alone, and nothing of it stays
registered or locked at a replica that has handled what it was sent.
-/

namespace LeaderlessDatastore

open Function

/-- Blocked in `receive`, or ended. -/
def Handler.Receiving {Key Value : Type} : Handler Key Value → Prop
  | .idle | .deciding _ | .leaked _ | .closed => True
  | _ => False

namespace Cluster

variable {n : ℕ} {Key Value : Type}

/-- The attempt that an event is a step of. -/
def Event.of : Event n Key Value → Fin n × ℕ
  | .run c action => (c, action.of)
  | .send ℓ | .reply ℓ | .deliver ℓ | .proceed ℓ | .hangup ℓ => ℓ.source

/-- Replica `x` has handled all that the attempt has sent to it. -/
structure Handled (s : Cluster n Key Value) (ca : Fin n × ℕ) (x : Fin n) : Prop where
  down_eq : s.down ⟨ca.1, ca.2, x⟩ = []
  receiving : (s.handler ⟨ca.1, ca.2, x⟩).Receiving

/-- The lock that an attempt has at replica `x`, as its thread there knows it. -/
def lockOf (s : Cluster n Key Value) (ca : Fin n × ℕ) (x : Fin n) : Option (Key × ℤ) :=
  if x = ca.1 then (s.attempt ca).bind Coordinator.lock else (s.handler ⟨ca.1, ca.2, x⟩).lock

variable {config : Fin n → Settings (Fin n)} {s t u : Cluster n Key Value}
  {e : Event n Key Value} {ca cb : Fin n × ℕ} {x : Fin n} {key : Key} {uid : ℤ}

theorem held_holder (s : Cluster n Key Value) (ca : Fin n × ℕ) (x : Fin n) :
    (s.replica x).held (holder ca x) = s.lockOf ca x := by
  unfold holder lockOf
  split_ifs with hx
  · subst hx
    rfl
  · rfl

theorem Inv.lockedBy_iff (hs : Inv config s) :
    LockedBy s x key ca uid ↔ s.lockOf ca x = some (key, uid) := by
  have hok := (hs.replica_ok x).consistent
  rw [← held_holder]
  constructor
  · intro h
    obtain ⟨h', hheld⟩ := (hok.owner_iff key uid).mp h.owner
    have hseat := (hok.seat_iff key h').mpr (hok.occupied_of_held h' key uid hheld)
    rwa [Option.some.inj (h.seat.symm.trans hseat)]
  · intro hheld
    exact ⟨hok.owner_of_held hheld,
      (hok.seat_iff key _).mpr (hok.occupied_of_held _ key uid hheld)⟩

variable [DecidableEq Key] [Inhabited Value]

/-! ## Steps of an attempt -/

/-- The steps of one attempt do not touch the locks of another. -/
theorem Change.lockOf_eq (h : Change config s e t) (hne : cb ≠ e.of) :
    t.lockOf cb x = s.lockOf cb x := by
  have attempts : ∀ {co}, t.attempt = update s.attempt e.of (some co) → t.handler = s.handler →
      t.lockOf cb x = s.lockOf cb x := by
    intro co ha hh
    rw [lockOf, lockOf, ha, hh, update_of_ne hne]
  have handlers : ∀ {ℓ : Link n} {hd}, ℓ.source = e.of → t.attempt = s.attempt →
      t.handler = update s.handler ℓ hd → t.lockOf cb x = s.lockOf cb x := by
    intro ℓ hd hℓ ha hh
    have hne' : (⟨cb.1, cb.2, x⟩ : Link n) ≠ ℓ := fun he => hne (by rw [← hℓ, ← he]; rfl)
    rw [lockOf, lockOf, ha, hh, update_of_ne hne']
  cases h with
  | request => exact attempts (attempt_spawn ..) (handler_spawn ..)
  | @retry c a b co current pc_eq fresh =>
    by_cases hcb : cb = (c, b)
    · -- the new attempt has no lock yet
      subst hcb
      have hnew : (co.nextAttempt).lock = none := by
        simp [Coordinator.lock, Coordinator.locking, Coordinator.nextAttempt]
      simp only [lockOf, attempt_spawn, handler_spawn, handler_move, update_self, fresh,
        Option.bind_some, Option.bind_none, hnew]
    · simp only [lockOf, attempt_spawn, handler_spawn, handler_move, attempt_move,
        update_of_ne hcb]
      rw [update_of_ne (show cb ≠ (c, a) from hne)]
  | move => exact attempts (attempt_move ..) (handler_move ..)
  | send => exact attempts (attempt_move ..) (handler_move ..)
  | reply => exact attempts (attempt_move ..) (handler_move ..)
  | deliver => exact handlers rfl (attempt_handle ..) (handler_handle ..)
  | proceed => exact handlers rfl (attempt_handle ..) (handler_handle ..)
  | hangup => exact handlers rfl (attempt_handle ..) (handler_handle ..)
  | @stale ℓ uid key rest down_eq idle =>
    have ha : (s.flag ℓ.peer uid key).attempt = s.attempt := attempt_flag ..
    change (s.flag ℓ.peer uid key).lockOf cb x = s.lockOf cb x
    unfold lockOf
    rw [ha]
    rcases s.handler_flag ⟨cb.1, cb.2, x⟩ ℓ.peer uid key with he | ⟨-, -, he⟩ <;> simp [he]

/-- As long as a put has not committed, its steps change no entry. -/
theorem Change.datastore_eq (hs : Inv config s) (h : Change config s e t)
    (hput : ∀ co, t.attempt e.of = some co → co.op ≠ .get ∧ co.committed = false) (x : Fin n) :
    (t.datastore x).datastore = (s.datastore x).datastore := by
  have updates : ∀ {y ds}, t.datastore = update s.datastore y ds →
      ds.datastore = (s.datastore y).datastore →
      (t.datastore x).datastore = (s.datastore x).datastore := by
    intro y ds ht hds
    rw [ht]
    by_cases hx : x = y
    · subst hx
      rw [update_self, hds]
    · rw [update_of_ne hx]
  cases h with
  | request => rw [datastore_spawn]
  | retry current pc_eq fresh =>
    rw [datastore_spawn, datastore_move]
    exact congrArg DatastoreManager.datastore (congrFun (update_eq_self (f := s.datastore) _) x)
  | @move c action co co' coordinators datastore current step =>
    obtain ⟨hop, hcommitted⟩ := hput co' (by rw [attempt_move]; exact update_self ..)
    refine updates (datastore_move ..) ?_
    cases step with
    | lock pc_eq op_eq prepared => exact (DatastoreManager.prepare_eq_some prepared).2.1
    | commit pc_eq joined op_eq => simp [Coordinator.committed, op_eq] at hcommitted
    | release pc_eq aborted => exact (DatastoreManager.abort_eq_some aborted).1
    | repair pc_eq => exact absurd pc_eq ((hs.attempt_ok _ co current).put_pc hop).1
    | _ => rfl
  | send => exact updates (datastore_move ..) rfl
  | reply => exact updates (datastore_move ..) rfl
  | @deliver ℓ m rest h datastore down_eq step =>
    refine updates (datastore_handle ..) ?_
    obtain ⟨co, hco⟩ := hs.exists_attempt (ℓ := ℓ) (.inl (by simp [down_eq]))
    have hop := (hput co (by rw [← hco]; exact congrFun (attempt_handle ..) _)).1
    have hphase := hs.phase hco
    rw [down_eq] at hphase
    generalize s.handler ℓ = hd at step hphase
    cases step with
    | repair => exact (hop hphase.get_of_repair).elim
    | _ => rfl
  | stale => exact congrArg DatastoreManager.datastore (congrFun (datastore_flag ..) x)
  | @proceed ℓ h sent participants datastore step =>
    refine updates (datastore_handle ..) ?_
    have hphase := fun co (hco : s.attempt ℓ.source = some co) => hs.phase hco
    generalize hhd : s.handler ℓ = hd at step
    cases step with
    | lock prepared => exact (DatastoreManager.prepare_eq_some prepared).2.1
    | abort flagged aborted => exact (DatastoreManager.abort_eq_some aborted).1
    | commit unflagged =>
      obtain ⟨co, hco⟩ := hs.exists_attempt (ℓ := ℓ) (.inr (.inr (by simp [hhd])))
      have hcommitted := (hput co (by rw [← hco]; exact congrFun (attempt_handle ..) _)).2
      have hphase := hs.phase hco
      rw [hhd] at hphase
      obtain ⟨value, -, -, ⟨-, hflag⟩ | ⟨htold, -⟩⟩ := hphase.decided
      · simp [unflagged] at hflag
      · simp [Coordinator.committed_of_toldCommit htold] at hcommitted
    | _ => rfl
  | hangup => exact updates (datastore_handle ..) rfl

/-! ## Failed attempts -/

omit [DecidableEq Key] [Inhabited Value] in
/-- Nothing of a failed attempt stays at a replica that has handled its messages. -/
theorem Inv.quiet_of_failed (hs : Inv config s) {co : Coordinator (Fin n) Key Value}
    (hco : s.attempt ca = some co) (hfailed : co.failed) (hx : Handled s ca x) :
    (∀ key, (s.replica x).participants key ≠ some ca) ∧ ∀ key uid, ¬ LockedBy s x key ca uid := by
  obtain ⟨value, hop⟩ : ∃ value, co.op = .put value := by
    cases hop : co.op with
    | put value => exact ⟨value, rfl⟩
    | get => simp [Coordinator.failed, hop] at hfailed
  have hphase : co.Phase x (s.handler ⟨ca.1, ca.2, x⟩) (s.down ⟨ca.1, ca.2, x⟩)
      (s.up ⟨ca.1, ca.2, x⟩) := hs.phase (ℓ := ⟨ca.1, ca.2, x⟩) hco
  rw [hx.down_eq] at hphase
  have hquiet : s.handler ⟨ca.1, ca.2, x⟩ = .idle ∨ s.handler ⟨ca.1, ca.2, x⟩ = .closed := by
    refine hphase.quiet hop (Coordinator.stage_of_failed hfailed) ?_
    have := hx.receiving
    cases hh : s.handler ⟨ca.1, ca.2, x⟩ <;> simp_all [Handler.Receiving]
  constructor
  · intro key hreg
    have hseat : (s.handler ⟨ca.1, ca.2, x⟩).seat = some key :=
      (hs.replica_ok x).participants_eq.mp hreg
    rcases hquiet with hh | hh <;> simp [hh, Handler.seat, Handler.registered] at hseat
  · intro key uid hlocked
    have hlock := hs.lockedBy_iff.mp hlocked
    unfold lockOf at hlock
    split_ifs at hlock with hself
    · rw [hco] at hlock
      have hnone : co.lock = none := by
        unfold Coordinator.failed at hfailed
        split at hfailed <;> simp_all [Coordinator.lock, Coordinator.locking]
      simp [hnone] at hlock
    · rcases hquiet with hh | hh <;> simp [hh, Handler.lock, Handler.locking] at hlock

/-- A put that throws leaves no trace: none of its steps has changed an entry or taken a lock
away from another attempt, and where its messages are handled it holds nothing. -/
theorem failed_write_leaves_no_trace {readQuorum writeQuorum : ℤ}
    {contents : Fin n → Key → Option (Value × ℤ)}
    (hrun : Reachable readQuorum writeQuorum contents u) {co : Coordinator (Fin n) Key Value}
    (hco : u.attempt ca = some co) (hfailed : co.failed) :
    (∀ s e t, Reachable readQuorum writeQuorum contents s →
      step (settings n readQuorum writeQuorum) s e = some t →
      Run (settings n readQuorum writeQuorum) (fun _ _ => True) t u → e.of = ca →
        (∀ x, (t.datastore x).datastore = (s.datastore x).datastore) ∧
        ∀ x key cb uid, cb ≠ ca → LockedBy s x key cb uid → LockedBy t x key cb uid) ∧
    ∀ x, Handled u ca x →
      (∀ key, (u.replica x).participants key ≠ some ca) ∧ ∀ key uid, ¬ LockedBy u x key ca uid := by
  refine ⟨fun s e t hs hstep hrest he => ?_, fun x hx => hrun.inv.quiet_of_failed hco hfailed hx⟩
  subst he
  have hsinv := hs.inv
  have hchange := step_cases hsinv hstep
  have htinv := hsinv.change settings_ok hchange
  refine ⟨hchange.datastore_eq hsinv fun co₁ hco₁ => ?_, fun x key cb uid hne hlocked => ?_⟩
  · -- a put that had committed by now would not have thrown later
    obtain ⟨co₂, hco₂, hlater⟩ := htinv.later settings_ok hrest _ co₁ hco₁
    obtain rfl : co₂ = co := Option.some.inj (hco₂.symm.trans hco)
    constructor
    · intro hget
      simp [Coordinator.failed, hlater.op_eq, hget] at hfailed
    · by_contra hcommitted
      have := (hlater.committed (by simpa using hcommitted)).1
      unfold Coordinator.committed at this
      unfold Coordinator.failed at hfailed
      split at this <;> simp_all
  · rw [htinv.lockedBy_iff, hchange.lockOf_eq hne]
    exact hsinv.lockedBy_iff.mp hlocked

/-- Two replicas put the same key at the same time; the put of replica `c` has failed. -/
def refusedEvents (c x : Fin n) : List (Event n Text Text) :=
  [.run c (.request 0 (.put ['v']) ['k'] c)] ++ startEvents c x 0 ++
  [.run x (.request 0 (.put ['w']) ['k'] x), .run x (.addCoordinator 0), .run x (.begin 0)] ++
  askEvents c x 0 2 ++
  [.reply ⟨c, 0, x⟩, .run c (.decide 0), .send ⟨c, 0, x⟩, .run c (.closeAborted 0),
    .run c (.release 0), .deliver ⟨c, 0, x⟩]

theorem failed_write_leaves_no_trace_refused : ∃ (u : Cluster 2 Text Text) (co : _),
    u.attempt (0, 0) = some co ∧ co.failed ∧ Handled u (0, 0) 1 ∧
      (u.replica 1).datastore.owner2pc ['k'] = some 1 ∧
      (∀ key, (u.replica 1).participants key ≠ some (0, 0)) ∧
      ∀ key uid, ¬ LockedBy u 1 key (0, 0) uid := by
  obtain ⟨u, hexec⟩ : ∃ u, Transition.exec (step (settings 2 1 2)) (fun _ _ => true)
    (refusedEvents 0 1) (initial fun _ _ => none) = some u := ⟨_, rfl⟩
  have hrun := Transition.run_of_exec (fun _ _ _ => trivial) hexec
  obtain ⟨co, hco⟩ : ∃ co, u.attempt (0, 0) = some co := by
    cases hexec
    exact ⟨_, rfl⟩
  have hstate : co.failed ∧ Handled u (0, 0) 1 ∧
      (u.replica 1).datastore.owner2pc ['k'] = some 1 := by
    cases hexec
    cases hco
    exact ⟨rfl, ⟨rfl, trivial⟩, rfl⟩
  exact ⟨u, co, hco, hstate.1, hstate.2.1, hstate.2.2,
    (failed_write_leaves_no_trace hrun hco hstate.1).2 1 hstate.2.1⟩

end Cluster
end LeaderlessDatastore
