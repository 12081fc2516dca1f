import LeaderlessDatastore.Invariant

/-!
# Mutual exclusion of writes

A put that has all its replies and no abort vote holds the lock of its key at
every member of its quorum until its coordinator commits.  Two write quorums have
a member in common, so only one put of a key can be that far.
-/

namespace LeaderlessDatastore

open Function

namespace Cluster

variable {n : ℕ} {Key Value : Type} {readQuorum writeQuorum : ℤ}

/-! ## The configuration -/

theorem settings_quorums (readQuorum writeQuorum : ℤ) (c : Fin n) : ServerConfig.QuorumsOk n
    (settings n readQuorum writeQuorum c).readQuorum
    (settings n readQuorum writeQuorum c).writeQuorum := by
  have hsize : (0 : ℤ) ≤ n - 1 := by
    have := c.pos
    omega
  have := ServerConfig.normalise_ok readQuorum writeQuorum hsize
  rwa [sub_add_cancel] at this

theorem settings_ok (c : Fin n) : (settings n readQuorum writeQuorum c).Ok c where
  addresses := by
    have hnodup := List.nodup_finRange n
    have hc : (List.finRange n).idxOf c = c := by simp
    have herase : (List.finRange n).eraseIdx c = (List.finRange n).erase c := by
      rw [List.erase_eq_eraseIdx_of_idxOf hc]
    rw [settings, herase]
    exact List.nodup_cons.mpr ⟨hnodup.not_mem_erase, hnodup.erase c⟩
  read_pos := (settings_quorums readQuorum writeQuorum c).read_pos
  write_pos := by
    have := (settings_quorums readQuorum writeQuorum c).majority
    omega

/-! ## The window of a put -/

/-- The coordinator has counted a write quorum of replies, none of them a vote to abort, and
has yet to commit in its own datastore. -/
structure Window (config : Fin n → Settings (Fin n)) (s : Cluster n Key Value) (key : Key)
    (ca : Fin n × ℕ) (co : Coordinator (Fin n) Key Value) : Prop where
  current : s.attempt ca = some co
  key_eq : co.key = key
  is_put : ∃ value, co.op = .put value
  pc_eq : co.pc = .exchange
  counted : co.replies = (config ca.1).writeQuorum
  unanimous : co.abort = false

/-- The thread that works for an attempt at replica `x`. -/
def holder (ca : Fin n × ℕ) (x : Fin n) : Holder (Fin n) :=
  if x = ca.1 then .inl ca.2 else .inr ca

theorem holder_injective {ca cb : Fin n × ℕ} {x : Fin n} (h : holder ca x = holder cb x) :
    ca = cb := by
  unfold holder at h
  split_ifs at h with ha hb
  · exact Prod.ext (ha.symm.trans hb) (Sum.inl.inj h)
  · exact Sum.inr.inj h

/-- `owner2pc` locks the key under this id, and the registry gives it to this attempt. -/
structure LockedBy (s : Cluster n Key Value) (x : Fin n) (key : Key) (ca : Fin n × ℕ)
    (uid : ℤ) : Prop where
  owner : (s.replica x).datastore.owner2pc key = some uid
  seat : (s.replica x).seat key = some (holder ca x)

theorem LockedBy.eq {s : Cluster n Key Value} {x : Fin n} {key : Key} {ca cb : Fin n × ℕ}
    {uid uid' : ℤ} (h : LockedBy s x key ca uid) (h' : LockedBy s x key cb uid') : ca = cb :=
  holder_injective (Option.some.inj (h.seat.symm.trans h'.seat))

variable {config : Fin n → Settings (Fin n)} {s : Cluster n Key Value}

/-- A coordinator between `prepare` and the end of its transaction has its own lock. -/
theorem Inv.lockedBy_self (hs : Inv config s) {ca : Fin n × ℕ}
    {co : Coordinator (Fin n) Key Value} (hco : s.attempt ca = some co) (hlock : co.locking) :
    LockedBy s ca.1 co.key ca co.uid where
  owner := by
    have hheld : (s.replica ca.1).held (.inl ca.2) = some (co.key, co.uid) := by
      rw [Replica.held_inl hco, Coordinator.lock, if_pos hlock]
    exact (hs.replica_ok ca.1).consistent.owner_of_held hheld
  seat := by
    rw [holder, if_pos rfl, Replica.seat_eq_inl]
    exact hs.registered hco (co.registered_of_locking hlock)

/-- A participant between `prepare` and the end of its transaction has its lock. -/
theorem Inv.lockedBy_peer (hs : Inv config s) {ℓ : Link n} {p : Participant Key Value}
    (hne : ℓ.peer ≠ ℓ.coordinator) (hp : (s.handler ℓ).locking = some p) :
    LockedBy s ℓ.peer p.key ℓ.source p.uid where
  owner := by
    have hheld : (s.replica ℓ.peer).held (.inr ℓ.source) = some (p.key, p.uid) := by
      have hp' : ((s.replica ℓ.peer).handler ℓ.source).locking = some p := hp
      simp [Replica.held, Handler.lock, hp']
    exact (hs.replica_ok ℓ.peer).consistent.owner_of_held hheld
  seat := by
    have hreg : (s.handler ℓ).registered = some p := by
      unfold Handler.locking at hp
      unfold Handler.registered
      split at hp <;> simp_all
    rw [holder, if_neg (show ℓ.peer ≠ ℓ.source.1 from hne)]
    exact ((hs.replica_ok ℓ.peer).seat_eq_inr p.key ℓ.source).mpr (hs.participant hreg)

/-- Every member of the quorum is waiting, locked, for the decision. -/
theorem Window.pledged (hs : Inv config s) {key : Key} {ca : Fin n × ℕ}
    {co : Coordinator (Fin n) Key Value} (hw : Window config s key ca co) :
    ((ca.1 :: co.quorum).length : ℤ) = (config ca.1).writeQuorum ∧
      ∀ ℓ : Link n, ℓ.source = ca → ℓ.peer ∈ co.quorum → ∃ value p, co.op = .put value ∧
        s.handler ℓ = .deciding p ∧ co.Made value p ∧ p.timestamp ≤ co.version := by
  obtain ⟨value, hop⟩ := hw.is_put
  have hquorumSize : co.quorumSize (config ca.1) = (config ca.1).writeQuorum := by
    rw [Coordinator.quorumSize, hop]
  obtain ⟨hlength, hfinished⟩ := (hs.attempt_ok ca co hw.current).all_finished hw.pc_eq
    (hw.counted.trans hquorumSize.symm)
  refine ⟨hlength.trans hquorumSize, fun ℓ hℓ hx => ?_⟩
  have hanswered : co.stage ℓ.peer = .answered := by
    rw [Coordinator.stage_exchange hw.pc_eq hx, hfinished _ hx]
  obtain ⟨p, hh, made, hle⟩ :=
    (hs.phase (ℓ := ℓ) (hℓ ▸ hw.current)).pledge hop hanswered hw.unanimous
  exact ⟨value, p, hop, hh, made, hle⟩

theorem Window.locked (hs : Inv config s) {key : Key} {ca : Fin n × ℕ}
    {co : Coordinator (Fin n) Key Value} (hw : Window config s key ca co) :
    ∀ x ∈ ca.1 :: co.quorum, LockedBy s x key ca co.uid := by
  obtain ⟨value, hop⟩ := hw.is_put
  have hok := hs.attempt_ok ca co hw.current
  intro x hx
  rcases List.mem_cons.mp hx with rfl | hx
  · have := hs.lockedBy_self hw.current (by simp [Coordinator.locking, hop, hw.pc_eq])
    rwa [hw.key_eq] at this
  · have hne : x ≠ ca.1 := by
      rintro rfl
      exact (List.nodup_cons.mp hok.nodup).1 hx
    obtain ⟨value, p, -, hh, made, -⟩ := (hw.pledged hs).2 ⟨ca.1, ca.2, x⟩ rfl hx
    have := hs.lockedBy_peer (ℓ := ⟨ca.1, ca.2, x⟩) hne (p := p) (by rw [hh]; rfl)
    rwa [made.key_eq, made.uid_eq, hw.key_eq] at this

/-- Two quorums of writes, or one of a write and one of a read, have a common member. -/
theorem exists_common_member {N : ℤ} {l l' : List (Fin n)} (hN : N = n) (hl : l.Nodup)
    (hl' : l'.Nodup) (h : N < l.length + l'.length) : ∃ x, x ∈ l ∧ x ∈ l' := by
  refine Quorum.exists_common hl hl' ?_
  rw [Fintype.card_fin]
  omega

variable [DecidableEq Key] [Inhabited Value]

/-- A state that some run reaches from the given contents. -/
def Reachable (readQuorum writeQuorum : ℤ) (contents : Fin n → Key → Option (Value × ℤ))
    (s : Cluster n Key Value) : Prop :=
  Run (settings n readQuorum writeQuorum) (fun _ _ => True) (initial contents) s

theorem Reachable.inv {contents : Fin n → Key → Option (Value × ℤ)} {s : Cluster n Key Value}
    (h : Reachable readQuorum writeQuorum contents s) :
    Inv (settings n readQuorum writeQuorum) s :=
  (Inv.of_initial contents).run settings_ok h

/-- At most one put of a key is past its last reply and before its commit, and during that
time it has the key locked at a whole write quorum. -/
theorem write_mutual_exclusion {contents : Fin n → Key → Option (Value × ℤ)}
    (hrun : Reachable readQuorum writeQuorum contents s) (key : Key) :
    (∀ ca cb co co', Window (settings n readQuorum writeQuorum) s key ca co →
      Window (settings n readQuorum writeQuorum) s key cb co' → ca = cb) ∧
    ∀ ca co, Window (settings n readQuorum writeQuorum) s key ca co →
      (ca.1 :: co.quorum).Nodup ∧
      ((ca.1 :: co.quorum).length : ℤ) = (settings n readQuorum writeQuorum ca.1).writeQuorum ∧
      ∀ x ∈ ca.1 :: co.quorum, LockedBy s x key ca co.uid := by
  have hs := hrun.inv
  refine ⟨fun ca cb co co' hw hw' => ?_, fun ca co hw =>
    ⟨(hs.attempt_ok ca co hw.current).nodup, (hw.pledged hs).1, hw.locked hs⟩⟩
  have hmajority := (settings_quorums readQuorum writeQuorum ca.1).majority
  have hlength := (hw.pledged hs).1
  have hlength' : ((cb.1 :: co'.quorum).length : ℤ) =
    (settings n readQuorum writeQuorum ca.1).writeQuorum := (hw'.pledged hs).1
  obtain ⟨x, hx, hx'⟩ := exists_common_member rfl (hs.attempt_ok ca co hw.current).nodup
    (hs.attempt_ok cb co' hw'.current).nodup (by omega)
  exact (hw.locked hs x hx).eq (hw'.locked hs x hx')

/-! ## A run -/

/-- Attempt `a` at replica `c` goes up to its connection to `x`. -/
def startEvents (c x : Fin n) (a : ℕ) : List (Event n Text Text) :=
  [.run c (.addCoordinator a), .run c (.begin a), .run c (.connect a (fun _ => true) [x])]

/-- `x` is asked, its thread takes some steps on its own. -/
def askEvents (c x : Fin n) (a steps : ℕ) : List (Event n Text Text) :=
  [.send ⟨c, a, x⟩, .deliver ⟨c, a, x⟩] ++ List.replicate steps (.proceed ⟨c, a, x⟩)

/-- Replica `c` puts a value and `x` has voted for it. -/
def votedEvents (c x : Fin n) : List (Event n Text Text) :=
  [.run c (.request 0 (.put ['v']) ['k'] c)] ++ startEvents c x 0 ++ askEvents c x 0 3 ++
    [.reply ⟨c, 0, x⟩]

theorem write_mutual_exclusion_voted : ∃ (s : Cluster 2 Text Text) (co : _),
    Window (settings 2 1 2) s ['k'] (0, 0) co ∧
      (∀ cb co', Window (settings 2 1 2) s ['k'] cb co' → (0, 0) = cb) ∧
      LockedBy s 0 ['k'] (0, 0) co.uid ∧ LockedBy s 1 ['k'] (0, 0) co.uid := by
  obtain ⟨s, hexec⟩ : ∃ s, Transition.exec (step (settings 2 1 2)) (fun _ _ => true)
    (votedEvents 0 1) (initial fun _ _ => none) = some s := ⟨_, rfl⟩
  have hmutex := write_mutual_exclusion
    (Transition.run_of_exec (fun _ _ _ => trivial) hexec) ['k']
  obtain ⟨co, hco⟩ : ∃ co, s.attempt (0, 0) = some co := by
    cases hexec
    exact ⟨_, rfl⟩
  have hwindow : Window (settings 2 1 2) s ['k'] (0, 0) co ∧ co.quorum = [1] := by
    cases hexec
    cases hco
    exact ⟨⟨rfl, rfl, ⟨_, rfl⟩, rfl, rfl, rfl⟩, rfl⟩
  have hlocked := (hmutex.2 _ _ hwindow.1).2.2
  exact ⟨s, co, hwindow.1, fun cb co' => hmutex.1 _ _ _ _ hwindow.1, hlocked 0 (by simp),
    hlocked 1 (by simp [hwindow.2])⟩

end Cluster
end LeaderlessDatastore
