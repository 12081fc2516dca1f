import LeaderlessDatastore.Draining

/-!
# No deadlock

A state in which the cluster can take no step by itself is quiet: every attempt has
succeeded or failed, nothing that a thread could receive is under way, and no key is
registered or locked anywhere.
-/

namespace LeaderlessDatastore

open Function

/-! ## What is left to send -/

section Coordinators

variable {Peer Key Value : Type}

/-- The `REPAIR` for `x` has been sent. -/
def Coordinator.repairSent (co : Coordinator Peer Key Value) (x : Peer) : Prop :=
  co.sender x = .finished ∧ (co.pc = .repairing ∨ co.pc = .finish true ∨ co.pc = .succeeded)

/-- At most one `REPAIR` is sent to a peer, and the connection is not used after it. -/
structure Coordinator.Tidy (co : Coordinator Peer Key Value) (x : Peer) (h : Handler Key Value)
    (down : List (Message Key Value)) : Prop where
  closed : h = .closed → down = [] ∧ (co.closed ∨ co.repairSent x)
  repair : ∀ key value version, .repair key value version ∈ down →
    down.length = 1 ∧ co.repairSent x

variable {co co' : Coordinator Peer Key Value} {x : Peer} {h h' : Handler Key Value}
  {down : List (Message Key Value)}

theorem Coordinator.Tidy.of_idle : co.Tidy x (.idle : Handler Key Value) [] :=
  ⟨by simp, by simp⟩

theorem Coordinator.Tidy.grow (ht : co.Tidy x h down) (hclosed : co.closed → co'.closed)
    (hsent : co.repairSent x → co'.repairSent x) : co'.Tidy x h down where
  closed hh := (ht.closed hh).imp_right (Or.imp hclosed hsent)
  repair key value version hm := (ht.repair key value version hm).imp_right hsent

/-- The thread goes on, and does not close the connection. -/
theorem Coordinator.Tidy.handled (ht : co.Tidy x h down) (hh : h' ≠ .closed) : co.Tidy x h' down :=
  ⟨fun he => absurd he hh, ht.repair⟩

theorem Coordinator.Tidy.flag (ht : co.Tidy x h down) (uid : ℤ) : co.Tidy x (h.flag uid) down where
  closed hh := ht.closed (by cases h <;> simp_all [Handler.flag, Handler.mapParticipant])
  repair := ht.repair

theorem Coordinator.Tidy.delivered [DecidableEq Key] {r : Replica Peer Key Value}
    {conn : Peer × ℕ} {m : Message Key Value} {datastore : DatastoreManager Key Value}
    (ht : co.Tidy x h (m :: down)) (hstep : DeliverStep r conn h m h' datastore) :
    co.Tidy x h' down where
  closed hh := by
    subst hh
    cases hstep with
    | @repair key value timestamp =>
      obtain ⟨hlength, hsent⟩ := ht.repair key value timestamp List.mem_cons_self
      exact ⟨by simpa using hlength, .inr hsent⟩
  repair key value version hm := by
    have := (ht.repair key value version (List.mem_cons_of_mem _ hm)).1
    rw [List.length_cons, Nat.add_eq_right] at this
    simp [List.length_eq_zero_iff.mp this] at hm

theorem CoordinatorStep.repairSent [DecidableEq Key] [Inhabited Value] {settings : Settings Peer}
    {r : Replica Peer Key Value} {a : ℕ} {coordinators : Key → Option ℕ}
    {datastore : DatastoreManager Key Value}
    (hstep : CoordinatorStep settings r a co co' coordinators datastore)
    (h : co.repairSent x) : co'.repairSent x := by
  obtain ⟨hfinished, hpc⟩ := h
  cases hstep <;> simp_all [Coordinator.repairSent]

variable [DecidableEq Peer]

theorem Coordinator.repairSent_sentTo {y : Peer} (h : co.repairSent x) :
    (co.sentTo y).repairSent x := by
  obtain ⟨hfinished, hpc⟩ := h
  refine ⟨?_, hpc⟩
  have hexchange : co.pc ≠ .exchange := by
    rcases hpc with hpc | hpc | hpc <;> simp [hpc]
  by_cases hxy : x = y
  · simp [sentTo, hexchange, hxy]
  · simp [sentTo, hxy, hfinished]

/-- The `receive` of a participant does not throw. -/
theorem Coordinator.Phase.ne_leaked {up : List (Message Key Value)} (hp : co.Phase x h down up)
    (p : Participant Key Value) : h ≠ .leaked p := by
  rintro rfl
  unfold Phase at hp
  split at hp
  · cases hp <;> simp_all [Handler.working, Handler.Resting]
  · cases hp with
    | fresh stage_eq quiet => simp at quiet
    | answered stage_eq quiet => simp at quiet

theorem Coordinator.Tidy.sent {settings : Settings Peer} {c : Peer} {m : Message Key Value}
    {latest : Option (Value × ℤ)} {up : List (Message Key Value)} (hok : co.Ok settings c)
    (hx : x ∈ co.quorum) (hunsent : co.sender x = .unsent) (hm : co.message latest = some m)
    (hop : co.op = .get) (hp : co.Phase x h down up) (ht : co.Tidy x h down) :
    (co.sentTo x).Tidy x h (down ++ [m]) := by
  have hnot : ¬ co.repairSent x := fun hr => by simp [hr.1] at hunsent
  have hopen : co.closed = false := hok.not_closed (by
    rcases message_cases hok hm with ⟨hpc, -⟩ | ⟨hpc, -⟩ | ⟨hpc, -⟩ | ⟨hpc, -⟩ <;> simp [hpc])
  have hh : h ≠ .closed := fun hh => by simpa [hopen, hnot] using (ht.closed hh).2
  have hempty : down = [] := by
    by_contra hne
    obtain ⟨m', rest, rfl⟩ := List.exists_cons_of_ne_nil hne
    simp only [Phase, hop] at hp
    cases hp with
    | asked stage_eq =>
      rcases message_cases hok hm with ⟨hpc, -⟩ | ⟨hpc, -⟩ | ⟨hpc, -⟩ | ⟨hpc, -⟩ <;>
        simp_all [stage]
    | answered stage_eq quiet repairs =>
      obtain ⟨value, version, rfl⟩ := repairs m' List.mem_cons_self
      exact hnot (ht.repair _ _ _ List.mem_cons_self).2
  subst hempty
  refine ⟨fun he => absurd he hh, fun key value version hmem => ⟨rfl, ?_⟩⟩
  rcases message_cases hok hm with ⟨hpc, ⟨v, -, rfl⟩ | ⟨-, rfl⟩⟩ | ⟨hpc, -, rfl⟩ |
    ⟨hpc, v, -, rfl⟩ | ⟨hpc, -⟩
  · simp at hmem
  · simp at hmem
  · simp at hmem
  · simp at hmem
  · exact ⟨by simp [sentTo, hpc], .inl hpc⟩

end Coordinators

/-- A reply is taken, whatever it does. -/
theorem Replica.receive_ne_none {Peer Key Value : Type} [DecidableEq Peer]
    {r : Replica Peer Key Value} {a : ℕ} {x : Peer} {co : Coordinator Peer Key Value}
    (hco : r.attempt a = some co) (hpc : co.pc = .exchange) (hx : x ∈ co.quorum)
    (hwaiting : co.sender x = .waiting) (m : Message Key Value) : r.receive a x m ≠ none := by
  have hmodify : ∀ key f r', r.modifyCoordinator key f = some r' → (r'.attempt a).isSome := by
    intro key f r' h
    obtain ⟨b, -, h⟩ := Option.bind_eq_some_iff.mp h
    obtain ⟨co', hco', h⟩ := Option.bind_eq_some_iff.mp h
    cases h
    by_cases hab : a = b
    · simp [setAttempt, hab]
    · simp [setAttempt, hab, hco]
  have hmanage : ∀ r', r.manageReply m = some r' → (r'.attempt a).isSome := by
    intro r' h
    unfold manageReply at h
    split at h
    · exact hmodify _ _ _ h
    · exact hmodify _ _ _ h
    · exact hmodify _ _ _ h
    · cases h
      simp [hco]
    · cases h
  have hat : r.attemptAt a .exchange = some co := attemptAt_eq_some.mpr ⟨hco, hpc⟩
  simp only [receive, hat, Option.bind_eq_bind, Option.bind_some, hx, hwaiting, and_self,
    ↓reduceIte]
  split
  · next r' h => simpa [Option.isSome_iff_ne_none] using hmanage r' h
  · simp

namespace Cluster

variable {n : ℕ} {Key Value : Type} {config : Fin n → Settings (Fin n)}
  {s t u : Cluster n Key Value} {e : Event n Key Value} {ca : Fin n × ℕ} {ℓ : Link n}
  {co : Coordinator (Fin n) Key Value}

/-- The connections of the gets. -/
def TidyLinks (s : Cluster n Key Value) : Prop :=
  ∀ ℓ co, s.attempt ℓ.source = some co → co.op = .get → co.Tidy ℓ.peer (s.handler ℓ) (s.down ℓ)

structure Tidy (s : Cluster n Key Value) : Prop where
  values : ∀ ca co, s.attempt ca = some co → co.pc = .repair ∨ co.pc = .repairing → co.values ≠ []
  waiting : ∀ ca co, s.attempt ca = some co →
    co.pc = .aborting ∨ co.pc = .committing ∨ co.pc = .repairing → ∀ x, co.sender x ≠ .waiting
  links : TidyLinks s

theorem Tidy.of_initial (contents : Fin n → Key → Option (Value × ℤ)) :
    Tidy (initial contents : Cluster n Key Value) where
  values ca co h := by cases h
  waiting ca co h := by cases h
  links ℓ co h := by cases h

/-- Attempts change and the threads of the connections do not. -/
theorem TidyLinks.attempt (ht : TidyLinks s) {co' : Coordinator (Fin n) Key Value}
    (hattempt : t.attempt = update s.attempt ca (some co')) (hhandler : t.handler = s.handler)
    (hdown : t.down = s.down) (hnew : ∀ ℓ : Link n, ℓ.source = ca → co'.op = .get →
      co'.Tidy ℓ.peer (s.handler ℓ) (s.down ℓ)) : TidyLinks t := by
  intro ℓ co hco hop
  rw [hhandler, hdown]
  rw [hattempt] at hco
  rcases Occupancy.update_eq_some.mp hco with ⟨hsource, ⟨⟩⟩ | ⟨-, hold⟩
  · exact hnew ℓ hsource hop
  · exact ht ℓ co hold hop

/-- The thread of one connection changes, with the messages to it. -/
theorem TidyLinks.handler (ht : TidyLinks s) {h : Handler Key Value}
    (hattempt : t.attempt = s.attempt) (hhandler : t.handler = update s.handler ℓ h)
    (hdown : ∀ ℓ', ℓ' ≠ ℓ → t.down ℓ' = s.down ℓ')
    (hnew : ∀ co, s.attempt ℓ.source = some co → co.op = .get → co.Tidy ℓ.peer h (t.down ℓ)) :
    TidyLinks t := by
  intro ℓ' co hco hop
  rw [hattempt] at hco
  rw [hhandler]
  by_cases hℓ : ℓ' = ℓ
  · subst hℓ
    rw [update_self]
    exact hnew co hco hop
  · rw [update_of_ne hℓ, hdown ℓ' hℓ]
    exact ht ℓ' co hco hop

theorem Inv.tidy_of_fresh (hs : Inv config s) (hfresh : s.attempt ca = none)
    {co' : Coordinator (Fin n) Key Value} (hsource : ℓ.source = ca) :
    co'.Tidy ℓ.peer (s.handler ℓ) (s.down ℓ) := by
  have hlink := hs.link_ok ℓ
  rw [hsource, hfresh] at hlink
  rw [hlink.1, hlink.2.1]
  exact .of_idle

variable [DecidableEq Key] [Inhabited Value]

theorem Tidy.change (hs : Inv config s) (ht : Tidy s) (h : Change config s e t) : Tidy t where
  values ca co hco hpc := by
    cases h.evolves hco with
    | same current => exact ht.values ca co current hpc
    | request | retry => simp [Coordinator.nextAttempt] at hpc
    | @step co₁ _ _ _ current step =>
      have hold := ht.values ca co₁ current
      cases step with
      | answer pc_eq joined op_eq counted latest =>
        exact List.ne_nil_of_mem (Coordinator.getLatestValue_mem latest)
      | _ => simp_all
    | @sent co₁ x m current => exact ht.values ca co₁ current hpc
    | @heard co₁ x m rest current pc_eq =>
      simp [(co₁.heardFrom_same x m).2.2.2.1, pc_eq] at hpc
  waiting ca co hco hpc x := by
    cases h.evolves hco with
    | same current => exact ht.waiting ca co current hpc x
    | request | retry => simp [Coordinator.nextAttempt] at hpc
    | @step co₁ _ _ _ current step =>
      have hold := ht.waiting ca co₁ current
      cases step <;> simp_all
    | @sent co₁ y m current =>
      have hold := ht.waiting ca co₁ current hpc x
      have hexchange : co₁.pc ≠ .exchange := by
        rcases (show co₁.pc = _ ∨ co₁.pc = _ ∨ co₁.pc = _ from hpc) with hpc | hpc | hpc <;>
          simp [hpc]
      by_cases hxy : x = y
      · simp [Coordinator.sentTo, hexchange, hxy]
      · simpa [Coordinator.sentTo, hxy] using hold
    | @heard co₁ y m rest current pc_eq =>
      simp [(co₁.heardFrom_same y m).2.2.2.1, pc_eq] at hpc
  links := by
    cases h with
    | request fresh =>
      exact ht.links.attempt (attempt_spawn ..) (handler_spawn ..) rfl fun ℓ hℓ _ =>
        hs.tidy_of_fresh fresh hℓ
    | @retry c a b co current pc_eq fresh =>
      have hstep : CoordinatorStep (config c) (s.replica c) a co { co with pc := .superseded }
        (s.replica c).coordinators (s.replica c).datastore := .supersede pc_eq
      have hold : TidyLinks (s.move (c, a) { co with pc := .superseded }
          (s.replica c).coordinators (s.replica c).datastore) :=
        ht.links.attempt (attempt_move ..) (handler_move ..) rfl fun ℓ hℓ hop =>
          (ht.links ℓ co (hℓ ▸ current) hop).grow id hstep.repairSent
      refine hold.attempt (attempt_spawn ..) (handler_spawn ..) rfl fun ℓ hℓ _ => ?_
      rw [handler_move]
      exact hs.tidy_of_fresh fresh hℓ
    | @move c action co co' coordinators datastore current step =>
      refine ht.links.attempt (attempt_move ..) (handler_move ..) rfl fun ℓ hℓ hop => ?_
      have hok := hs.attempt_ok _ co current
      exact (ht.links ℓ co (hℓ ▸ current) (step.same_request.1 ▸ hop)).grow
        (hok.grows (x := ℓ.peer) step).closed_le step.repairSent
    | @send ℓ co m current mem unsent message =>
      intro ℓ' co' hco' hop
      change (s.move _ _ _ _).attempt ℓ'.source = some co' at hco'
      change co'.Tidy ℓ'.peer ((s.move _ _ _ _).handler ℓ') (update s.down ℓ (s.down ℓ ++ [m]) ℓ')
      rw [attempt_move] at hco'
      rw [handler_move]
      rcases Occupancy.update_eq_some.mp hco' with ⟨hsource, ⟨⟩⟩ | ⟨hsource, hold⟩
      · have htidy := ht.links ℓ' co (hsource ▸ current) hop
        by_cases hℓ : ℓ' = ℓ
        · subst hℓ
          rw [update_self]
          exact htidy.sent (hs.attempt_ok _ co current) mem unsent message hop (hs.phase current)
        · rw [update_of_ne hℓ]
          exact htidy.grow id Coordinator.repairSent_sentTo
      · rw [update_of_ne fun he => hsource (congrArg Link.source he)]
        exact ht.links ℓ' co' hold hop
    | @reply ℓ co m rest current pc_eq mem waiting up_eq =>
      refine ht.links.attempt (attempt_move ..) (handler_move ..) rfl fun ℓ' hℓ hop => ?_
      obtain ⟨hop', -, -, -, -, hclosed, -⟩ := co.heardFrom_same ℓ.peer m
      refine (ht.links ℓ' co (hℓ ▸ current) (hop' ▸ hop)).grow (by rw [hclosed]; exact id) ?_
      rintro ⟨-, hpc⟩
      simp [pc_eq] at hpc
    | @deliver ℓ m rest h datastore down_eq step =>
      refine ht.links.handler (attempt_handle ..) (handler_handle ..)
        (fun ℓ' hℓ => update_of_ne hℓ ..) fun co hco hop => ?_
      change co.Tidy ℓ.peer h (update s.down ℓ rest ℓ)
      rw [update_self]
      have htidy := ht.links ℓ co hco hop
      rw [down_eq] at htidy
      exact htidy.delivered step
    | @stale ℓ uid key rest down_eq idle =>
      intro ℓ' co hco hop
      change (s.flag _ _ _).attempt ℓ'.source = some co at hco
      change co.Tidy ℓ'.peer ((s.flag _ _ _).handler ℓ') (update s.down ℓ rest ℓ')
      rw [attempt_flag] at hco
      have hne : ℓ' ≠ ℓ := by
        rintro rfl
        have hphase := hs.phase hco
        rw [down_eq, idle] at hphase
        obtain ⟨⟨value, hput⟩, -⟩ := hphase.stale
        simp [hop] at hput
      rw [update_of_ne hne]
      have htidy := ht.links ℓ' co hco hop
      rcases s.handler_flag ℓ' ℓ.peer uid key with he | ⟨-, -, he⟩ <;> rw [he]
      · exact htidy
      · exact htidy.flag uid
    | @proceed ℓ h sent participants datastore step =>
      refine ht.links.handler (attempt_handle ..) (handler_handle ..) (fun _ _ => rfl)
        fun co hco hop => (ht.links ℓ co hco hop).handled ?_
      generalize s.handler ℓ = hd at step
      cases step <;> simp
    | @hangup ℓ co current closed down_eq idle =>
      refine ht.links.handler (attempt_handle ..) (handler_handle ..) (fun _ _ => rfl)
        fun co₁ hco₁ hop => ?_
      obtain rfl := Option.some.inj (hco₁.symm.trans current)
      change Coordinator.Tidy _ _ _ (s.down ℓ)
      rw [down_eq]
      exact ⟨fun _ => ⟨rfl, .inl closed⟩, by simp⟩

theorem Tidy.run {allowed : Cluster n Key Value → Event n Key Value → Prop}
    (hset : ∀ c, (config c).Ok c) (hs : Inv config s) (ht : Tidy s)
    (h : Run config allowed s t) : Tidy t :=
  (h.preserves (P := fun s => Inv config s ∧ Tidy s) (fun _ _ _ hs _ hstep =>
    ⟨hs.1.change hset (step_cases hs.1 hstep), hs.2.change hs.1 (step_cases hs.1 hstep)⟩)
    ⟨hs, ht⟩).2

/-! ## Stuck states -/

/-- The cluster can take no step by itself. -/
def Stuck (config : Fin n → Settings (Fin n)) (s : Cluster n Key Value) : Prop :=
  ∀ e : Event n Key Value, e.internal → step config s e = none

theorem Stuck.run (h : Stuck config s) (c : Fin n) {action : Replica.Action (Fin n) Key Value}
    (hinternal : (Event.run c action).internal) : (s.replica c).run (config c) action = none :=
  Option.map_eq_none_iff.mp (h (.run c action) hinternal)

/-- Everybody the coordinator has something to say to has been told. -/
theorem Stuck.sender_ne_unsent (h : Stuck config s) (hco : s.attempt ca = some co) {x : Fin n}
    (hx : x ∈ co.quorum)
    (hm : (co.message (Coordinator.getLatestValue co.values)).isSome) : co.sender x ≠ .unsent := by
  intro hunsent
  obtain ⟨m, hm⟩ := Option.isSome_iff_exists.mp hm
  have hsend := Option.map_eq_none_iff.mp (h (.send ⟨ca.1, ca.2, x⟩) rfl)
  have hco' : (s.replica ca.1).attempt ca.2 = some co := hco
  simp [Replica.send, hco', hx, hunsent, hm] at hsend

theorem Stuck.joined (h : Stuck config s) (ht : Tidy s) (hco : s.attempt ca = some co)
    (hpc : co.pc = .aborting ∨ co.pc = .committing ∨ co.pc = .repairing)
    (hm : (co.message (Coordinator.getLatestValue co.values)).isSome) : co.joined := by
  refine List.all_eq_true.mpr fun x hx => ?_
  have hunsent := h.sender_ne_unsent hco hx hm
  have hwaiting := ht.waiting ca co hco hpc x
  cases hsender : co.sender x <;> simp_all

/-- The thread of a connection waits in `receive`, or reads a locked key. -/
theorem Stuck.handler (h : Stuck config s) (hs : Inv config s) (ℓ : Link n) :
    s.handler ℓ = .idle ∨ s.handler ℓ = .closed ∨ (∃ p, s.handler ℓ = .deciding p) ∨
      ∃ key, s.handler ℓ = .fetching key ∧ (s.datastore ℓ.peer).owner2pc key ≠ none := by
  have hproceed := Option.map_eq_none_iff.mp (h (.proceed ℓ) rfl)
  cases hh : s.handler ℓ with
  | idle => exact .inl rfl
  | closed => exact .inr (.inl rfl)
  | deciding p => exact .inr (.inr (.inl ⟨p, rfl⟩))
  | fetching key =>
    have hh' : (s.replica ℓ.peer).handler ℓ.source = .fetching key := hh
    refine .inr (.inr (.inr ⟨key, rfl, fun hfree => ?_⟩))
    simp only [Replica.proceed, hh', Option.map_eq_none_iff] at hproceed
    exact DatastoreManager.get_ne_none hfree _ hproceed
  | registering p =>
    have hh' : (s.replica ℓ.peer).handler ℓ.source = .registering p := hh
    simp only [Replica.proceed, hh'] at hproceed
    split_ifs at hproceed
  | preparing p =>
    have hh' : (s.replica ℓ.peer).handler ℓ.source = .preparing p := hh
    simp only [Replica.proceed, hh'] at hproceed
    split at hproceed <;> cases hproceed
  | decided p =>
    have hh' : (s.replica ℓ.peer).handler ℓ.source = .decided p := hh
    simp only [Replica.proceed, hh'] at hproceed
    split_ifs at hproceed
    -- the participant still has its lock
    have hheld : (s.replica ℓ.peer).held (.inr ℓ.source) = some (p.key, p.uid) := by
      simp [Replica.held, hh', Handler.lock, Handler.locking]
    obtain ⟨datastore, habort, -⟩ := (hs.replica_ok ℓ.peer).abort_eq_some hheld
    simp [habort] at hproceed
  | leaked p =>
    obtain ⟨co, hco⟩ := hs.exists_attempt (ℓ := ℓ) (.inr (.inr (by simp [hh])))
    exact absurd hh ((hs.phase hco).ne_leaked p)
  | refusing p | declining p | voting p | leaving p =>
    have hh' : (s.replica ℓ.peer).handler ℓ.source = _ := hh
    simp [Replica.proceed, hh'] at hproceed
  | replying key result =>
    have hh' : (s.replica ℓ.peer).handler ℓ.source = _ := hh
    simp [Replica.proceed, hh'] at hproceed

/-- Whoever waits for a message has none to take. -/
theorem Stuck.down_eq_nil (h : Stuck config s) (hs : Inv config s)
    (hwaits : s.handler ℓ = .idle ∨ ∃ p, s.handler ℓ = .deciding p) : s.down ℓ = [] := by
  by_contra hne
  obtain ⟨m, rest, hdown⟩ := List.exists_cons_of_ne_nil hne
  obtain ⟨co, hco⟩ := hs.exists_attempt (ℓ := ℓ) (.inl hne)
  have hdeliver := h (.deliver ℓ) rfl
  simp only [step, hdown, Option.map_eq_none_iff] at hdeliver
  have hphase := hs.phase hco
  rw [hdown] at hphase
  generalize s.up ℓ = up at hphase
  have hhandler : s.handler ℓ = (s.replica ℓ.peer).handler ℓ.source := rfl
  unfold Coordinator.Phase at hphase
  rcases hwaits with hh | ⟨p, hh⟩
  · rw [hh] at hphase
    rw [hhandler] at hh
    split at hphase
    · cases hphase <;> simp [Replica.deliver, hh] at hdeliver
    · cases hphase with
      | asked => simp [Replica.deliver, hh] at hdeliver
      | answered stage_eq quiet repairs =>
        obtain ⟨value, version, rfl⟩ := repairs m List.mem_cons_self
        simp [Replica.deliver, hh] at hdeliver
  · have hreg := hs.participant (ℓ := ℓ) (p := p) (by rw [hh]; rfl)
    rw [hh] at hphase
    rw [hhandler] at hh
    split at hphase
    · cases hphase with
      | abortSent => simp [Replica.deliver, hh] at hdeliver
      | commitSent stage_eq made =>
        rw [made.key_eq] at hreg
        simp [Replica.deliver, hh, Replica.globalCommit, hreg] at hdeliver
      | staleAbortSent stage_eq resting => exact resting
    · cases hphase with
      | answered stage_eq quiet => simp at quiet

theorem Stuck.up_eq_nil (h : Stuck config s) (hco : s.attempt ca = some co)
    (hpc : co.pc = .exchange) {x : Fin n} (hx : x ∈ co.quorum) (hwaiting : co.sender x = .waiting) :
    s.up ⟨ca.1, ca.2, x⟩ = [] := by
  by_contra hne
  obtain ⟨m, rest, hup⟩ := List.exists_cons_of_ne_nil hne
  have hreply := h (.reply ⟨ca.1, ca.2, x⟩) rfl
  simp only [step, hup, Option.map_eq_none_iff] at hreply
  exact Replica.receive_ne_none hco hpc hx hwaiting m hreply

/-- Only a get can be stuck in its exchange, where it reads a locked key. -/
theorem Stuck.exchange (h : Stuck config s) (hs : Inv config s) (hco : s.attempt ca = some co)
    (hpc : co.pc = .exchange) : co.op = .get ∧ ∃ x, (s.datastore x).owner2pc co.key ≠ none := by
  have hmessage : ∀ latest, (co.message latest).isSome := by
    intro latest
    cases hop : co.op <;> simp [Coordinator.message, hpc, hop]
  -- somebody has not answered
  obtain ⟨x, hx, hwaiting⟩ : ∃ x ∈ co.quorum, co.sender x = .waiting := by
    by_contra hnone
    push Not at hnone
    have hjoined : co.joined := by
      refine List.all_eq_true.mpr fun x hx => ?_
      have hunsent := h.sender_ne_unsent hco hx (hmessage _)
      have hwaiting := hnone x hx
      cases hsender : co.sender x <;> simp_all
    have hdecide : (s.replica ca.1).run (config ca.1) (.decide ca.2) = none := h.run ca.1 rfl
    have hat : (s.replica ca.1).attemptAt ca.2 .exchange = some co :=
      Replica.attemptAt_eq_some.mpr ⟨hco, hpc⟩
    simp only [Replica.run, Replica.decide, hat, Option.bind_eq_bind, Option.bind_some, hjoined,
      ↓reduceIte] at hdecide
    split at hdecide <;> split at hdecide
    · cases hdecide
    · cases hdecide
    · cases hdecide
    · split at hdecide <;> cases hdecide
  have hphase := hs.phase (ℓ := ⟨ca.1, ca.2, x⟩) hco
  have hstage : co.stage x = .asked := by
    rw [Coordinator.stage_exchange hpc hx, hwaiting]
  have hup := h.up_eq_nil hco hpc hx hwaiting
  have hhandler := h.handler hs ⟨ca.1, ca.2, x⟩
  have hdown := h.down_eq_nil (ℓ := ⟨ca.1, ca.2, x⟩) hs
  rw [hup] at hphase
  generalize s.handler ⟨ca.1, ca.2, x⟩ = hd at hphase hhandler hdown
  generalize s.down ⟨ca.1, ca.2, x⟩ = down at hphase hdown
  unfold Coordinator.Phase at hphase
  split at hphase
  · exfalso
    cases hphase with
    | asked => simpa using hdown (.inl rfl)
    | @working hd p stage_eq working_eq =>
      rcases hhandler with rfl | rfl | ⟨p, rfl⟩ | ⟨key, rfl, -⟩ <;>
        simp [Handler.working] at working_eq
    | ended stage_eq => rcases stage_eq with he | he <;> simp [hstage] at he
    | _ => simp_all
  · next hop =>
    refine ⟨hop, x, ?_⟩
    cases hphase with
    | asked => simpa using hdown (.inl rfl)
    | fetching => simpa using hhandler
    | replying => simp at hhandler
    | _ => simp_all

/-- Nobody is stuck but where a key is registered or locked. -/
theorem Stuck.pc (h : Stuck config s) (hs : Inv config s) (ht : Tidy s)
    (hco : s.attempt ca = some co) :
    co.pc = .succeeded ∨ co.pc = .backoff ∨ co.pc = .superseded ∨
      co.pc = .register ∧ (s.replica ca.1).free co.key = false ∨
      co.op = .get ∧ ∃ x, (s.datastore x).owner2pc co.key ≠ none := by
  have hat : ∀ {pc}, co.pc = pc → (s.replica ca.1).attemptAt ca.2 pc = some co := fun hpc =>
    Replica.attemptAt_eq_some.mpr ⟨hco, hpc⟩
  have hok := hs.attempt_ok ca co hco
  have hjoined := h.joined ht hco
  cases hpc : co.pc with
  | succeeded => exact .inl rfl
  | backoff => exact .inr (.inl rfl)
  | superseded => exact .inr (.inr (.inl rfl))
  | register =>
    have henter : (s.replica ca.1).run (config ca.1) (.addCoordinator ca.2) = none := h.run ca.1 rfl
    simp only [Replica.run, Replica.addCoordinator, hat hpc, Option.bind_eq_bind,
      Option.bind_some] at henter
    split_ifs at henter with hfree
    exact .inr (.inr (.inr (.inl ⟨rfl, by simpa using hfree⟩)))
  | begin =>
    have hbegin : (s.replica ca.1).run (config ca.1) (.begin ca.2) = none := h.run ca.1 rfl
    simp only [Replica.run, Replica.begin, hat hpc, Option.bind_eq_bind, Option.bind_some] at hbegin
    cases hop : co.op with
    | put value =>
      simp only [hop] at hbegin
      split at hbegin <;> cases hbegin
    | get =>
      refine .inr (.inr (.inr (.inr ⟨rfl, ca.1, fun hfree => ?_⟩)))
      simp only [hop] at hbegin
      split at hbegin
      · next hget => exact DatastoreManager.get_ne_none hfree _ hget
      · cases hbegin
  | connect =>
    have hconnect : (s.replica ca.1).run (config ca.1)
        (.connect ca.2 (fun _ => true) (config ca.1).replicaAddresses) = none := h.run ca.1 rfl
    simp only [Replica.run, Replica.connect, hat hpc, Option.bind_eq_bind, Option.bind_some,
      List.Perm.refl, ↓reduceIte] at hconnect
    split at hconnect <;> cases hconnect
  | exchange => exact .inr (.inr (.inr (.inr (h.exchange hs hco hpc))))
  | aborting =>
    have hclose : (s.replica ca.1).run (config ca.1) (.closeAborted ca.2) = none := h.run ca.1 rfl
    have hj := hjoined (.inl hpc) (by cases hop : co.op <;> simp [Coordinator.message, hpc])
    simp [Replica.run, Replica.closeAborted, hat hpc, hj] at hclose
  | release =>
    have hrelease : (s.replica ca.1).run (config ca.1) (.release ca.2) = none := h.run ca.1 rfl
    simp only [Replica.run, Replica.release, hat hpc, Option.bind_eq_bind,
      Option.bind_some] at hrelease
    split at hrelease <;> cases hrelease
  | committing =>
    have hack : (s.replica ca.1).run (config ca.1) (.acknowledge ca.2) = none := h.run ca.1 rfl
    have hj := hjoined (.inr (.inl hpc)) (by
      cases hop : co.op with
      | put value => simp [Coordinator.message, hpc, hop]
      | get => exact absurd hpc (hok.get_pc hop).2.2)
    simp [Replica.run, Replica.acknowledge, hat hpc, hj] at hack
  | repair =>
    have hrepair : (s.replica ca.1).run (config ca.1) (.repair ca.2) = none := h.run ca.1 rfl
    have hvalues := ht.values ca co hco (.inl hpc)
    simp only [Replica.run, Replica.repair, hat hpc, Option.bind_eq_bind, Option.bind_some,
      Option.bind_eq_none_iff, reduceCtorEq, imp_false] at hrepair
    exact absurd (Coordinator.getLatestValue_eq_none.mp (Option.eq_none_iff_forall_not_mem.mpr
      hrepair)) hvalues
  | repairing =>
    have hend : (s.replica ca.1).run (config ca.1) (.endRepair ca.2) = none := h.run ca.1 rfl
    have hvalues := ht.values ca co hco (.inr hpc)
    have hj := hjoined (.inr (.inr hpc)) (by
      cases hlatest : Coordinator.getLatestValue co.values with
      | none => exact absurd (Coordinator.getLatestValue_eq_none.mp hlatest) hvalues
      | some entry => simp [Coordinator.message, hpc])
    simp [Replica.run, Replica.endRepair, hat hpc, hj] at hend
  | finish returned =>
    have hremove : (s.replica ca.1).run (config ca.1) (.removeCoordinator ca.2) = none :=
      h.run ca.1 rfl
    have hco' : (s.replica ca.1).attempt ca.2 = some co := hco
    simp [Replica.run, Replica.removeCoordinator, hco', hpc] at hremove

/-- A thread that has a lock can go on. -/
theorem Stuck.unlocked (h : Stuck config s) (hs : Inv config s) (ht : Tidy s) (x : Fin n)
    (key : Key) : (s.datastore x).owner2pc key = none := by
  by_contra hlocked
  obtain ⟨uid, howner⟩ := Option.ne_none_iff_exists'.mp hlocked
  obtain ⟨holder, hheld⟩ := ((hs.replica_ok x).consistent.owner_iff key uid).mp howner
  cases holder with
  | inl a =>
    obtain ⟨co, hco, hlock⟩ := Option.bind_eq_some_iff.mp hheld
    have hlocking : co.locking := by
      by_contra hnot
      simp [Coordinator.lock, hnot] at hlock
    have hco' : s.attempt (x, a) = some co := hco
    have hpc := h.pc hs ht hco'
    unfold Coordinator.locking at hlocking
    split at hlocking <;> simp_all
  | inr conn =>
    obtain ⟨c, a⟩ := conn
    have hheld' : (s.handler ⟨c, a, x⟩).lock = some (key, uid) := hheld
    obtain ⟨p, hh⟩ : ∃ p, s.handler ⟨c, a, x⟩ = .deciding p := by
      rcases h.handler hs ⟨c, a, x⟩ with hh | hh | hh | ⟨key, hh, -⟩
      · simp [hh, Handler.lock, Handler.locking] at hheld'
      · simp [hh, Handler.lock, Handler.locking] at hheld'
      · exact hh
      · simp [hh, Handler.lock, Handler.locking] at hheld'
    obtain ⟨co, hco⟩ := hs.exists_attempt (ℓ := ⟨c, a, x⟩) (.inr (.inr (by simp [hh])))
    have hphase := hs.phase hco
    have hdown := h.down_eq_nil (ℓ := ⟨c, a, x⟩) hs (.inr ⟨p, hh⟩)
    rw [hh, hdown] at hphase
    generalize s.up ⟨c, a, x⟩ = up at hphase
    unfold Coordinator.Phase at hphase
    split at hphase
    · next value hop =>
      -- the decision would still have to be made or sent
      have hpc := h.pc hs ht hco
      have hstage : co.stage x ≠ .asked ∧ co.stage x ≠ .answered := by
        unfold Coordinator.stage
        rcases hpc with hpc | hpc | hpc | ⟨hpc, -⟩ | ⟨hget, -⟩
        · split_ifs <;> simp [hop, hpc]
        · split_ifs <;> simp [hop, hpc]
        · split_ifs <;> simp [hop, hpc]
        · simp [hop, hpc]
        · simp [hop] at hget
      cases hphase <;> simp_all [Handler.Resting]
    · cases hphase with
      | fresh stage_eq quiet => simp at quiet
      | answered stage_eq quiet => simp at quiet

/-! ## Quiet states -/

/-- Nothing is going on: clients wait only for attempts that have failed. -/
structure Quiet (s : Cluster n Key Value) : Prop where
  attempts : ∀ ca co, s.attempt ca = some co →
    co.pc = .succeeded ∨ co.pc = .backoff ∨ co.pc = .superseded
  threads : ∀ ℓ, s.handler ℓ = .idle ∨ s.handler ℓ = .closed
  down : ∀ ℓ, s.down ℓ = []
  coordinators : ∀ x key, (s.replica x).coordinators key = none
  participants : ∀ x key, (s.replica x).participants key = none
  unlocked : ∀ x key, (s.datastore x).owner2pc key = none

omit [DecidableEq Key] [Inhabited Value] in
theorem Inv.participants_eq_none (hs : Inv config s)
    (hthreads : ∀ ℓ, s.handler ℓ = .idle ∨ s.handler ℓ = .closed) (x : Fin n) (key : Key) :
    (s.replica x).participants key = none := by
  by_contra hne
  obtain ⟨⟨c, a⟩, hreg⟩ := Option.ne_none_iff_exists'.mp hne
  have hseat := (hs.replica_ok x).participants_eq.mp hreg
  rcases hthreads ⟨c, a, x⟩ with hh | hh
  · simp [show (s.replica x).handler (c, a) = .idle from hh, Handler.seat,
      Handler.registered] at hseat
  · simp [show (s.replica x).handler (c, a) = .closed from hh, Handler.seat,
      Handler.registered] at hseat

omit [DecidableEq Key] [Inhabited Value] in
/-- Who has ended is registered nowhere and holds no lock. -/
theorem Inv.quiet (hs : Inv config s)
    (hattempts : ∀ ca co, s.attempt ca = some co →
      co.pc = .succeeded ∨ co.pc = .backoff ∨ co.pc = .superseded)
    (hthreads : ∀ ℓ, s.handler ℓ = .idle ∨ s.handler ℓ = .closed) (hdown : ∀ ℓ, s.down ℓ = []) :
    Quiet s where
  attempts := hattempts
  threads := hthreads
  down := hdown
  coordinators x key := by
    by_contra hne
    obtain ⟨a, hreg⟩ := Option.ne_none_iff_exists'.mp hne
    obtain ⟨co, hco, hseat⟩ :=
      Option.bind_eq_some_iff.mp ((hs.replica_ok x).coordinators_eq.mp hreg)
    have hco' : s.attempt (x, a) = some co := hco
    rcases hattempts (x, a) co hco' with hpc | hpc | hpc <;>
      simp [Coordinator.seat, Coordinator.registered, hpc] at hseat
  participants := hs.participants_eq_none hthreads
  unlocked x key := by
    by_contra hlocked
    obtain ⟨uid, howner⟩ := Option.ne_none_iff_exists'.mp hlocked
    obtain ⟨holder, hheld⟩ := ((hs.replica_ok x).consistent.owner_iff key uid).mp howner
    cases holder with
    | inl a =>
      obtain ⟨co, hco, hlock⟩ := Option.bind_eq_some_iff.mp hheld
      have hco' : s.attempt (x, a) = some co := hco
      rcases hattempts (x, a) co hco' with hpc | hpc | hpc <;>
        simp [Coordinator.lock, Coordinator.locking, hpc] at hlock
    | inr conn =>
      have hheld' : (s.handler ⟨conn.1, conn.2, x⟩).lock = some (key, uid) := hheld
      rcases hthreads ⟨conn.1, conn.2, x⟩ with hh | hh <;>
        simp [hh, Handler.lock, Handler.locking] at hheld'

theorem Stuck.quiet (h : Stuck config s) (hs : Inv config s) (ht : Tidy s) : Quiet s := by
  have hunlocked := h.unlocked hs ht
  have hthreads : ∀ ℓ, s.handler ℓ = .idle ∨ s.handler ℓ = .closed := by
    intro ℓ
    rcases h.handler hs ℓ with hh | hh | ⟨p, hh⟩ | ⟨key, -, hlocked⟩
    · exact .inl hh
    · exact .inr hh
    · have hheld : (s.replica ℓ.peer).held (.inr ℓ.source) = some (p.key, p.uid) := by
        have hh' : (s.replica ℓ.peer).handler ℓ.source = .deciding p := hh
        simp [Replica.held, hh', Handler.lock, Handler.locking]
      have howner := (hs.replica_ok ℓ.peer).consistent.owner_of_held hheld
      simp [show (s.replica ℓ.peer).datastore.owner2pc p.key = none from hunlocked _ _] at howner
    · exact absurd (hunlocked _ _) hlocked
  have hparticipants := hs.participants_eq_none hthreads
  have hcoordinators : ∀ x key, (s.replica x).coordinators key = none := by
    intro x key
    by_contra hne
    obtain ⟨a, hreg⟩ := Option.ne_none_iff_exists'.mp hne
    obtain ⟨co, hco, hseat⟩ :=
      Option.bind_eq_some_iff.mp ((hs.replica_ok x).coordinators_eq.mp hreg)
    have hregistered : co.registered := by
      by_contra hnot
      simp [Coordinator.seat, hnot] at hseat
    have hco' : s.attempt (x, a) = some co := hco
    rcases h.pc hs ht hco' with hpc | hpc | hpc | ⟨hpc, -⟩ | ⟨-, y, hlocked⟩
    · simp [Coordinator.registered, hpc] at hregistered
    · simp [Coordinator.registered, hpc] at hregistered
    · simp [Coordinator.registered, hpc] at hregistered
    · simp [Coordinator.registered, hpc] at hregistered
    · exact hlocked (hunlocked _ _)
  refine hs.quiet (fun ca co hco => ?_) hthreads fun ℓ => ?_
  · rcases h.pc hs ht hco with hpc | hpc | hpc | ⟨-, hbusy⟩ | ⟨-, x, hlocked⟩
    · exact .inl hpc
    · exact .inr (.inl hpc)
    · exact .inr (.inr hpc)
    · simp [Replica.free, hcoordinators, hparticipants] at hbusy
    · exact absurd (hunlocked _ _) hlocked
  · rcases hthreads ℓ with hh | hh
    · exact h.down_eq_nil hs (.inl hh)
    · obtain ⟨co, hco⟩ := hs.exists_attempt (ℓ := ℓ) (.inr (.inr (by simp [hh])))
      cases hop : co.op with
      | get => exact ((ht.links ℓ co hco hop).closed hh).1
      | put value =>
        have hphase := hs.phase hco
        rw [hh] at hphase
        simp only [Coordinator.Phase, hop] at hphase
        generalize s.down ℓ = down at hphase
        generalize s.up ℓ = up at hphase
        cases hphase <;> simp_all [Handler.Resting]

variable {readQuorum writeQuorum : ℤ} {contents : Fin n → Key → Option (Value × ℤ)}

/-- Whatever happens, the cluster by itself comes to rest, and it rests only where every attempt
has ended and nothing is registered or locked. -/
theorem comes_to_rest (hs : Reachable readQuorum writeQuorum contents s) :
    (∃ bound, ∀ length state, state 0 = s →
      Transition.Path (step (settings n readQuorum writeQuorum)) (fun _ e => e.internal) length
        state → length ≤ bound) ∧
    (∀ t, Run (settings n readQuorum writeQuorum) (fun _ e => e.internal) s t →
      Stuck (settings n readQuorum writeQuorum) t → Quiet t) ∧
    ∃ t, Run (settings n readQuorum writeQuorum) (fun _ e => e.internal) s t ∧ Quiet t := by
  have hquiet : ∀ t, Run (settings n readQuorum writeQuorum) (fun _ e => e.internal) s t →
      Stuck (settings n readQuorum writeQuorum) t → Quiet t := by
    intro t hrun hstuck
    have htidy := (Tidy.of_initial contents).run settings_ok (.of_initial contents) hs
    exact hstuck.quiet (hs.inv.run settings_ok hrun) (htidy.run settings_ok hs.inv hrun)
  obtain ⟨bound, hbound⟩ := internal_steps_bounded hs
  obtain ⟨t, hrun, hstuck⟩ := Transition.exists_stuck hbound
  exact ⟨⟨bound, hbound⟩, hquiet, t, hrun, hquiet t hrun hstuck⟩

/-- A put that has been voted for, and nothing more. -/
theorem comes_to_rest_voted : ∃ s t : Cluster 2 Text Text, ¬ Quiet s ∧
    Run (settings 2 1 2) (fun _ e => e.internal) s t ∧ Quiet t := by
  obtain ⟨s, hexec⟩ : ∃ s, Transition.exec (step (settings 2 1 2)) (fun _ _ => true)
    (votedEvents 0 1) (initial fun _ _ => none) = some s := ⟨_, rfl⟩
  obtain ⟨-, -, t, hrun, hquiet⟩ :=
    comes_to_rest (Transition.run_of_exec (fun _ _ _ => trivial) hexec)
  refine ⟨s, t, fun hs => ?_, hrun, hquiet⟩
  have hlocked : (s.datastore 0).owner2pc ['k'] ≠ none := by
    cases hexec
    exact Option.some_ne_none 0
  exact hlocked (hs.unlocked 0 ['k'])

end Cluster
end LeaderlessDatastore
