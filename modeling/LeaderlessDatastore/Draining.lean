import LeaderlessDatastore.Linearization

/-!
# Attempts come to an end

Between the requests and retries of its clients the cluster can only take finitely
many steps: each one lowers a weight that counts what the coordinators have still to
do, what is under way, and what the threads of the connections have still to do.
-/

namespace LeaderlessDatastore

open Function

/-! ## Weights -/

/-- More than the number of steps that a coordinator still takes by itself. -/
def Pc.weight : Pc → ℕ
  | .register => 8
  | .begin => 7
  | .connect => 6
  | .exchange => 5
  | .aborting | .committing | .repair => 4
  | .release | .repairing => 3
  | .finish _ => 2
  | .backoff => 1
  | .superseded | .succeeded => 0

/-- A message that is sent weighs less than one that is not. -/
def Sender.weight : Sender → ℕ
  | .unsent => 9
  | .waiting | .finished => 0

/-- The steps of the thread up to its next `receive`, with the messages that it sends. -/
def Handler.weight {Key Value : Type} : Handler Key Value → ℕ
  | .closed | .leaked _ => 0
  | .idle => 1
  | .leaving _ => 2
  | .refusing _ | .replying .. => 3
  | .deciding _ | .declining _ | .fetching _ => 4
  | .decided _ => 5
  | .voting _ => 6
  | .preparing _ => 7
  | .registering _ => 8

section Steps

variable {Peer Key Value : Type}

theorem Handler.weight_flag (uid : ℤ) (h : Handler Key Value) : (h.flag uid).weight = h.weight := by
  cases h <;> rfl

theorem DeliverStep.weight_lt [DecidableEq Key] {r : Replica Peer Key Value} {conn : Peer × ℕ}
    {h h' : Handler Key Value} {m : Message Key Value} {datastore : DatastoreManager Key Value}
    (hstep : DeliverStep r conn h m h' datastore) : h'.weight < h.weight + 8 := by
  cases hstep <;> simp [Handler.weight]

theorem HandlerStep.weight_lt [DecidableEq Key] [DecidableEq Peer] [Inhabited Value]
    {r : Replica Peer Key Value} {conn : Peer × ℕ} {h h' : Handler Key Value}
    {sent : Option (Message Key Value)} {participants : Key → Option (Peer × ℕ)}
    {datastore : DatastoreManager Key Value}
    (hstep : HandlerStep r conn h h' sent participants datastore) :
    h'.weight + sent.toList.length < h.weight := by
  cases hstep <;> simp [Handler.weight]

variable [Fintype Peer]

/-- A step of the coordinator weighs more than all the messages that it can send after it. -/
def Coordinator.weight (co : Coordinator Peer Key Value) : ℕ :=
  co.pc.weight * (9 * Fintype.card Peer + 1) + ∑ x, (co.sender x).weight

theorem Coordinator.sum_sender_le (co : Coordinator Peer Key Value) :
    ∑ x, (co.sender x).weight ≤ 9 * Fintype.card Peer := by
  have : ∑ x, (co.sender x).weight ≤ ∑ _x : Peer, 9 :=
    Finset.sum_le_sum fun x _ => by cases co.sender x <;> simp [Sender.weight]
  simpa [mul_comm] using this

theorem Coordinator.weight_lt_of_pc {co co' : Coordinator Peer Key Value}
    (h : co'.pc.weight < co.pc.weight) : co'.weight < co.weight := by
  have hsenders := co'.sum_sender_le
  have hpc : (co'.pc.weight + 1) * (9 * Fintype.card Peer + 1) ≤
      co.pc.weight * (9 * Fintype.card Peer + 1) := Nat.mul_le_mul_right _ h
  unfold weight
  rw [Nat.add_mul] at hpc
  omega

theorem CoordinatorStep.weight_lt [DecidableEq Key] [Inhabited Value] {settings : Settings Peer}
    {r : Replica Peer Key Value} {a : ℕ} {co co' : Coordinator Peer Key Value}
    {coordinators : Key → Option ℕ} {datastore : DatastoreManager Key Value}
    (h : CoordinatorStep settings r a co co' coordinators datastore) : co'.weight < co.weight := by
  apply Coordinator.weight_lt_of_pc
  cases h <;> simp_all [Pc.weight]

variable [DecidableEq Peer]

theorem Coordinator.sum_update_sender (sender : Peer → Sender) (x : Peer) (next : Sender) :
    ∑ y, (update sender x next y).weight + (sender x).weight =
      ∑ y, (sender y).weight + next.weight := by
  rw [← Finset.add_sum_erase _ _ (Finset.mem_univ x),
    ← Finset.add_sum_erase _ (fun y => (sender y).weight) (Finset.mem_univ x), update_self]
  have hrest : ∑ y ∈ Finset.univ.erase x, (update sender x next y).weight =
      ∑ y ∈ Finset.univ.erase x, (sender y).weight :=
    Finset.sum_congr rfl fun y hy => by rw [update_of_ne (Finset.ne_of_mem_erase hy)]
  omega

theorem Coordinator.weight_sentTo {co : Coordinator Peer Key Value} {x : Peer}
    (hunsent : co.sender x = .unsent) : (co.sentTo x).weight + 9 = co.weight := by
  have hsum := sum_update_sender co.sender x (if co.pc = .exchange then .waiting else .finished)
  have hnext : (if co.pc = .exchange then Sender.waiting else .finished).weight = 0 := by
    split <;> rfl
  rw [hunsent, hnext] at hsum
  simp only [weight, sentTo]
  simp only [Sender.weight] at hsum ⊢
  omega

theorem Coordinator.weight_heardFrom {co : Coordinator Peer Key Value} {x : Peer}
    {m : Message Key Value} (hwaiting : co.sender x = .waiting) :
    (co.heardFrom x m).weight = co.weight := by
  have hsum := sum_update_sender co.sender x .finished
  rw [hwaiting] at hsum
  have hpc := (co.heardFrom_same x m).2.2.2.1
  have hsender : (co.heardFrom x m).sender = update co.sender x .finished := rfl
  rw [weight, weight, hpc, hsender]
  simp only [Sender.weight] at hsum ⊢
  omega

end Steps

namespace Cluster

variable {n : ℕ} {Key Value : Type} {config : Fin n → Settings (Fin n)}
  {s t u : Cluster n Key Value} {e : Event n Key Value} {ca : Fin n × ℕ} {ℓ : Link n}

/-- The event is not one with which a client makes a request or tries again. -/
def Event.internal : Event n Key Value → Bool
  | .run _ (.request ..) | .run _ (.retry ..) => false
  | _ => true

def linkWeight (s : Cluster n Key Value) (ℓ : Link n) : ℕ :=
  (s.handler ℓ).weight + 8 * (s.down ℓ).length + (s.up ℓ).length

/-- The weight of an attempt and its connections. -/
def weight (s : Cluster n Key Value) (ca : Fin n × ℕ) : ℕ :=
  ((s.attempt ca).map Coordinator.weight).getD 0 + ∑ x, s.linkWeight ⟨ca.1, ca.2, x⟩

/-- One connection and its attempt together get lighter. -/
theorem weight_lt (hlinks : ∀ ℓ', ℓ' ≠ ℓ → t.linkWeight ℓ' = s.linkWeight ℓ')
    (hlt : ((t.attempt ℓ.source).map Coordinator.weight).getD 0 + t.linkWeight ℓ <
      ((s.attempt ℓ.source).map Coordinator.weight).getD 0 + s.linkWeight ℓ) :
    t.weight ℓ.source < s.weight ℓ.source := by
  have hrest : ∑ x ∈ Finset.univ.erase ℓ.peer, t.linkWeight ⟨ℓ.source.1, ℓ.source.2, x⟩ =
      ∑ x ∈ Finset.univ.erase ℓ.peer, s.linkWeight ⟨ℓ.source.1, ℓ.source.2, x⟩ :=
    Finset.sum_congr rfl fun x hx =>
      hlinks _ fun he => Finset.ne_of_mem_erase hx (congrArg Link.peer he)
  have hlink : (⟨ℓ.source.1, ℓ.source.2, ℓ.peer⟩ : Link n) = ℓ := rfl
  unfold weight
  rw [← Finset.add_sum_erase _ _ (Finset.mem_univ ℓ.peer),
    ← Finset.add_sum_erase Finset.univ (fun x => s.linkWeight ⟨ℓ.source.1, ℓ.source.2, x⟩)
      (Finset.mem_univ ℓ.peer), hlink, hrest]
  omega

theorem weight_congr (hattempt : t.attempt ca = s.attempt ca)
    (hlinks : ∀ x, t.linkWeight ⟨ca.1, ca.2, x⟩ = s.linkWeight ⟨ca.1, ca.2, x⟩) :
    t.weight ca = s.weight ca := by
  simp only [weight, hattempt, hlinks]

/-- One attempt gets lighter, and no other attempt or connection changes its weight. -/
structure Lightens (s t : Cluster n Key Value) (ca : Fin n × ℕ) : Prop where
  started : (s.attempt ca).isSome
  lt : t.weight ca < s.weight ca
  rest : ∀ cb, cb ≠ ca → t.weight cb = s.weight cb

/-- An attempt moves on. -/
theorem Lightens.of_attempt {co co' : Coordinator (Fin n) Key Value}
    (hco : s.attempt ca = some co) (hattempt : t.attempt = update s.attempt ca (some co'))
    (hlinks : t.linkWeight = s.linkWeight) (hlt : co'.weight < co.weight) : Lightens s t ca where
  started := by simp [hco]
  lt := by
    simp only [weight, hattempt, hlinks, update_self, hco, Option.map_some, Option.getD_some]
    omega
  rest cb hne := weight_congr (by rw [hattempt, update_of_ne hne]) fun _ => by rw [hlinks]

/-- A connection moves on, perhaps with its attempt. -/
theorem Lightens.of_link (hstarted : (s.attempt ℓ.source).isSome)
    (hattempts : ∀ cb, cb ≠ ℓ.source → t.attempt cb = s.attempt cb)
    (hlinks : ∀ ℓ', ℓ' ≠ ℓ → t.linkWeight ℓ' = s.linkWeight ℓ')
    (hlt : ((t.attempt ℓ.source).map Coordinator.weight).getD 0 + t.linkWeight ℓ <
      ((s.attempt ℓ.source).map Coordinator.weight).getD 0 + s.linkWeight ℓ) :
    Lightens s t ℓ.source where
  started := hstarted
  lt := weight_lt hlinks hlt
  rest cb hne := weight_congr (hattempts cb hne) fun _ =>
    hlinks _ fun he => hne (congrArg Link.source he)

/-- The thread of a connection moves on, with what it receives and what it sends. -/
theorem Lightens.of_handle (hstarted : (s.attempt ℓ.source).isSome) {h : Handler Key Value}
    {participants : Key → Option (Fin n × ℕ)} {ds : DatastoreManager Key Value}
    {down up : Link n → List (Message Key Value)}
    (hrest : ∀ ℓ', ℓ' ≠ ℓ → down ℓ' = s.down ℓ' ∧ up ℓ' = s.up ℓ')
    (hlt : h.weight + 8 * (down ℓ).length + (up ℓ).length < s.linkWeight ℓ) :
    Lightens s { s.handle ℓ h participants ds with down := down, up := up } ℓ.source := by
  have hattempt : Cluster.attempt { s.handle ℓ h participants ds with down := down, up := up } =
      s.attempt := attempt_handle ..
  have hhandler : Cluster.handler { s.handle ℓ h participants ds with down := down, up := up } =
      update s.handler ℓ h := handler_handle ..
  refine .of_link hstarted (fun cb _ => by rw [hattempt]) (fun ℓ' hℓ => ?_) ?_
  · simp only [linkWeight, hhandler, update_of_ne hℓ, (hrest ℓ' hℓ).1, (hrest ℓ' hℓ).2]
  · rw [hattempt, linkWeight, hhandler, update_self]
    exact Nat.add_lt_add_left hlt _

/-- A coordinator and what is under way on one of its connections change together. -/
theorem Lightens.of_move {co co' : Coordinator (Fin n) Key Value}
    (hco : s.attempt ℓ.source = some co) {coordinators : Key → Option ℕ}
    {ds : DatastoreManager Key Value} {down up : Link n → List (Message Key Value)}
    (hrest : ∀ ℓ', ℓ' ≠ ℓ → down ℓ' = s.down ℓ' ∧ up ℓ' = s.up ℓ')
    (hlt : co'.weight + 8 * (down ℓ).length + (up ℓ).length <
      co.weight + 8 * (s.down ℓ).length + (s.up ℓ).length) :
    Lightens s { s.move ℓ.source co' coordinators ds with down := down, up := up } ℓ.source := by
  have hattempt : Cluster.attempt
      { s.move ℓ.source co' coordinators ds with down := down, up := up } =
      update s.attempt ℓ.source (some co') := attempt_move ..
  have hhandler : Cluster.handler
      { s.move ℓ.source co' coordinators ds with down := down, up := up } = s.handler :=
    handler_move ..
  refine .of_link (by simp [hco]) (fun cb hne => by rw [hattempt, update_of_ne hne])
    (fun ℓ' hℓ => ?_) ?_
  · simp only [linkWeight, hhandler, (hrest ℓ' hℓ).1, (hrest ℓ' hℓ).2]
  · simp only [hattempt, linkWeight, hhandler, update_self, hco, Option.map_some, Option.getD_some]
    omega

/-- A stale `GLOBAL_ABORT` is one message less. -/
theorem Lightens.of_stale (hstarted : (s.attempt ℓ.source).isSome) {uid : ℤ} {key : Key}
    {m : Message Key Value} {rest : List (Message Key Value)} [DecidableEq Key]
    (hdown : s.down ℓ = m :: rest) :
    Lightens s { s.flag ℓ.peer uid key with down := update s.down ℓ rest } ℓ.source := by
  have hattempt : Cluster.attempt { s.flag ℓ.peer uid key with down := update s.down ℓ rest } =
      s.attempt := attempt_flag ..
  have hhandler : ∀ ℓ', (Cluster.handler
      { s.flag ℓ.peer uid key with down := update s.down ℓ rest } ℓ').weight =
      (s.handler ℓ').weight := fun ℓ' => by
    rcases s.handler_flag ℓ' ℓ.peer uid key with hh | ⟨-, -, hh⟩
    · exact congrArg Handler.weight hh
    · exact (congrArg Handler.weight hh).trans (Handler.weight_flag ..)
  refine .of_link hstarted (fun cb _ => by rw [hattempt]) (fun ℓ' hℓ => ?_) ?_
  · simp only [linkWeight, hhandler, update_of_ne hℓ]
    rfl
  · simp only [hattempt, linkWeight, hhandler, update_self, hdown, List.length_cons]
    change _ + ((s.handler ℓ).weight + 8 * rest.length + (s.up ℓ).length) < _
    omega

variable [DecidableEq Key] [Inhabited Value]

/-- An internal event lets one attempt come closer to its end. -/
theorem Change.lightens (hs : Inv config s) (h : Change config s e t) (he : e.internal) :
    ∃ ca, Lightens s t ca := by
  have started : ∀ {ℓ}, s.down ℓ ≠ [] ∨ s.up ℓ ≠ [] ∨ s.handler ℓ ≠ .idle →
      (s.attempt ℓ.source).isSome := fun hℓ => by
    obtain ⟨co, hco⟩ := hs.exists_attempt hℓ
    simp [hco]
  cases h with
  | request | retry => cases he
  | move current step =>
    refine ⟨_, .of_attempt current (attempt_move ..) ?_ step.weight_lt⟩
    funext ℓ
    simp only [linkWeight, handler_move]
    rfl
  | @send ℓ co m current mem unsent message =>
    refine ⟨_, .of_move current (fun ℓ' hℓ => ⟨update_of_ne hℓ .., rfl⟩) ?_⟩
    have := co.weight_sentTo unsent
    change _ + 8 * (update s.down ℓ (s.down ℓ ++ [m]) ℓ).length + (s.up ℓ).length < _
    rw [update_self, List.length_append, List.length_singleton]
    omega
  | @reply ℓ co m rest current pc_eq mem waiting up_eq =>
    refine ⟨_, .of_move current (fun ℓ' hℓ => ⟨rfl, update_of_ne hℓ ..⟩) ?_⟩
    change _ + 8 * (s.down ℓ).length + (update s.up ℓ rest ℓ).length < _
    rw [co.weight_heardFrom waiting, update_self, up_eq, List.length_cons]
    omega
  | @deliver ℓ m rest h datastore down_eq step =>
    refine ⟨_, .of_handle (started (.inl (by simp [down_eq])))
      (fun ℓ' hℓ => ⟨update_of_ne hℓ .., rfl⟩) ?_⟩
    have := step.weight_lt
    change _ + 8 * (update s.down ℓ rest ℓ).length + (s.up ℓ).length < _
    rw [update_self, linkWeight, down_eq, List.length_cons]
    omega
  | @stale ℓ uid key rest down_eq idle =>
    exact ⟨_, .of_stale (started (.inl (by simp [down_eq]))) down_eq⟩
  | @proceed ℓ h sent participants datastore step =>
    have hbusy : s.handler ℓ ≠ .idle := fun hidle => by
      rw [hidle] at step
      cases step
    refine ⟨_, .of_handle (started (.inr (.inr hbusy))) (fun ℓ' hℓ => ⟨rfl, update_of_ne hℓ ..⟩) ?_⟩
    have := step.weight_lt
    change _ + 8 * (s.down ℓ).length + (update s.up ℓ (s.up ℓ ++ sent.toList) ℓ).length < _
    rw [update_self, linkWeight, List.length_append]
    omega
  | @hangup ℓ co current closed down_eq idle =>
    refine ⟨_, .of_handle (by simp [current]) (fun _ _ => ⟨rfl, rfl⟩) ?_⟩
    simp [linkWeight, idle, Handler.weight]

theorem Change.started_eq (h : Change config s e t) (he : e.internal) :
    t.started = s.started := by
  have updated : ∀ {ca co co'}, s.attempt ca = some co →
      t.attempt = update s.attempt ca (some co') →
      t.started = s.started := by
    intro ca co co' hco ht
    ext cb
    by_cases hne : cb = ca
    · simp [started, ht, hne, hco]
    · simp [started, ht, hne]
  have same : t.attempt = s.attempt → t.started = s.started := fun ht => by
    rw [started, started, ht]
  cases h with
  | request | retry => cases he
  | move current => exact updated current (attempt_move ..)
  | send current => exact updated current (attempt_move ..)
  | reply current => exact updated current (attempt_move ..)
  | deliver | proceed | hangup => exact same (attempt_handle ..)
  | stale => exact same (attempt_flag ..)

/-- The weight of all attempts. -/
noncomputable def total (s : Cluster n Key Value) (attempts : Finset (Fin n × ℕ)) : ℕ :=
  ∑ ca ∈ attempts, s.weight ca

omit [DecidableEq Key] [Inhabited Value] in
theorem Lightens.total_lt (h : Lightens s t ca) {attempts : Finset (Fin n × ℕ)}
    (hca : ca ∈ attempts) : t.total attempts < s.total attempts := by
  apply Finset.sum_lt_sum
  · intro cb _
    by_cases hne : cb = ca
    · exact hne ▸ h.lt.le
    · exact (h.rest cb hne).le
  · exact ⟨ca, hca, h.lt⟩

/-- From every state that a run reaches, the cluster takes only finitely many steps by itself. -/
theorem internal_steps_bounded {readQuorum writeQuorum : ℤ}
    {contents : Fin n → Key → Option (Value × ℤ)}
    (hs : Reachable readQuorum writeQuorum contents s) :
    ∃ bound, ∀ length state, state 0 = s →
      Transition.Path (step (settings n readQuorum writeQuorum)) (fun _ e => e.internal) length
        state → length ≤ bound := by
  have hinitial : (initial contents : Cluster n Key Value).started.Finite := by
    simp [started, attempt, initial, Replica.started]
  have hfinite := finite_started_of_run settings_ok (.of_initial _) hinitial hs
  refine ⟨s.total hfinite.toFinset, fun length state hstart hpath => ?_⟩
  subst hstart
  refine hpath.length_le (P := fun t => Inv (settings n readQuorum writeQuorum) t ∧
    t.started = (state 0).started) (w := fun t => t.total hfinite.toFinset) ⟨hs.inv, rfl⟩
    fun t e u ht he hstep => ?_
  have hchange := step_cases ht.1 hstep
  obtain ⟨ca, hlight⟩ := hchange.lightens ht.1 he
  refine ⟨⟨ht.1.change settings_ok hchange, (hchange.started_eq he).trans ht.2⟩,
    hlight.total_lt ?_⟩
  rw [Set.Finite.mem_toFinset, ← ht.2]
  exact hlight.started

end Cluster
end LeaderlessDatastore
