import LeaderlessDatastore.Protocol

/-!
# The protocol, seen from one connection

For each stage of a coordinator with respect to a peer, `PutPhase` and `GetPhase`
list where the thread at the peer can be and which messages can be under way.
-/

namespace LeaderlessDatastore

open Function

namespace Handler

variable {Key Value : Type}

/-- The participant that has yet to vote. -/
def working : Handler Key Value → Option (Participant Key Value)
  | .registering p | .refusing p | .preparing p | .declining p | .voting p => some p
  | _ => none

/-- Done with a transaction, but for `removeParticipant`. -/
def Resting : Handler Key Value → Prop
  | .idle | .leaving _ => True
  | _ => False

theorem Resting.flag {h : Handler Key Value} (hr : h.Resting) (uid : ℤ) : (h.flag uid).Resting := by
  cases h <;> simp_all [Resting, Handler.flag, mapParticipant]

end Handler

variable {Peer Key Value : Type} [DecidableEq Peer]

/-- The participant was made for this attempt. -/
structure Coordinator.Made (co : Coordinator Peer Key Value) (value : Value)
    (p : Participant Key Value) : Prop where
  uid_eq : p.uid = co.uid
  key_eq : p.key = co.key
  value_eq : p.value = value

inductive PutPhase (co : Coordinator Peer Key Value) (value : Value) (x : Peer) :
    Handler Key Value → List (Message Key Value) → List (Message Key Value) → Prop
  | fresh {h : Handler Key Value} (stage_eq : co.stage x = .fresh)
      (quiet : h = .idle ∨ h = .closed ∧ co.closed) : PutPhase co value x h [] []
  | asked (stage_eq : co.stage x = .asked) :
      PutPhase co value x .idle [.prepare co.uid co.key value] []
  | working {h : Handler Key Value} {p : Participant Key Value} (stage_eq : co.stage x = .asked)
      (working_eq : h.working = some p) (made : co.Made value p) : PutPhase co value x h [] []
  | votedCommit {p : Participant Key Value} (stage_eq : co.stage x = .asked)
      (made : co.Made value p) :
      PutPhase co value x (.deciding p) [] [.voteCommit co.uid co.key p.timestamp]
  | votedAbort {h : Handler Key Value} (stage_eq : co.stage x = .asked) (resting : h.Resting) :
      PutPhase co value x h [] [.voteAbort co.uid co.key]
  | pledged {p : Participant Key Value} (stage_eq : co.stage x = .answered)
      (made : co.Made value p) (le_version : p.timestamp ≤ co.version) :
      PutPhase co value x (.deciding p) [] []
  | refused {h : Handler Key Value} (stage_eq : co.stage x = .answered) (abort_eq : co.abort = true)
      (resting : h.Resting) : PutPhase co value x h [] []
  | abortSent {p : Participant Key Value} (stage_eq : co.stage x = .toldAbort)
      (made : co.Made value p) :
      PutPhase co value x (.deciding p) [.globalAbort co.uid co.key] []
  | staleAbortSent {h : Handler Key Value} (stage_eq : co.stage x = .toldAbort)
      (resting : h.Resting) : PutPhase co value x h [.globalAbort co.uid co.key] []
  | aborting {p : Participant Key Value} {up : List (Message Key Value)}
      (stage_eq : co.stage x = .toldAbort) (made : co.Made value p) (flagged : p.abort = true) :
      PutPhase co value x (.decided p) [] up
  | commitSent {p : Participant Key Value} (stage_eq : co.stage x = .toldCommit)
      (made : co.Made value p) :
      PutPhase co value x (.deciding p)
        [.globalCommit co.uid co.key value (castInt co.version)] []
  | committing {p : Participant Key Value} {up : List (Message Key Value)}
      (stage_eq : co.stage x = .toldCommit) (made : co.Made value p)
      (timestamp_eq : p.timestamp = castInt co.version) : PutPhase co value x (.decided p) [] up
  | ended {h : Handler Key Value} {up : List (Message Key Value)}
      (stage_eq : co.stage x = .toldAbort ∨ co.stage x = .toldCommit)
      (resting : h.Resting ∨ h = .closed) : PutPhase co value x h [] up

inductive GetPhase (co : Coordinator Peer Key Value) (x : Peer) :
    Handler Key Value → List (Message Key Value) → List (Message Key Value) → Prop
  | fresh {h : Handler Key Value} (stage_eq : co.stage x = .fresh)
      (quiet : h = .idle ∨ h = .closed ∧ co.closed) : GetPhase co x h [] []
  | asked (stage_eq : co.stage x = .asked) : GetPhase co x .idle [.fetch co.key] []
  | fetching (stage_eq : co.stage x = .asked) : GetPhase co x (.fetching co.key) [] []
  | replying {result : Value × ℤ} (stage_eq : co.stage x = .asked) :
      GetPhase co x (.replying co.key result) [] []
  | replied {entry : Option (Value × ℤ)} (stage_eq : co.stage x = .asked) :
      GetPhase co x .idle [] [.fetchedValue co.key entry]
  | answered {h : Handler Key Value} {down : List (Message Key Value)}
      (stage_eq : co.stage x = .answered) (quiet : h = .idle ∨ h = .closed)
      (repairs : ∀ m ∈ down, ∃ value version, m = .repair co.key value version) :
      GetPhase co x h down []

/-- Where the thread at peer `x` can be, and what can be under way. -/
def Coordinator.Phase (co : Coordinator Peer Key Value) (x : Peer) (h : Handler Key Value)
    (down up : List (Message Key Value)) : Prop :=
  match co.op with
  | .put value => PutPhase co value x h down up
  | .get => GetPhase co x h down up

section Preservation

variable {co co' : Coordinator Peer Key Value} {value : Value} {x y : Peer}
  {h h' : Handler Key Value} {down up : List (Message Key Value)}

/-! ## Steps of the coordinator -/

/-- What a phase takes from the coordinator, apart from the stage, may only grow. -/
structure Coordinator.Grows (co co' : Coordinator Peer Key Value) (x : Peer) : Prop where
  op_eq : co'.op = co.op
  key_eq : co'.key = co.key
  uid_eq : co'.uid = co.uid
  stage_eq : co'.stage x = co.stage x
  closed_le : co.closed → co'.closed
  version_le : co.stage x = .answered → co.version ≤ co'.version
  version_eq : co.stage x = .toldCommit → co'.version = co.version
  abort_le : co.stage x = .answered → co.abort → co'.abort

theorem PutPhase.grow (g : co.Grows co' x) (hp : PutPhase co value x h down up) :
    PutPhase co' value x h down up := by
  have hmade : ∀ {p}, co.Made value p → co'.Made value p := fun hm =>
    ⟨hm.uid_eq.trans g.uid_eq.symm, hm.key_eq.trans g.key_eq.symm, hm.value_eq⟩
  cases hp with
  | fresh stage_eq quiet =>
    exact .fresh (g.stage_eq.trans stage_eq) (quiet.imp_right fun q => ⟨q.1, g.closed_le q.2⟩)
  | asked stage_eq =>
    rw [← g.uid_eq, ← g.key_eq]
    exact .asked (g.stage_eq.trans stage_eq)
  | working stage_eq working_eq made =>
    exact .working (g.stage_eq.trans stage_eq) working_eq (hmade made)
  | votedCommit stage_eq made =>
    rw [← g.uid_eq, ← g.key_eq]
    exact .votedCommit (g.stage_eq.trans stage_eq) (hmade made)
  | votedAbort stage_eq resting =>
    rw [← g.uid_eq, ← g.key_eq]
    exact .votedAbort (g.stage_eq.trans stage_eq) resting
  | pledged stage_eq made le_version =>
    exact .pledged (g.stage_eq.trans stage_eq) (hmade made)
      (le_version.trans (g.version_le stage_eq))
  | refused stage_eq abort_eq resting =>
    exact .refused (g.stage_eq.trans stage_eq) (g.abort_le stage_eq abort_eq) resting
  | abortSent stage_eq made =>
    rw [← g.uid_eq, ← g.key_eq]
    exact .abortSent (g.stage_eq.trans stage_eq) (hmade made)
  | staleAbortSent stage_eq resting =>
    rw [← g.uid_eq, ← g.key_eq]
    exact .staleAbortSent (g.stage_eq.trans stage_eq) resting
  | aborting stage_eq made flagged =>
    exact .aborting (g.stage_eq.trans stage_eq) (hmade made) flagged
  | commitSent stage_eq made =>
    rw [← g.uid_eq, ← g.key_eq, ← g.version_eq stage_eq]
    exact .commitSent (g.stage_eq.trans stage_eq) (hmade made)
  | committing stage_eq made timestamp_eq =>
    rw [← g.version_eq stage_eq] at timestamp_eq
    exact .committing (g.stage_eq.trans stage_eq) (hmade made) timestamp_eq
  | ended stage_eq resting => exact .ended (g.stage_eq ▸ stage_eq) resting

theorem GetPhase.grow (g : co.Grows co' x) (hp : GetPhase co x h down up) :
    GetPhase co' x h down up := by
  cases hp with
  | fresh stage_eq quiet =>
    exact .fresh (g.stage_eq.trans stage_eq) (quiet.imp_right fun q => ⟨q.1, g.closed_le q.2⟩)
  | asked stage_eq =>
    rw [← g.key_eq]
    exact .asked (g.stage_eq.trans stage_eq)
  | fetching stage_eq =>
    rw [← g.key_eq]
    exact .fetching (g.stage_eq.trans stage_eq)
  | replying stage_eq =>
    rw [← g.key_eq]
    exact .replying (g.stage_eq.trans stage_eq)
  | replied stage_eq =>
    rw [← g.key_eq]
    exact .replied (g.stage_eq.trans stage_eq)
  | answered stage_eq quiet repairs =>
    rw [← g.key_eq] at repairs
    exact .answered (g.stage_eq.trans stage_eq) quiet repairs

theorem Coordinator.Phase.grow (g : co.Grows co' x) (hp : co.Phase x h down up) :
    co'.Phase x h down up := by
  unfold Phase at hp ⊢
  rw [g.op_eq]
  cases hop : co.op with
  | put value => exact PutPhase.grow g (by simpa [hop] using hp)
  | get => exact GetPhase.grow g (by simpa [hop] using hp)

theorem Coordinator.Ok.grows [DecidableEq Key] [Inhabited Value] {settings : Settings Peer}
    {c : Peer} {r : Replica Peer Key Value} {a : ℕ} {coordinators : Key → Option ℕ}
    {datastore : DatastoreManager Key Value} (hok : co.Ok settings c)
    (hstep : CoordinatorStep settings r a co co' coordinators datastore) : co.Grows co' x := by
  have hstage : co'.stage x = co.stage x := stage_step hok hstep
  obtain ⟨hop, hkey, huid⟩ := hstep.same_request
  have hfresh : co.pc = .begin → co.stage x = .fresh := fun hpc =>
    stage_of_not_mem (by simp [hok.quorum_eq_nil (.inr (.inl hpc))])
  constructor
  case op_eq => exact hop
  case key_eq => exact hkey
  case uid_eq => exact huid
  case stage_eq => exact hstage
  case closed_le => cases hstep <;> simp_all
  case version_le => cases hstep <;> simp_all
  case version_eq =>
    cases hstep with
    | commit pc_eq =>
      intro htold
      simp only [stage] at htold
      split_ifs at htold
      cases hs : co.sender x <;> simp_all
    | _ => simp_all
  case abort_le => cases hstep <;> simp_all

/-! ## Messages of the coordinator -/

variable {settings : Settings Peer} {c : Peer} {m : Message Key Value}

omit [DecidableEq Peer] in
theorem Coordinator.message_cases {latest : Option (Value × ℤ)} (hok : co.Ok settings c)
    (hm : co.message latest = some m) :
    co.pc = .exchange ∧ ((∃ value, co.op = .put value ∧ m = .prepare co.uid co.key value) ∨
      co.op = .get ∧ m = .fetch co.key) ∨
    co.pc = .aborting ∧ (∃ value, co.op = .put value) ∧ m = .globalAbort co.uid co.key ∨
    co.pc = .committing ∧ (∃ value, co.op = .put value ∧
      m = .globalCommit co.uid co.key value (castInt co.version)) ∨
    co.pc = .repairing ∧ co.op = .get ∧ ∃ entry, latest = some entry ∧
      m = .repair co.key entry.1 entry.2 := by
  have hput := hok.put_pc
  have hget := hok.get_pc
  unfold message at hm
  split at hm <;> cases hop : co.op <;> simp_all

omit [DecidableEq Peer] in
theorem Coordinator.Ok.not_closed (hok : co.Ok settings c)
    (hpc : co.pc = .exchange ∨ co.pc = .aborting ∨ co.pc = .committing ∨ co.pc = .repairing) :
    co.closed = false := by
  by_contra hclosed
  have := hok.closed_pc (by simpa using hclosed)
  rcases hpc with hpc | hpc | hpc | hpc <;> simp [hpc] at this

theorem Coordinator.stage_ne_toldAbort {latest : Option (Value × ℤ)} (hok : co.Ok settings c)
    (hunsent : co.sender x = .unsent) (hm : co.message latest = some m) :
    co.stage x ≠ .toldAbort := by
  unfold stage
  split_ifs
  · rcases message_cases hok hm with ⟨hpc, -⟩ | ⟨hpc, ⟨value, hop⟩, -⟩ | ⟨hpc, value, hop, -⟩ |
      ⟨hpc, hop, -⟩ <;> simp_all
  · simp

theorem Coordinator.Phase.sent {latest : Option (Value × ℤ)} (hok : co.Ok settings c)
    (hx : x ∈ co.quorum) (hunsent : co.sender x = .unsent) (hm : co.message latest = some m)
    (hp : co.Phase x h down up) : (co.sentTo x).Phase x h (down ++ [m]) up := by
  have hmade : ∀ {value p}, co.Made value p → (co.sentTo x).Made value p := fun hm =>
    ⟨hm.uid_eq, hm.key_eq, hm.value_eq⟩
  have hop' : (co.sentTo x).op = co.op := rfl
  rcases message_cases hok hm with ⟨hpc, ⟨value, hop, rfl⟩ | ⟨hop, rfl⟩⟩ |
    ⟨hpc, ⟨value, hop⟩, rfl⟩ | ⟨hpc, value, hop, rfl⟩ | ⟨hpc, hop, entry, -, rfl⟩
  · have hclosed := hok.not_closed (.inl hpc)
    have hfresh : co.stage x = .fresh := by simp [stage, hx, hop, hpc, hunsent]
    have hasked : (co.sentTo x).stage x = .asked := by simp [stage, sentTo, hx, hop, hpc]
    simp only [Phase, hop', hop] at hp ⊢
    cases hp with
    | fresh stage_eq quiet =>
      obtain rfl : h = .idle := by simpa [hclosed] using quiet
      exact .asked hasked
    | _ => simp_all
  · have hclosed := hok.not_closed (.inl hpc)
    have hfresh : co.stage x = .fresh := by simp [stage, hx, hop, hpc, hunsent]
    have hasked : (co.sentTo x).stage x = .asked := by simp [stage, sentTo, hx, hop, hpc]
    simp only [Phase, hop', hop] at hp ⊢
    cases hp with
    | fresh stage_eq quiet =>
      obtain rfl : h = .idle := by simpa [hclosed] using quiet
      exact .asked hasked
    | _ => simp_all
  · have hanswered : co.stage x = .answered := by simp [stage, hx, hop, hpc, hunsent]
    have htold : (co.sentTo x).stage x = .toldAbort := by simp [stage, sentTo, hx, hop, hpc]
    simp only [Phase, hop', hop] at hp ⊢
    cases hp with
    | pledged stage_eq made le_version => exact .abortSent htold (hmade made)
    | refused stage_eq abort_eq resting => exact .staleAbortSent htold resting
    | _ => simp_all
  · have hanswered : co.stage x = .answered := by simp [stage, hx, hop, hpc, hunsent]
    have habort := (hok.commit_ok (by simp [committed, hop, hpc])).1
    have htold : (co.sentTo x).stage x = .toldCommit := by simp [stage, sentTo, hx, hop, hpc]
    simp only [Phase, hop', hop] at hp ⊢
    cases hp with
    | pledged stage_eq made le_version => exact .commitSent htold (hmade made)
    | _ => simp_all
  · have hanswered : co.stage x = .answered := by simp [stage, hx, hop, hpc]
    have htold : (co.sentTo x).stage x = .answered := by simp [stage, sentTo, hx, hop, hpc]
    simp only [Phase, hop', hop] at hp ⊢
    cases hp with
    | answered stage_eq quiet repairs =>
      refine .answered htold quiet fun m hm => ?_
      rcases List.mem_append.mp hm with hm | hm
      · exact repairs m hm
      · exact ⟨_, _, List.mem_singleton.mp hm⟩
    | _ => simp_all

/-- The other connections of the attempt do not see a message that is sent. -/
theorem Coordinator.grows_sentTo (hne : y ≠ x) : co.Grows (co.sentTo x) y where
  op_eq := rfl
  key_eq := rfl
  uid_eq := rfl
  stage_eq := stage_congr rfl rfl rfl (update_of_ne hne ..)
  closed_le := id
  version_le _ := le_rfl
  version_eq _ := rfl
  abort_le _ := id

/-! ## Answers -/

omit [DecidableEq Peer] in
theorem Coordinator.version_le_hear (co : Coordinator Peer Key Value) (m : Message Key Value) :
    co.version ≤ (co.hear m).version := by
  unfold hear
  split
  · dsimp only
    split_ifs <;> omega
  all_goals exact le_rfl

theorem Coordinator.grows_heardFrom (hpc : co.pc = .exchange) (hne : y ≠ x) :
    co.Grows (co.heardFrom x m) y where
  op_eq := (co.heardFrom_same x m).1
  key_eq := (co.heardFrom_same x m).2.1
  uid_eq := (co.heardFrom_same x m).2.2.1
  stage_eq := by
    obtain ⟨hop, -, -, hpc', hquorum, -, -⟩ := co.heardFrom_same x m
    exact stage_congr hop hpc' hquorum (update_of_ne hne ..)
  closed_le := by rw [(co.heardFrom_same x m).2.2.2.2.2.1]; exact id
  version_le _ := co.version_le_hear m
  version_eq htold := by
    by_cases hy : y ∈ co.quorum
    · rw [stage_exchange hpc hy] at htold
      split at htold <;> cases htold
    · rw [stage_of_not_mem hy] at htold
      cases htold
  abort_le _ := by
    unfold heardFrom hear
    split <;> simp

/-- The message at the head of the way back is an answer of the right key. -/
theorem Coordinator.Phase.answers (hpc : co.pc = .exchange) (hx : x ∈ co.quorum)
    (hp : co.Phase x h down (m :: up)) : m.Answers co.key := by
  have hstage : co.stage x = _ := stage_exchange hpc hx
  unfold Phase at hp
  split at hp
  · cases hp with
    | votedCommit | votedAbort => rfl
    | aborting stage_eq | committing stage_eq =>
      rw [stage_eq] at hstage
      split at hstage <;> cases hstage
    | ended stage_eq =>
      rcases stage_eq with stage_eq | stage_eq <;> rw [stage_eq] at hstage <;>
        split at hstage <;> cases hstage
  · cases hp
    rfl

theorem Coordinator.Phase.heard (hpc : co.pc = .exchange) (hx : x ∈ co.quorum)
    (hwaiting : co.sender x = .waiting) (hp : co.Phase x h down (m :: up)) :
    (co.heardFrom x m).Phase x h down up := by
  obtain ⟨hop, hkey, huid, hpc', hquorum, -, -⟩ := co.heardFrom_same x m
  have hasked : co.stage x = .asked := by rw [stage_exchange hpc hx, hwaiting]
  have hanswered : (co.heardFrom x m).stage x = .answered := by
    rw [stage_exchange (hpc'.trans hpc) (hquorum ▸ hx)]
    simp [heardFrom]
  unfold Phase at hp ⊢
  rw [hop]
  split at hp
  · cases hp with
    | @votedCommit p stage_eq made =>
      refine .pledged hanswered ⟨made.uid_eq, made.key_eq, made.value_eq⟩ ?_
      dsimp only [heardFrom, hear]
      split_ifs <;> omega
    | votedAbort stage_eq resting => exact .refused hanswered rfl resting
    | _ => simp_all
  · cases hp with
    | replied stage_eq => exact .answered hanswered (.inl rfl) (by simp)

/-- A peer that answered and did not vote to abort waits for the decision. -/
theorem Coordinator.Phase.pledge (hp : co.Phase x h down up) (hop : co.op = .put value)
    (hstage : co.stage x = .answered) (habort : co.abort = false) :
    ∃ p, h = .deciding p ∧ co.Made value p ∧ p.timestamp ≤ co.version := by
  simp only [Phase, hop] at hp
  cases hp with
  | @pledged p stage_eq made le_version => exact ⟨p, rfl, made, le_version⟩
  | _ => simp_all

/-- A decision has been handled: it was to abort, or it was to commit with this version. -/
theorem Coordinator.Phase.decided {p : Participant Key Value}
    (hp : co.Phase x (.decided p) down up) :
    ∃ value, co.op = .put value ∧ co.Made value p ∧
      (co.stage x = .toldAbort ∧ p.abort = true ∨
        co.stage x = .toldCommit ∧ p.timestamp = castInt co.version) := by
  unfold Phase at hp
  split at hp
  · next value hop =>
    cases hp with
    | aborting stage_eq made flagged => exact ⟨value, hop, made, .inl ⟨stage_eq, flagged⟩⟩
    | committing stage_eq made timestamp_eq =>
      exact ⟨value, hop, made, .inr ⟨stage_eq, timestamp_eq⟩⟩
    | _ => simp_all [Handler.working, Handler.Resting]
  · cases hp <;> simp_all

theorem Coordinator.Phase.toldAbort {uid : ℤ} {key : Key}
    (hp : co.Phase x h (.globalAbort uid key :: down) up) : co.stage x = .toldAbort := by
  unfold Phase at hp
  split at hp
  · cases hp <;> assumption
  · cases hp with
    | answered stage_eq quiet repairs => simpa using repairs _ List.mem_cons_self

/-- A peer that was told to abort, and has handled it, is done. -/
theorem Coordinator.Phase.quiet (hp : co.Phase x h [] up) (hop : co.op = .put value)
    (hstage : co.stage x = .fresh ∨ co.stage x = .toldAbort)
    (hwait : (∃ p, h = .deciding p) ∨ (∃ p, h = .leaked p) ∨ h = .idle ∨ h = .closed) :
    h = .idle ∨ h = .closed := by
  simp only [Phase, hop] at hp
  cases hp with
  | fresh stage_eq quiet => exact quiet.imp_right And.left
  | aborting => simp at hwait
  | ended stage_eq resting =>
    rcases resting with resting | rfl
    · rcases hwait with ⟨p, rfl⟩ | ⟨p, rfl⟩ | rfl | rfl
      · exact resting.elim
      · exact resting.elim
      · exact .inl rfl
      · exact .inr rfl
    · exact .inr rfl
  | _ => simp_all

/-- A get is answered with `FETCHED_VALUE`s of its key. -/
theorem Coordinator.Phase.fetchedValue (hp : co.Phase x h down (m :: up)) (hop : co.op = .get) :
    ∃ entry, m = .fetchedValue co.key entry := by
  simp only [Phase, hop] at hp
  cases hp with
  | @replied entry stage_eq => exact ⟨entry, rfl⟩

/-- Only a get repairs. -/
theorem Coordinator.Phase.get_of_repair {key : Key} {version : ℤ}
    (hp : co.Phase x h (.repair key value version :: down) up) : co.op = .get := by
  unfold Phase at hp
  split at hp
  · cases hp
  · assumption

/-! ## The thread at the peer -/

theorem PutPhase.flag (hp : PutPhase co value x h down up) (uid : ℤ) :
    PutPhase co value x (h.flag uid) down up := by
  have hmade : ∀ {p}, co.Made value p →
      co.Made value (if p.uid = uid then { p with abort := true } else p) := by
    intro p hm
    split_ifs
    · exact ⟨hm.uid_eq, hm.key_eq, hm.value_eq⟩
    · exact hm
  have htimestamp : ∀ p : Participant Key Value,
      (if p.uid = uid then { p with abort := true } else p).timestamp = p.timestamp := by
    intro p
    split_ifs <;> rfl
  cases hp with
  | fresh stage_eq quiet =>
    refine .fresh stage_eq ?_
    rcases quiet with rfl | ⟨rfl, hclosed⟩
    · exact .inl rfl
    · exact .inr ⟨rfl, hclosed⟩
  | asked stage_eq => exact .asked stage_eq
  | @working h p stage_eq working_eq made =>
    refine .working stage_eq (p := if p.uid = uid then { p with abort := true } else p) ?_
      (hmade made)
    cases h <;> simp_all [Handler.working, Handler.flag, Handler.mapParticipant]
  | @votedCommit p stage_eq made =>
    have := PutPhase.votedCommit stage_eq (hmade made)
    rwa [htimestamp] at this
  | votedAbort stage_eq resting => exact .votedAbort stage_eq (resting.flag uid)
  | pledged stage_eq made le_version =>
    exact .pledged stage_eq (hmade made) (by rwa [htimestamp])
  | refused stage_eq abort_eq resting => exact .refused stage_eq abort_eq (resting.flag uid)
  | abortSent stage_eq made => exact .abortSent stage_eq (hmade made)
  | staleAbortSent stage_eq resting => exact .staleAbortSent stage_eq (resting.flag uid)
  | aborting stage_eq made flagged =>
    refine .aborting stage_eq (hmade made) ?_
    dsimp only
    split_ifs
    · rfl
    · exact flagged
  | commitSent stage_eq made => exact .commitSent stage_eq (hmade made)
  | committing stage_eq made timestamp_eq =>
    exact .committing stage_eq (hmade made) (by rwa [htimestamp])
  | ended stage_eq resting =>
    refine .ended stage_eq (resting.imp (fun hr => hr.flag uid) ?_)
    rintro rfl
    rfl

theorem GetPhase.flag (hp : GetPhase co x h down up) (uid : ℤ) :
    GetPhase co x (h.flag uid) down up := by
  have hflag : h.flag uid = h := by
    cases hp <;> first
      | rfl
      | (rename_i quiet; rcases quiet with rfl | ⟨rfl, -⟩ <;> rfl)
      | (rename_i quiet repairs; rcases quiet with rfl | rfl <;> rfl)
  rwa [hflag]

theorem Coordinator.Phase.flag (hp : co.Phase x h down up) (uid : ℤ) :
    co.Phase x (h.flag uid) down up := by
  unfold Phase at hp ⊢
  split at hp
  · exact PutPhase.flag hp uid
  · exact GetPhase.flag hp uid

/-- What `deliver_cases` asks of the connection. -/
theorem Coordinator.Phase.expects (hp : co.Phase x h (m :: down) up) :
    (∀ p, h = .deciding p → ((∃ uid key, m = .globalAbort uid key) → m = .globalAbort p.uid p.key) ∧
      ∀ uid key value timestamp, m = .globalCommit uid key value timestamp → key = p.key) ∧
    (h = .idle → ∀ uid key value timestamp, m ≠ .globalCommit uid key value timestamp) := by
  unfold Phase at hp
  split at hp
  · cases hp with
    | asked => simp
    | abortSent stage_eq made => simp [made.uid_eq, made.key_eq]
    | staleAbortSent stage_eq resting =>
      refine ⟨?_, by simp⟩
      rintro p rfl
      exact resting.elim
    | commitSent stage_eq made =>
      refine ⟨fun p hp => ⟨by simp, fun uid key value timestamp hm => ?_⟩, by simp⟩
      cases hp
      cases hm
      exact made.key_eq.symm
  · cases hp with
    | asked => simp
    | answered stage_eq quiet repairs =>
      obtain ⟨value, version, rfl⟩ := repairs m List.mem_cons_self
      rcases quiet with rfl | rfl <;> simp

variable {r : Replica Peer Key Value} {conn : Peer × ℕ}
  {datastore : DatastoreManager Key Value} {participants : Key → Option (Peer × ℕ)}

theorem Coordinator.Phase.delivered [DecidableEq Key] (hp : co.Phase x h (m :: down) up)
    (hstep : DeliverStep r conn h m h' datastore) : co.Phase x h' down up := by
  unfold Phase at hp ⊢
  split at hp
  · cases hstep with
    | prepare =>
      cases hp with
      | asked stage_eq => exact .working stage_eq rfl ⟨rfl, rfl, rfl⟩
    | abort =>
      cases hp with
      | abortSent stage_eq made =>
        exact .aborting stage_eq ⟨made.uid_eq, made.key_eq, made.value_eq⟩ rfl
      | staleAbortSent stage_eq resting => exact resting.elim
    | commit =>
      cases hp with
      | commitSent stage_eq made =>
        exact .committing stage_eq ⟨made.uid_eq, made.key_eq, made.value_eq⟩ rfl
    | fetch | repair => cases hp
  · cases hstep with
    | fetch =>
      cases hp with
      | asked stage_eq => exact .fetching stage_eq
      | answered stage_eq quiet repairs => simpa using repairs _ List.mem_cons_self
    | repair =>
      cases hp with
      | answered stage_eq quiet repairs =>
        exact .answered stage_eq (.inr rfl) fun m hm => repairs m (List.mem_cons_of_mem _ hm)
    | prepare | abort | commit =>
      cases hp with
      | answered stage_eq quiet repairs => simpa using repairs _ List.mem_cons_self

/-- A `GLOBAL_ABORT` that its own connection has no use for any more. -/
theorem Coordinator.Phase.stale {uid : ℤ} {key : Key}
    (hp : co.Phase x .idle (.globalAbort uid key :: down) up) :
    (∃ value, co.op = .put value) ∧ co.stage x = .toldAbort ∧ uid = co.uid ∧ key = co.key ∧
      co.Phase x .idle down up := by
  unfold Phase at hp ⊢
  split at hp
  · next value hop =>
    cases hp with
    | staleAbortSent stage_eq resting =>
      exact ⟨⟨value, hop⟩, stage_eq, rfl, rfl, .ended (.inl stage_eq) (.inl resting)⟩
  · cases hp with
    | answered stage_eq quiet repairs => simpa using repairs _ List.mem_cons_self

theorem Coordinator.Phase.proceeded [DecidableEq Key] [Inhabited Value]
    {sent : Option (Message Key Value)} (hp : co.Phase x h down up)
    (hstep : HandlerStep r conn h h' sent participants datastore) :
    co.Phase x h' down (up ++ sent.toList) := by
  unfold Phase at hp ⊢
  split at hp
  · cases hstep with
    | enter | turnAway | busy =>
      cases hp with
      | working stage_eq working_eq made =>
        obtain rfl := Option.some.inj working_eq
        exact .working stage_eq rfl made
      | _ => simp_all [Handler.Resting]
    | lock =>
      cases hp with
      | working stage_eq working_eq made =>
        obtain rfl := Option.some.inj working_eq
        exact .working stage_eq rfl ⟨made.uid_eq, made.key_eq, made.value_eq⟩
      | _ => simp_all [Handler.Resting]
    | refuse | decline =>
      cases hp with
      | working stage_eq working_eq made =>
        obtain rfl := Option.some.inj working_eq
        rw [made.uid_eq, made.key_eq]
        exact .votedAbort stage_eq trivial
      | _ => simp_all [Handler.Resting]
    | vote =>
      cases hp with
      | working stage_eq working_eq made =>
        obtain rfl := Option.some.inj working_eq
        rw [made.uid_eq, made.key_eq]
        exact .votedCommit stage_eq made
      | _ => simp_all [Handler.Resting]
    | abort | commit =>
      cases hp with
      | aborting stage_eq made flagged => exact .ended (.inl stage_eq) (.inl trivial)
      | committing stage_eq made timestamp_eq => exact .ended (.inr stage_eq) (.inl trivial)
      | _ => simp_all [Handler.Resting, Handler.working]
    | leave =>
      rw [Option.toList_none, List.append_nil]
      cases hp with
      | votedAbort stage_eq resting => exact .votedAbort stage_eq trivial
      | refused stage_eq abort_eq resting => exact .refused stage_eq abort_eq trivial
      | staleAbortSent stage_eq resting => exact .staleAbortSent stage_eq trivial
      | ended stage_eq resting => exact .ended stage_eq (.inl trivial)
      | _ => simp_all [Handler.working]
    | read | reply => cases hp <;> simp_all [Handler.Resting, Handler.working]
  · cases hstep with
    | read =>
      cases hp with
      | fetching stage_eq => exact .replying stage_eq
      | _ => simp_all
    | reply =>
      cases hp with
      | replying stage_eq => exact .replied stage_eq
      | _ => simp_all
    | _ => cases hp <;> simp_all

theorem Coordinator.Phase.hungUp (hok : co.Ok settings c) (hclosed : co.closed = true)
    (hp : co.Phase x h [] up) : (h = .idle → co.Phase x .closed [] up) ∧ ∀ p, h ≠ .deciding p := by
  have hpc := hok.closed_pc hclosed
  have hstage : co.stage x ≠ .asked := by
    unfold stage
    rcases hpc with hpc | ⟨returned, hpc⟩ | hpc | hpc | hpc <;> rw [hpc] <;> split_ifs <;>
      cases co.op <;> simp
    all_goals cases returned <;> simp
  have hput : ∀ value, co.op = .put value → co.stage x ≠ .answered := by
    intro value hop
    unfold stage
    rcases hpc with hpc | ⟨returned, hpc⟩ | hpc | hpc | hpc <;> rw [hpc, hop] <;> split_ifs <;> simp
    all_goals cases returned <;> simp
  unfold Phase at hp ⊢
  split at hp
  · next value hop =>
    have hanswered := hput value hop
    cases hp with
    | fresh stage_eq quiet =>
      refine ⟨fun _ => .fresh stage_eq (.inr ⟨rfl, hclosed⟩), ?_⟩
      rintro p rfl
      simp at quiet
    | ended stage_eq resting =>
      refine ⟨fun _ => .ended stage_eq (.inr rfl), ?_⟩
      rintro p rfl
      simp [Handler.Resting] at resting
    | aborting | committing => simp
    | _ => simp_all
  · cases hp with
    | fresh stage_eq quiet =>
      refine ⟨fun _ => .fresh stage_eq (.inr ⟨rfl, hclosed⟩), ?_⟩
      rintro p rfl
      simp at quiet
    | answered stage_eq quiet repairs =>
      refine ⟨fun _ => .answered stage_eq (.inr rfl) repairs, ?_⟩
      rintro p rfl
      simp at quiet
    | _ => simp_all

end Preservation
end LeaderlessDatastore
