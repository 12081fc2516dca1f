import LeaderlessDatastore.LockDiscipline
import LeaderlessDatastore.Quorum

/-!
# The record of an attempt

`Coordinator.Ok` is what the record of an attempt always satisfies.  The stage of
a coordinator with respect to a peer says which messages of the protocol have
passed between the two.
-/

namespace LeaderlessDatastore

open Function

inductive Stage where
  /-- nothing has been sent -/
  | fresh
  | asked
  | answered
  | toldAbort
  | toldCommit
  deriving DecidableEq

namespace Coordinator

variable {Peer Key Value : Type}

/-- The put is decided, and the decision is to commit. -/
def committed (co : Coordinator Peer Key Value) : Bool :=
  match co.op, co.pc with
  | .put _, .committing | .put _, .finish true | .put _, .succeeded => true
  | _, _ => false

/-- The put has thrown an exception. -/
def failed (co : Coordinator Peer Key Value) : Bool :=
  match co.op, co.pc with
  | .put _, .finish false | .put _, .backoff | .put _, .superseded => true
  | _, _ => false

/-- What the record of an attempt at replica `c` always satisfies. -/
structure Ok (settings : Settings Peer) (c : Peer) (co : Coordinator Peer Key Value) : Prop where
  nodup : (c :: co.quorum).Nodup
  size_le : ((c :: co.quorum).length : ℤ) ≤ co.quorumSize settings
  quorum_eq_nil : co.pc = .register ∨ co.pc = .begin ∨ co.pc = .connect → co.quorum = []
  replies_le : co.pc = .connect ∨ co.pc = .exchange →
    co.replies ≤ 1 + co.quorum.countP fun x => co.sender x = .finished
  put_pc : co.op ≠ .get → co.pc ≠ .repair ∧ co.pc ≠ .repairing
  get_pc : co.op = .get → co.pc ≠ .aborting ∧ co.pc ≠ .release ∧ co.pc ≠ .committing
  closed_pc : co.closed = true → co.pc = .release ∨ (∃ returned, co.pc = .finish returned) ∨
    co.pc = .backoff ∨ co.pc = .superseded ∨ co.pc = .succeeded
  commit_ok : co.committed → co.abort = false ∧
    ((c :: co.quorum).length : ℤ) = settings.writeQuorum
  answer_pc : co.answer ≠ none → co.op = .get ∧ (co.pc = .repair ∨ co.pc = .repairing ∨
    co.pc = .finish true ∨ co.pc = .succeeded)

theorem Ok.of_fresh {settings : Settings Peer} {c : Peer} {co : Coordinator Peer Key Value}
    (hsize : 1 ≤ co.quorumSize settings) (hpc : co.pc = .register) (hquorum : co.quorum = [])
    (hclosed : co.closed = false) (hanswer : co.answer = none) : co.Ok settings c where
  nodup := by simp [hquorum]
  size_le := by simpa [hquorum] using hsize
  quorum_eq_nil _ := hquorum
  replies_le h := by simp [hpc] at h
  put_pc _ := by simp [hpc]
  get_pc _ := by simp [hpc]
  closed_pc h := by simp [hclosed] at h
  commit_ok h := by
    unfold committed at h
    split at h <;> simp_all
  answer_pc h := absurd hanswer h

variable [DecidableEq Peer]

def stage (co : Coordinator Peer Key Value) (x : Peer) : Stage :=
  if x ∈ co.quorum then
    match co.op, co.pc, co.sender x with
    | _, .register, _ | _, .begin, _ | _, .connect, _ | _, .exchange, .unsent => .fresh
    | _, .exchange, .waiting => .asked
    | _, .exchange, .finished | .get, _, _ | _, .aborting, .unsent
    | _, .committing, .unsent => .answered
    | _, .committing, _ | _, .finish true, _ | _, .succeeded, _ => .toldCommit
    | _, _, _ => .toldAbort
  else .fresh

end Coordinator

/-- What a replica needs of its configuration. -/
structure Settings.Ok {Peer : Type} (settings : Settings Peer) (c : Peer) : Prop where
  addresses : (c :: settings.replicaAddresses).Nodup
  read_pos : 1 ≤ settings.readQuorum
  write_pos : 1 ≤ settings.writeQuorum

theorem Settings.Ok.quorumSize_pos {Peer Key Value : Type} {settings : Settings Peer} {c : Peer}
    (h : settings.Ok c) (co : Coordinator Peer Key Value) : 1 ≤ co.quorumSize settings := by
  unfold Coordinator.quorumSize
  split
  · exact h.write_pos
  · exact h.read_pos

section Step

variable {Peer Key Value : Type} {settings : Settings Peer}
  {r : Replica Peer Key Value} {a : ℕ} {c : Peer} {co co' : Coordinator Peer Key Value}
  {coordinators : Key → Option ℕ} {datastore : DatastoreManager Key Value}

theorem Coordinator.Ok.sent [DecidableEq Peer] {x : Peer} (h : co.Ok settings c)
    (hunsent : co.sender x = .unsent) : (co.sentTo x).Ok settings c where
  nodup := h.nodup
  size_le := h.size_le
  quorum_eq_nil := h.quorum_eq_nil
  replies_le hpc := by
    -- the count of finished senders can only grow
    have hcount : co.quorum.countP (fun y => co.sender y = .finished) ≤
        (co.sentTo x).quorum.countP (fun y => (co.sentTo x).sender y = .finished) := by
      refine List.countP_mono_left fun y _ hy => ?_
      have hne : y ≠ x := by
        rintro rfl
        simp [hunsent] at hy
      simpa [sentTo, update_of_ne hne] using hy
    exact (h.replies_le hpc).trans (by omega)
  put_pc := h.put_pc
  get_pc := h.get_pc
  closed_pc := h.closed_pc
  commit_ok := h.commit_ok
  answer_pc := h.answer_pc

theorem Coordinator.heardFrom_same [DecidableEq Peer] (co : Coordinator Peer Key Value) (x : Peer)
    (m : Message Key Value) :
    (co.heardFrom x m).op = co.op ∧ (co.heardFrom x m).key = co.key ∧
      (co.heardFrom x m).uid = co.uid ∧ (co.heardFrom x m).pc = co.pc ∧
      (co.heardFrom x m).quorum = co.quorum ∧ (co.heardFrom x m).closed = co.closed ∧
      (co.heardFrom x m).answer = co.answer := by
  unfold heardFrom hear
  split <;> exact ⟨rfl, rfl, rfl, rfl, rfl, rfl, rfl⟩

theorem Coordinator.Ok.heard [DecidableEq Peer] {x : Peer} {m : Message Key Value}
    (h : co.Ok settings c) (hpc : co.pc = .exchange) (hx : x ∈ co.quorum)
    (hwaiting : co.sender x = .waiting) : (co.heardFrom x m).Ok settings c := by
  obtain ⟨hop, -, -, hpc', hquorum, hclosed, hanswer⟩ := co.heardFrom_same x m
  constructor
  case nodup => simpa only [hquorum] using h.nodup
  case size_le => simpa only [hquorum, quorumSize, hop] using h.size_le
  case quorum_eq_nil => simp [hpc', hpc]
  case replies_le =>
    intro _
    have hcount := Quorum.countP_update (List.nodup_cons.mp h.nodup).2 hx
      (f := co.sender) (b := .finished) (by simp [hwaiting])
    have hold := h.replies_le (.inr hpc)
    have hreplies : (co.heardFrom x m).replies = co.replies + 1 := rfl
    have hsender : (co.heardFrom x m).sender = update co.sender x .finished := rfl
    rw [hreplies, hsender, hquorum, hcount]
    push_cast
    omega
  case put_pc => simp [hpc', hpc]
  case get_pc => simp [hpc', hpc]
  case closed_pc => simpa only [hclosed, hpc'] using h.closed_pc
  case commit_ok =>
    intro hcommitted
    unfold committed at hcommitted
    split at hcommitted <;> simp_all
  case answer_pc => simpa only [hanswer, hop, hpc'] using h.answer_pc

/-- With all replies counted, the whole quorum has answered. -/
theorem Coordinator.Ok.all_finished (hok : co.Ok settings c) (hpc : co.pc = .exchange)
    (hcounted : co.replies = co.quorumSize settings) :
    ((c :: co.quorum).length : ℤ) = co.quorumSize settings ∧
      ∀ x ∈ co.quorum, co.sender x = .finished := by
  have hreplies := hok.replies_le (.inr hpc)
  have hsize := hok.size_le
  have hcount : co.quorum.countP (fun x => co.sender x = .finished) ≤ co.quorum.length :=
    List.countP_le_length
  rw [List.length_cons] at hsize ⊢
  have hall : co.quorum.countP (fun x => co.sender x = .finished) = co.quorum.length := by
    push_cast at hsize
    omega
  refine ⟨by push_cast at hsize ⊢; omega, fun x hx => ?_⟩
  simpa using List.countP_eq_length.mp hall x hx

/-! ## Later records of an attempt -/

/-- `co'` is a later record of the attempt `co`: what has been decided stays. -/
structure Coordinator.Later (co co' : Coordinator Peer Key Value) : Prop where
  op_eq : co'.op = co.op
  key_eq : co'.key = co.key
  uid_eq : co'.uid = co.uid
  committed : co.committed → co'.committed ∧ co'.version = co.version ∧ co'.quorum = co.quorum
  failed : co.failed → co'.failed
  answer_eq : co.answer ≠ none → co'.answer = co.answer

theorem Coordinator.Later.refl (co : Coordinator Peer Key Value) : co.Later co :=
  ⟨rfl, rfl, rfl, fun h => ⟨h, rfl, rfl⟩, id, fun _ => rfl⟩

theorem Coordinator.Later.trans {co'' : Coordinator Peer Key Value} (h : co.Later co')
    (h' : co'.Later co'') : co.Later co'' where
  op_eq := h'.op_eq.trans h.op_eq
  key_eq := h'.key_eq.trans h.key_eq
  uid_eq := h'.uid_eq.trans h.uid_eq
  committed hc := by
    obtain ⟨hc', hversion, hquorum⟩ := h.committed hc
    obtain ⟨hc'', hversion', hquorum'⟩ := h'.committed hc'
    exact ⟨hc'', hversion'.trans hversion, hquorum'.trans hquorum⟩
  failed hf := h'.failed (h.failed hf)
  answer_eq ha := by
    have := h.answer_eq ha
    exact (h'.answer_eq (this ▸ ha)).trans this

theorem Coordinator.later_sentTo [DecidableEq Peer] (co : Coordinator Peer Key Value) (x : Peer) :
    co.Later (co.sentTo x) :=
  ⟨rfl, rfl, rfl, fun h => ⟨h, rfl, rfl⟩, id, fun _ => rfl⟩

theorem Coordinator.later_heardFrom [DecidableEq Peer] {x : Peer} {m : Message Key Value}
    (co : Coordinator Peer Key Value) (hpc : co.pc = .exchange) : co.Later (co.heardFrom x m) := by
  obtain ⟨hop, hkey, huid, -, -, -, hanswer⟩ := co.heardFrom_same x m
  refine ⟨hop, hkey, huid, fun hc => ?_, fun hf => ?_, fun _ => hanswer⟩
  · cases hop' : co.op <;> simp [committed, hop', hpc] at hc
  · cases hop' : co.op <;> simp [failed, hop', hpc] at hf

/-! ## Steps of a coordinator -/

variable [DecidableEq Key] [Inhabited Value]

namespace CoordinatorStep

theorem same_request (h : CoordinatorStep settings r a co co' coordinators datastore) :
    co'.op = co.op ∧ co'.key = co.key ∧ co'.uid = co.uid := by
  cases h <;> exact ⟨rfl, rfl, rfl⟩

/-- The quorum is chosen once. -/
theorem quorum_cases (h : CoordinatorStep settings r a co co' coordinators datastore) :
    co'.quorum = co.quorum ∨ co.pc = .connect ∧ ∃ connectTo shuffled,
      shuffled.Perm settings.replicaAddresses ∧ co'.quorum =
        Coordinator.connectToQuorum connectTo shuffled (co.quorumSize settings) true := by
  cases h with
  | connected pc_eq perm => exact .inr ⟨pc_eq, _, _, perm, rfl⟩
  | _ => exact .inl rfl

end CoordinatorStep

theorem Coordinator.Ok.step (hs : settings.Ok c) (h : co.Ok settings c)
    (hstep : CoordinatorStep settings r a co co' coordinators datastore) : co'.Ok settings c := by
  have hsize : co'.quorumSize settings = co.quorumSize settings := by
    rw [quorumSize, quorumSize, hstep.same_request.1]
  constructor
  case nodup =>
    rcases hstep.quorum_cases with hq | ⟨-, connectTo, shuffled, hperm, hq⟩
    · exact hq ▸ h.nodup
    · obtain ⟨hc, hnodup⟩ := List.nodup_cons.mp hs.addresses
      have hsub := connectToQuorum_sublist connectTo shuffled (co.quorumSize settings) true
      refine hq ▸ List.nodup_cons.mpr ⟨fun hmem => hc (hperm.mem_iff.mp ?_), ?_⟩
      · exact List.mem_reverse.mp (hsub.subset hmem)
      · exact hsub.nodup (List.nodup_reverse.mpr (hperm.nodup_iff.mpr hnodup))
  case size_le =>
    rw [hsize]
    rcases hstep.quorum_cases with hq | ⟨-, connectTo, shuffled, -, hq⟩
    · exact hq ▸ h.size_le
    · have := connectToQuorum_length_le connectTo shuffled true (hs.quorumSize_pos co)
      rw [hq, List.length_cons]
      push_cast
      omega
  case quorum_eq_nil =>
    have := h.quorum_eq_nil
    cases hstep <;> simp_all
  case replies_le =>
    have := h.replies_le
    have := h.quorum_eq_nil
    cases hstep <;> simp_all
  case put_pc =>
    have := h.put_pc
    cases hstep <;> simp_all
  case get_pc =>
    have := h.get_pc
    cases hstep <;> simp_all
  case closed_pc =>
    have := h.closed_pc
    cases hstep <;> simp_all
  case commit_ok =>
    have hold := h.commit_ok
    have hput := h.put_pc
    cases hstep with
    | @commit value pc_eq joined op_eq counted unanimous =>
      -- every reply was counted and no more than one member is missing
      have hreplies := h.replies_le (.inr pc_eq)
      have hcount : co.quorum.countP (fun x => co.sender x = .finished) ≤ co.quorum.length :=
        List.countP_le_length
      have hle : ((c :: co.quorum).length : ℤ) ≤ settings.writeQuorum := by
        simpa [quorumSize, op_eq] using h.size_le
      rw [List.length_cons] at hle
      refine fun _ => ⟨unanimous, ?_⟩
      rw [List.length_cons]
      push_cast at hle ⊢
      omega
    | _ => cases hop : co.op <;> simp_all [committed]
  case answer_pc =>
    have := h.answer_pc
    cases hstep <;> simp_all

theorem CoordinatorStep.later (hok : co.Ok settings c)
    (h : CoordinatorStep settings r a co co' coordinators datastore) : co.Later co' := by
  have hanswer := hok.answer_pc
  obtain ⟨hop, hkey, huid⟩ := h.same_request
  refine ⟨hop, hkey, huid, ?_, ?_, ?_⟩
  · cases hop' : co.op <;> cases h <;> simp_all [Coordinator.committed]
  · cases hop' : co.op <;> cases h <;> simp_all [Coordinator.failed]
  · cases h <;> simp_all

end Step

/-! ## Stages -/

section Stages

variable {Peer Key Value : Type} {settings : Settings Peer}
  {co co' : Coordinator Peer Key Value} {x y : Peer} {c : Peer}

namespace Coordinator

theorem sender_eq_finished (hjoined : co.joined) (hx : x ∈ co.quorum) :
    co.sender x = .finished := by
  simpa using List.all_eq_true.mp hjoined x hx

variable [DecidableEq Peer]

theorem stage_of_not_mem (h : x ∉ co.quorum) : co.stage x = .fresh := if_neg h

/-- The stage of a peer depends on its own sender only. -/
theorem stage_congr (hop : co'.op = co.op) (hpc : co'.pc = co.pc) (hquorum : co'.quorum = co.quorum)
    (hsender : co'.sender x = co.sender x) : co'.stage x = co.stage x := by
  simp only [stage, hop, hpc, hquorum, hsender]

theorem stage_exchange (hpc : co.pc = .exchange) (hx : x ∈ co.quorum) :
    co.stage x = match co.sender x with
      | .unsent => .fresh
      | .waiting => .asked
      | .finished => .answered := by
  rw [stage, if_pos hx, hpc]
  cases co.sender x <;> rfl

theorem committed_of_toldCommit (h : co.stage x = .toldCommit) : co.committed := by
  unfold stage at h
  split_ifs at h
  cases hop : co.op <;> cases hpc : co.pc <;> cases hs : co.sender x <;>
    simp_all [committed]
  all_goals split at h <;> simp_all

theorem not_committed_of_toldAbort (h : co.stage x = .toldAbort) : ¬ co.committed := by
  intro hc
  unfold stage at h
  split_ifs at h
  unfold committed at hc
  split at hc
  · cases hs : co.sender x <;> simp_all
  · simp_all
  · simp_all
  · cases hc

theorem stage_of_failed (h : co.failed) : co.stage x = .fresh ∨ co.stage x = .toldAbort := by
  by_cases hx : x ∈ co.quorum
  · right
    unfold failed at h
    split at h <;> simp_all [stage]
  · exact .inl (stage_of_not_mem hx)

/-- Only messages move a peer to another stage. -/
theorem stage_step [DecidableEq Key] [Inhabited Value] {r : Replica Peer Key Value} {a : ℕ}
    {coordinators : Key → Option ℕ} {datastore : DatastoreManager Key Value}
    (h : co.Ok settings c)
    (hstep : CoordinatorStep settings r a co co' coordinators datastore) :
    co'.stage x = co.stage x := by
  by_cases hx : x ∈ co.quorum
  · have hnil := h.quorum_eq_nil
    have hput := h.put_pc
    have hget := h.get_pc
    have hfinished := fun hjoined => sender_eq_finished hjoined hx
    cases hop : co.op <;> cases hstep <;> simp_all [stage]
  · rw [stage_of_not_mem hx]
    cases hstep <;> simp_all [stage]

end Coordinator
end Stages
end LeaderlessDatastore
