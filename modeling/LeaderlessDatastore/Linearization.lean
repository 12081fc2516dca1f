import LeaderlessDatastore.Linearizability
import LeaderlessDatastore.Reads

/-!
# Every key is a register

The puts and gets of one key, as their clients see them, form a history of a
register.  The versions of `Freshness` and `Reads` put this history into an order, so
it is linearizable, and the failed attempts have no place in it.
-/

namespace LeaderlessDatastore

open Function

section Coordinators

variable {Peer Key Value : Type}

/-- What the attempt has done to the register of its key. -/
def Coordinator.call (co : Coordinator Peer Key Value) : Option (Register.Call Value) :=
  match co.op with
  | .put value => if co.committed then some (.write value) else none
  | .get => co.answer.map fun answer => .read (answer.map Prod.fst)

/-- The client has its reply. -/
def Coordinator.replied (co : Coordinator Peer Key Value) : Bool :=
  co.acknowledged || co.answer.isSome

/-- The version that was written or returned; none was found for `null`. -/
def Coordinator.stamp (co : Coordinator Peer Key Value) : ℤ :=
  match co.op with
  | .put _ => co.version
  | .get => (co.answer.join.map Prod.snd).getD 0

theorem Coordinator.call_eq_write {co : Coordinator Peer Key Value} {value : Value} :
    co.call = some (.write value) ↔ co.op = .put value ∧ co.committed := by
  unfold call
  split <;> simp_all [and_comm]

theorem Coordinator.call_eq_read {co : Coordinator Peer Key Value} {result : Option Value} :
    co.call = some (.read result) ↔
      co.op = .get ∧ ∃ answer, co.answer = some answer ∧ answer.map Prod.fst = result := by
  unfold call
  split <;> simp_all

/-- The client has no reply to what took no effect. -/
theorem Coordinator.isSome_call_of_replied {co : Coordinator Peer Key Value}
    (hanswer : co.answer ≠ none → co.op = .get) (h : co.replied) : co.call.isSome := by
  unfold replied at h
  rcases Bool.or_eq_true_iff.mp h with hacked | hanswered
  · have hc := committed_of_acknowledged hacked
    unfold acknowledged at hacked
    split at hacked <;> simp_all [call]
  · have hop := hanswer (Option.isSome_iff_ne_none.mp hanswered)
    simpa [call, hop] using hanswered

/-- An effect stays as it is. -/
theorem Coordinator.Later.call_eq {co co' : Coordinator Peer Key Value} (h : co.Later co')
    (hcall : co.call.isSome) : co'.call = co.call ∧ co'.stamp = co.stamp := by
  unfold call at hcall ⊢
  unfold stamp
  rw [h.op_eq]
  split at hcall
  · next value hop =>
    have hc : co.committed := by
      by_contra hc
      simp [hc] at hcall
    obtain ⟨hc', hversion, -⟩ := h.committed hc
    simp [hc, hc', hversion]
  · next hop =>
    have hanswer := h.answer_eq (Option.isSome_iff_ne_none.mp (by simpa using hcall))
    simp [hanswer]

end Coordinators

namespace Cluster

variable {n : ℕ} {Key Value : Type} {config : Fin n → Settings (Fin n)}
  {s t u : Cluster n Key Value} {e : Event n Key Value} {ca cb : Fin n × ℕ}
  {co co' : Coordinator (Fin n) Key Value}

/-- The history of one key in the run through the given states. -/
def history [DecidableEq Key] (state : ℕ → Cluster n Key Value) (length : ℕ) (key : Key) :
    Register.History (Fin n × ℕ) Value where
  call ca := ((state length).attempt ca).bind fun co => if co.key = key then co.call else none
  before ca cb := ∃ i ≤ length, (∃ co, (state i).attempt ca = some co ∧ co.replied) ∧
    (state i).attempt cb = none

/-! ## Finitely many attempts -/

def started (s : Cluster n Key Value) : Set (Fin n × ℕ) := {ca | (s.attempt ca).isSome}

theorem finite_started_update (hs : s.started.Finite)
    (ht : t.attempt = update s.attempt ca (some co)) : t.started.Finite := by
  refine (hs.insert ca).subset fun cb hcb => ?_
  by_cases hne : cb = ca
  · exact .inl hne
  · refine .inr ?_
    change (t.attempt cb).isSome at hcb
    rwa [ht, update_of_ne hne] at hcb

variable [DecidableEq Key] [Inhabited Value]

theorem Change.finite_started (h : Change config s e t) (hs : s.started.Finite) :
    t.started.Finite := by
  have same : t.attempt = s.attempt → t.started.Finite := fun ht => by
    rwa [started, ht]
  cases h with
  | request => exact finite_started_update hs (attempt_spawn ..)
  | retry =>
    exact finite_started_update (finite_started_update hs (attempt_move ..)) (attempt_spawn ..)
  | move => exact finite_started_update hs (attempt_move ..)
  | send => exact finite_started_update hs (attempt_move ..)
  | reply => exact finite_started_update hs (attempt_move ..)
  | deliver | proceed | hangup => exact same (attempt_handle ..)
  | stale => exact same (attempt_flag ..)

theorem finite_started_of_run {allowed : Cluster n Key Value → Event n Key Value → Prop}
    (hset : ∀ c, (config c).Ok c) (hinv : Inv config s) (hs : s.started.Finite)
    (h : Run config allowed s t) : t.started.Finite :=
  (h.preserves (P := fun s => Inv config s ∧ s.started.Finite) (fun _ _ _ hs _ hstep =>
    ⟨hs.1.change hset (step_cases hs.1 hstep), (step_cases hs.1 hstep).finite_started hs.2⟩)
    ⟨hinv, hs⟩).2

/-! ## Versions -/

omit [DecidableEq Key] [Inhabited Value] in
/-- What a client has written or read was written by a put that has committed. -/
theorem Good.stamp_cases (hs : Good config s) (hco : s.attempt ca = some co)
    (hcall : co.call.isSome) : co.stamp = 0 ∨ ∃ cp put, s.attempt cp = some put ∧ put.committed ∧
      put.key = co.key ∧ put.version = co.stamp := by
  unfold Coordinator.call at hcall
  unfold Coordinator.stamp
  split at hcall
  · next value hop =>
    have hc : co.committed := by
      by_contra hc
      simp [hc] at hcall
    exact .inr ⟨ca, co, hco, hc, rfl, rfl⟩
  · obtain ⟨answer, hanswer⟩ := Option.isSome_iff_exists.mp (by simpa using hcall)
    cases answer with
    | none => exact .inl (by simp [hanswer])
    | some entry =>
      obtain ⟨cp, put, hput, hc, hkey, -, hversion⟩ := hs.sourced.answered ca co entry hco hanswer
      exact .inr ⟨cp, put, hput, hc, hkey, by simp [hanswer, hversion]⟩

omit [DecidableEq Key] [Inhabited Value] in
theorem Good.stamp_nonneg (hs : Good config s) (hco : s.attempt ca = some co)
    (hcall : co.call.isSome) : 0 ≤ co.stamp := by
  rcases hs.stamp_cases hco hcall with hzero | ⟨cp, put, hput, hc, -, hversion⟩
  · exact hzero.ge
  · have := hs.counted.committed cp put hput hc
    omega

omit [DecidableEq Key] [Inhabited Value] in
/-- A call that begins when the client of another one has its reply gets no smaller version,
and a write gets a greater one. -/
theorem Good.stamp_le (hs : Good config s) (ht : Good config t)
    (hafter : ∀ cp put, s.attempt cp = some put → put.committed → After config s cp put t)
    (hco : s.attempt ca = some co) (hcall : co.call.isSome) (hfresh : s.attempt cb = none)
    (hco' : t.attempt cb = some co') (hkey : co'.key = co.key) (hcall' : co'.call.isSome) :
    co.stamp ≤ co'.stamp ∧ ∀ value, co'.call = some (.write value) → co.stamp < co'.stamp := by
  rcases hs.stamp_cases hco hcall with hzero | ⟨cp, put, hput, hc, hkeyPut, hversion⟩
  · refine ⟨hzero ▸ ht.stamp_nonneg hco' hcall', fun value hwrite => ?_⟩
    obtain ⟨hop, hc'⟩ := Coordinator.call_eq_write.mp hwrite
    have := ht.counted.committed cb co' hco' hc'
    simp only [Coordinator.stamp, hop] at hzero ⊢
    omega
  · have hafter := hafter cp put hput hc
    have hputs : ∀ value, co'.call = some (.write value) → co.stamp < co'.stamp := by
      intro value hwrite
      obtain ⟨hop, hc'⟩ := Coordinator.call_eq_write.mp hwrite
      have := hafter.above cb co' hfresh hco' hc' (hkey.trans hkeyPut.symm)
      simpa only [Coordinator.stamp, hop, hversion] using this
    refine ⟨?_, hputs⟩
    obtain ⟨call, hsome⟩ := Option.isSome_iff_exists.mp hcall'
    cases call with
    | write value => exact (hputs value hsome).le
    | read result =>
      obtain ⟨hop, answer, hanswer, -⟩ := Coordinator.call_eq_read.mp hsome
      obtain ⟨found, rfl, hle⟩ := (hafter.informed cb hfresh).answered co' answer hco'
        (hkey.trans hkeyPut.symm) hanswer
      simpa [Coordinator.stamp, hop, hanswer, hversion] using hle

/-! ## The history of a key -/

section History

variable {readQuorum writeQuorum : ℤ} {state : ℕ → Cluster n Key Value} {length : ℕ} {key : Key}

omit [Inhabited Value] in
theorem history_call {call : Register.Call Value} :
    (history state length key).call ca = some call ↔
      ∃ co, (state length).attempt ca = some co ∧ co.key = key ∧ co.call = some call := by
  simp only [history, Option.bind_eq_some_iff]
  refine exists_congr fun co => and_congr_right fun _ => ?_
  split <;> simp_all

/-- What a run keeps, as far as the order of its calls depends on it. -/
structure Chronicle (config : Fin n → Settings (Fin n)) (state : ℕ → Cluster n Key Value)
    (length : ℕ) : Prop where
  good : ∀ i ≤ length, Good config (state i)
  later : ∀ i j, i ≤ j → j ≤ length → Later (state i) (state j)
  after : ∀ i j, i ≤ j → j ≤ length → ∀ ca co, (state i).attempt ca = some co → co.committed →
    After config (state i) ca co (state j)
  finite : (state length).started.Finite

theorem Chronicle.of_runs (hstart : state 0 = initial fun _ _ => none)
    (hruns : ∀ i j, i ≤ j → j ≤ length →
      Run (settings n readQuorum writeQuorum) Agreed (state i) (state j)) :
    Chronicle (settings n readQuorum writeQuorum) state length := by
  have hquorums := fun c _ : Fin n => settings_quorums readQuorum writeQuorum c
  have hgood : ∀ i ≤ length, Good (settings n readQuorum writeQuorum) (state i) := fun i hi =>
    Good.of_initial.run settings_ok (fun c => (hquorums c c).majority)
      (hstart ▸ hruns 0 i i.zero_le hi)
  constructor
  case good => exact hgood
  case later =>
    exact fun i j hij hj => (hgood i (hij.trans hj)).inv.later settings_ok (hruns i j hij hj)
  case after =>
    exact fun i j hij hj ca co hco hc =>
      .of_run settings_ok hquorums (hgood i (hij.trans hj)) hco hc (hruns i j hij hj)
  case finite =>
    have hinitial : (initial fun _ _ => none : Cluster n Key Value).started.Finite := by
      simp [started, attempt, initial, Replica.started]
    exact finite_started_of_run settings_ok (.of_initial _) hinitial
      (hstart ▸ hruns 0 length length.zero_le le_rfl)

section Order

omit [Inhabited Value]

/-- The versions of the calls agree with the order in which the clients made them. -/
theorem Chronicle.stamp_le_of_before (h : Chronicle config state length)
    (hbefore : (history state length key).before ca cb)
    (hco : (state length).attempt ca = some co) (hkey : co.key = key)
    (hco' : (state length).attempt cb = some co') (hkey' : co'.key = key)
    (hcall' : co'.call.isSome) :
    co.stamp ≤ co'.stamp ∧ ∀ value, co'.call = some (.write value) → co.stamp < co'.stamp := by
  obtain ⟨i, hi, ⟨co₀, hco₀, hreplied⟩, hfresh⟩ := hbefore
  have hgood := h.good i hi
  obtain ⟨co₁, hco₁, hlater⟩ := h.later i length hi le_rfl ca co₀ hco₀
  obtain rfl := Option.some.inj (hco₁.symm.trans hco)
  have hcall := Coordinator.isSome_call_of_replied
    (fun ha => ((hgood.inv.attempt_ok ca co₀ hco₀).answer_pc ha).1) hreplied
  rw [(hlater.call_eq hcall).2]
  exact hgood.stamp_le (h.good length le_rfl) (h.after i length hi le_rfl) hco₀ hcall hfresh hco'
    (hkey'.trans (hkey.symm.trans hlater.key_eq)) hcall'

theorem Chronicle.exists_version (h : Chronicle config state length) (key : Key) :
    ∃ (version : Fin n × ℕ → ℤ) (start : Fin n × ℕ → ℕ),
      (history state length key).Versioned 0 version start := by
  have hgood := h.good length le_rfl
  have hversion : ∀ {ca co}, (state length).attempt ca = some co →
      (((state length).attempt ca).map Coordinator.stamp).getD 0 = co.stamp := fun hco => by
    simp [hco]
  have hcall : ∀ {ca}, ((history state length key).call ca).isSome →
      ∃ co, (state length).attempt ca = some co ∧ co.key = key ∧ co.call.isSome := by
    intro ca h
    obtain ⟨call, h⟩ := Option.isSome_iff_exists.mp h
    obtain ⟨co, hco, hkey, hc⟩ := history_call.mp h
    exact ⟨co, hco, hkey, by simp [hc]⟩
  refine ⟨fun ca => (((state length).attempt ca).map Coordinator.stamp).getD 0,
    fun ca => sInf {i | ((state i).attempt ca).isSome}, ?_⟩
  constructor
  case finite =>
    refine h.finite.subset fun ca hca => ?_
    obtain ⟨co, hco, -⟩ := hcall hca
    simp [started, hco]
  case start_lt =>
    rintro ca cb hca hcb ⟨i, hi, ⟨co, hco, -⟩, hfresh⟩
    obtain ⟨co', hco', -⟩ := hcall hcb
    have hmem : sInf {i | ((state i).attempt cb).isSome} ∈ {i | ((state i).attempt cb).isSome} :=
      Nat.sInf_mem ⟨length, by simp [hco']⟩
    have hstarted : sInf {i | ((state i).attempt ca).isSome} ≤ i := Nat.sInf_le (by simp [hco])
    refine hstarted.trans_lt (lt_of_not_ge fun hle => ?_)
    obtain ⟨co₁, hco₁⟩ := Option.isSome_iff_exists.mp hmem
    obtain ⟨co₂, hco₂, -⟩ := h.later _ i hle hi cb co₁ hco₁
    rw [hfresh] at hco₂
    cases hco₂
  case version_le =>
    intro ca cb hca hcb hbefore
    obtain ⟨co, hco, hkey, -⟩ := hcall hca
    obtain ⟨co', hco', hkey', hcall'⟩ := hcall hcb
    rw [hversion hco, hversion hco']
    exact (h.stamp_le_of_before hbefore hco hkey hco' hkey' hcall').1
  case write_lt =>
    intro ca cb value hca hcb hbefore
    obtain ⟨co, hco, hkey, -⟩ := hcall hca
    obtain ⟨co', hco', hkey', hwrite⟩ := history_call.mp hcb
    rw [hversion hco, hversion hco']
    exact (h.stamp_le_of_before hbefore hco hkey hco' hkey' (by simp [hwrite])).2 value hwrite
  case write_inj =>
    intro ca cb value value' hca hcb heq
    obtain ⟨co, hco, hkey, hwrite⟩ := history_call.mp hca
    obtain ⟨co', hco', hkey', hwrite'⟩ := history_call.mp hcb
    obtain ⟨hop, hc⟩ := Coordinator.call_eq_write.mp hwrite
    obtain ⟨hop', hc'⟩ := Coordinator.call_eq_write.mp hwrite'
    rw [hversion hco, hversion hco'] at heq
    refine hgood.distinct ca cb co co' hco hco' hc hc' (hkey.trans hkey'.symm) ?_
    simpa only [Coordinator.stamp, hop, hop'] using heq
  case initial_lt =>
    intro ca value hca
    obtain ⟨co, hco, -, hwrite⟩ := history_call.mp hca
    obtain ⟨hop, hc⟩ := Coordinator.call_eq_write.mp hwrite
    have := hgood.counted.committed ca co hco hc
    rw [hversion hco]
    simp only [Coordinator.stamp, hop]
    omega
  case read_none =>
    intro ca hca
    obtain ⟨co, hco, -, hread⟩ := history_call.mp hca
    obtain ⟨hop, answer, hanswer, hnone⟩ := Coordinator.call_eq_read.mp hread
    rw [hversion hco]
    simp [Coordinator.stamp, hop, hanswer, Option.map_eq_none_iff.mp hnone]
  case read_some =>
    intro ca value hca
    obtain ⟨co, hco, hkey, hread⟩ := history_call.mp hca
    obtain ⟨hop, answer, hanswer, hsome⟩ := Coordinator.call_eq_read.mp hread
    obtain ⟨entry, rfl, rfl⟩ := Option.map_eq_some_iff.mp hsome
    obtain ⟨cp, put, hput, hc, hkeyPut, hopPut, hversionPut⟩ :=
      hgood.sourced.answered ca co entry hco hanswer
    refine ⟨cp, history_call.mpr ⟨put, hput, hkeyPut.trans hkey,
      Coordinator.call_eq_write.mpr ⟨hopPut, hc⟩⟩, ?_⟩
    rw [hversion hput, hversion hco]
    simp [Coordinator.stamp, hop, hopPut, hanswer, hversionPut]

theorem Chronicle.atomic (h : Chronicle config state length) (key : Key) :
    (history state length key).Linearizable := by
  obtain ⟨version, start, hversioned⟩ := h.exists_version key
  exact hversioned.order

end Order

/-- In every agreed run from empty stores, each key is an atomic register for the clients. -/
theorem linearizable (hstart : state 0 = initial fun _ _ => none)
    (hpath : Transition.Path (step (settings n readQuorum writeQuorum)) Agreed length state)
    (key : Key) : (history state length key).Linearizable :=
  (Chronicle.of_runs hstart fun _ _ => hpath.run).atomic key

/-- A put of one replica is acknowledged before a get of the other begins. -/
theorem linearizable_answered : ∃ (length : ℕ) (state : ℕ → Cluster 2 Text Text) (value : Text),
    Transition.Path (step (settings 2 2 2)) Agreed length state ∧
      (history state length ['k']).call (0, 0) = some (.write value) ∧
      (history state length ['k']).call (1, 0) = some (.read (some value)) ∧
      (history state length ['k']).before (0, 0) (1, 0) ∧
      (history state length ['k']).Linearizable := by
  obtain ⟨s, hexec⟩ : ∃ s, Transition.exec (step (settings 2 2 2)) calm (acknowledgedEvents 0 1)
    (initial fun _ _ => none) = some s := ⟨_, rfl⟩
  obtain ⟨t, hexec'⟩ : ∃ t, Transition.exec (step (settings 2 2 2)) calm (answeredEvents 0 1)
      s = some t := by
    cases hexec
    exact ⟨_, rfl⟩
  have hrun := Transition.run_of_exec (fun _ _ => agreed_of_calm) hexec
  have hrun' := Transition.run_of_exec (fun _ _ => agreed_of_calm) hexec'
  obtain ⟨i, before, hstart, hmiddle, hpath⟩ := hrun.exists_path
  obtain ⟨length, state, hi, hsame, hend, hpath⟩ := hpath.extend hrun' hmiddle
  have hmiddle' : state i = s := (hsame i le_rfl).trans hmiddle
  have hstart' : state 0 = initial fun _ _ => none := (hsame 0 i.zero_le).trans hstart
  obtain ⟨co, co', put, hco, hco', hput, hkey, hreplied, hfresh, hkey', hcall, hcall'⟩ :
      ∃ co co' put, t.attempt (0, 0) = some co ∧ t.attempt (1, 0) = some co' ∧
        s.attempt (0, 0) = some put ∧ co.key = ['k'] ∧ put.replied ∧
        s.attempt (1, 0) = none ∧ co'.key = ['k'] ∧ co.call = some (.write ['v']) ∧
        co'.call = some (.read (some ['v'])) := by
    cases hexec
    cases hexec'
    exact ⟨_, _, _, rfl, rfl, rfl, rfl, rfl, rfl, rfl, rfl, rfl⟩
  refine ⟨length, state, ['v'], hpath, ?_, ?_, ?_, linearizable hstart' hpath ['k']⟩
  · exact history_call.mpr ⟨co, by rw [hend, hco], hkey, hcall⟩
  · exact history_call.mpr ⟨co', by rw [hend, hco'], hkey', hcall'⟩
  · exact ⟨i, hi, ⟨put, by rw [hmiddle', hput], hreplied⟩, by rw [hmiddle', hfresh]⟩

end History

end Cluster
end LeaderlessDatastore
