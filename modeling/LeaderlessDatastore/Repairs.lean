import LeaderlessDatastore.Growth
import LeaderlessDatastore.Quiescence

/-!
# What the `REPAIR`s repair

A `get` that has found a value leaves an entry at every member of its quorum, because each of
them handles its `REPAIR`.  But `tryUpdate` writes only where there is no entry, so what a
replica stores under a key changes with the puts of that key and with nothing else.
-/

namespace LeaderlessDatastore

open Function Occupancy

namespace Cluster

variable {n : ℕ} {Key Value : Type} {config : Fin n → Settings (Fin n)}
  {s t : Cluster n Key Value} {e : Event n Key Value} {ca : Fin n × ℕ} {key : Key} {x : Fin n}
  {co co' : Coordinator (Fin n) Key Value} {entry : Value × ℤ}

/-- `commit` of the key is called at `x`, by the coordinator of a put that has only votes for it
or by a participant that has not been aborted. -/
def Commits (x : Fin n) (key : Key) (s : Cluster n Key Value) : Event n Key Value → Prop
  | .run c action => c = x ∧ ∃ co, s.attempt (c, action.of) = some co ∧ co.key = key ∧
      co.pc = .exchange ∧ co.op ≠ .get ∧ co.abort = false
  | .proceed ℓ => ℓ.peer = x ∧ ∃ p, s.handler ℓ = .decided p ∧ p.key = key ∧ p.abort = false
  | _ => False

variable [DecidableEq Key] [Inhabited Value]

/-! ## Entries stay -/

/-- What an event writes to the entries of a replica: nothing, a commit, or an entry where there
is none. -/
theorem Change.store_cases (h : Change config s e t) (x : Fin n) :
    (t.datastore x).datastore = (s.datastore x).datastore ∨
    (∃ key value version, Commits x key s e ∧
      (t.datastore x).datastore = ((s.datastore x).commit key value version).datastore) ∨
    ∃ key value version,
      (t.datastore x).datastore = ((s.datastore x).tryUpdate key value version).datastore := by
  have updates : ∀ {y ds}, t.datastore = update s.datastore y ds →
      (x = y → ds.datastore = (s.datastore x).datastore ∨
        (∃ key value version, Commits x key s e ∧
          ds.datastore = ((s.datastore x).commit key value version).datastore) ∨
        ∃ key value version,
          ds.datastore = ((s.datastore x).tryUpdate key value version).datastore) →
      (t.datastore x).datastore = (s.datastore x).datastore ∨
      (∃ key value version, Commits x key s e ∧
        (t.datastore x).datastore = ((s.datastore x).commit key value version).datastore) ∨
      ∃ key value version,
        (t.datastore x).datastore =
          ((s.datastore x).tryUpdate key value version).datastore := by
    intro y ds ht hds
    by_cases hx : x = y
    · subst hx
      rw [ht, update_self]
      exact hds rfl
    · rw [ht, update_of_ne hx]
      exact .inl rfl
  cases h with
  | request => exact .inl (by rw [datastore_spawn])
  | retry =>
    exact updates ((datastore_spawn ..).trans (datastore_move ..)) fun hx => .inl (hx ▸ rfl)
  | @move c action co co' coordinators datastore current step =>
    refine updates (datastore_move ..) fun hx => ?_
    subst hx
    cases step with
    | lock pc_eq op_eq prepared => exact .inl (DatastoreManager.prepare_eq_some prepared).2.1
    | @commit value pc_eq joined op_eq counted unanimous =>
      exact .inr (.inl ⟨co.key, value, co.version + 1,
        ⟨rfl, co, current, rfl, pc_eq, by simp [op_eq], unanimous⟩, rfl⟩)
    | release pc_eq aborted => exact .inl (DatastoreManager.abort_eq_some aborted).1
    | @repair entry pc_eq latest => exact .inr (.inr ⟨co.key, entry.1, entry.2, rfl⟩)
    | _ => exact .inl rfl
  | send => exact updates (datastore_move ..) fun hx => .inl (hx ▸ rfl)
  | reply => exact updates (datastore_move ..) fun hx => .inl (hx ▸ rfl)
  | @deliver ℓ m rest h datastore down_eq step =>
    refine updates (datastore_handle ..) fun hx => ?_
    subst hx
    generalize s.handler ℓ = hd at step
    cases step with
    | @repair key value timestamp => exact .inr (.inr ⟨key, value, timestamp, rfl⟩)
    | _ => exact .inl rfl
  | stale => exact .inl (congrArg DatastoreManager.datastore (congrFun (datastore_flag ..) x))
  | @proceed ℓ h sent participants datastore step =>
    refine updates (datastore_handle ..) fun hx => ?_
    subst hx
    generalize hhd : s.handler ℓ = hd at step
    cases step with
    | lock prepared => exact .inl (DatastoreManager.prepare_eq_some prepared).2.1
    | abort flagged aborted => exact .inl (DatastoreManager.abort_eq_some aborted).1
    | @commit p unflagged =>
      exact .inr (.inl ⟨p.key, p.value, p.timestamp, ⟨rfl, p, hhd, rfl, unflagged⟩, rfl⟩)
    | _ => exact .inl rfl
  | hangup => exact updates (datastore_handle ..) fun hx => .inl (hx ▸ rfl)

theorem Change.grows (h : Change config s e t) (x : Fin n) (key : Key) :
    Grows ((s.datastore x).datastore key) ((t.datastore x).datastore key) := by
  rcases h.store_cases x with he | ⟨key', value, version, -, he⟩ | ⟨key', value, version, he⟩
  · exact he ▸ .refl _
  · exact he ▸ DatastoreManager.grows_commit ..
  · exact he ▸ DatastoreManager.grows_tryUpdate ..

theorem Change.stays (h : Change config s e t) (hentry : (s.datastore x).datastore key ≠ none) :
    (t.datastore x).datastore key ≠ none := by
  obtain ⟨entry, hentry⟩ := Option.ne_none_iff_exists'.mp hentry
  have hgrows := h.grows x key
  intro hnone
  rw [hentry, hnone] at hgrows
  exact hgrows

/-- An entry is replaced by a commit of its key only. -/
theorem Change.entry_eq (h : Change config s e t) (hcommit : ¬ Commits x key s e)
    (hentry : (s.datastore x).datastore key = some entry) :
    (t.datastore x).datastore key = some entry := by
  rcases h.store_cases x with he | ⟨key', value, version, hcommits, he⟩ |
    ⟨key', value, version, he⟩ <;> rw [he]
  · exact hentry
  · have hne : key ≠ key' := by
      rintro rfl
      exact hcommit hcommits
    rw [DatastoreManager.commit_of_ne _ hne, hentry]
  · by_cases hkey : key = key'
    · subst hkey
      rw [DatastoreManager.tryUpdate_datastore, update_self, hentry, Option.getD_some]
    · rw [DatastoreManager.tryUpdate_of_ne _ hkey, hentry]

/-- However many gets are answered, an entry stays until a put of the key commits here. -/
theorem entry_of_run (hset : ∀ c, (config c).Ok c) (hs : Inv config s)
    (h : Run config (fun s e => ¬ Commits x key s e) s t)
    (hentry : (s.datastore x).datastore key = some entry) :
    (t.datastore x).datastore key = some entry :=
  hs.relates (R := fun s t => (s.datastore x).datastore key = some entry →
      (t.datastore x).datastore key = some entry) hset (fun _ => id)
    (fun hst htu hentry => htu (hst hentry))
    (fun _ _ _ _ hcommit hchange hentry => hchange.entry_eq hcommit hentry) h hentry

/-! ## A `REPAIR` is handled -/

/-- It is still under way, or the peer has an entry. -/
theorem Change.repair_cases (h : Change config s e t) {ℓ : Link n} {value : Value} {version : ℤ}
    (hm : .repair key value version ∈ s.down ℓ) :
    .repair key value version ∈ t.down ℓ ∨ (t.datastore ℓ.peer).datastore key ≠ none := by
  cases h with
  | @send ℓ' co m current mem unsent message =>
    left
    change .repair key value version ∈ update s.down ℓ' (s.down ℓ' ++ [m]) ℓ
    by_cases hℓ : ℓ = ℓ'
    · subst hℓ
      rw [update_self]
      exact List.mem_append_left _ hm
    · rwa [update_of_ne hℓ]
  | @deliver ℓ' m rest h datastore down_eq step =>
    by_cases hℓ : ℓ = ℓ'
    · subst hℓ
      rw [down_eq] at hm
      rcases List.mem_cons.mp hm with rfl | hm
      · right
        change ((s.handle ℓ h _ datastore).datastore ℓ.peer).datastore key ≠ none
        rw [datastore_handle, update_self]
        generalize s.handler ℓ = hd at step
        cases step
        rw [DatastoreManager.tryUpdate_datastore, update_self]
        exact Option.some_ne_none _
      · left
        change .repair key value version ∈ update s.down ℓ rest ℓ
        rwa [update_self]
    · left
      change .repair key value version ∈ update s.down ℓ' rest ℓ
      rwa [update_of_ne hℓ]
  | @stale ℓ' uid key' rest down_eq idle =>
    left
    change .repair key value version ∈ update s.down ℓ' rest ℓ
    by_cases hℓ : ℓ = ℓ'
    · subst hℓ
      rw [down_eq] at hm
      rw [update_self]
      exact (List.mem_cons.mp hm).resolve_left (by simp)
    · rwa [update_of_ne hℓ]
  | _ => exact .inl hm

/-- Behind the answer of a get: the own `tryUpdate`, and the `REPAIR`s that have been sent. -/
structure Spread (s : Cluster n Key Value) (ca : Fin n × ℕ)
    (co : Coordinator (Fin n) Key Value) : Prop where
  own : co.pc ≠ .repair → (s.datastore ca.1).datastore co.key ≠ none
  peers : ∀ x ∈ co.quorum, co.pc ≠ .repair → (co.pc = .repairing → co.sender x = .finished) →
    (∃ value version, .repair co.key value version ∈ s.down ⟨ca.1, ca.2, x⟩) ∨
      (s.datastore x).datastore co.key ≠ none

def Repaired (s : Cluster n Key Value) : Prop :=
  ∀ ca co entry, s.attempt ca = some co → co.answer = some (some entry) → Spread s ca co

theorem Spread.change (hsp : Spread s ca co) (h : Change config s e t) : Spread t ca co where
  own hpc := h.stays (hsp.own hpc)
  peers x hx hpc hsent := by
    rcases hsp.peers x hx hpc hsent with ⟨value, version, hm⟩ | hentry
    · rcases h.repair_cases hm with hm | hentry
      · exact .inl ⟨value, version, hm⟩
      · exact .inr hentry
    · exact .inr (h.stays hentry)

omit [DecidableEq Key] [Inhabited Value] in
/-- Until the coordinator of an answered get begins to repair, nothing is claimed. -/
theorem Spread.of_repair (hpc : co.pc = .repair) : Spread s ca co where
  own hne := absurd hpc hne
  peers _ _ hne := absurd hpc hne

theorem Spread.step {coordinators : Key → Option ℕ}
    {datastore : DatastoreManager Key Value} (hok : co.Ok (config ca.1) ca.1)
    (hanswer : co'.answer = some (some entry))
    (hstep : CoordinatorStep (config ca.1) (s.replica ca.1) ca.2 co co' coordinators datastore)
    (hsp : co.answer = some (some entry) →
      Spread (s.move ca co' coordinators datastore) ca co) :
    Spread (s.move ca co' coordinators datastore) ca co' := by
  have hpc := hok.answer_pc
  cases hstep with
  | answer pc_eq joined op_eq counted latest => exact .of_repair rfl
  | @repair found pc_eq latest =>
    refine ⟨fun _ => ?_, fun x hx _ hsent => ?_⟩
    · rw [datastore_move, update_self]
      change (update _ co.key _ : Key → Option (Value × ℤ)) co.key ≠ none
      rw [update_self]
      exact Option.some_ne_none _
    · cases hsent rfl
  | endRepair pc_eq joined =>
    obtain ⟨hown, hpeers⟩ := hsp hanswer
    exact ⟨fun _ => hown (by simp [pc_eq]), fun x hx _ _ =>
      hpeers x hx (by simp [pc_eq]) fun _ => Coordinator.sender_eq_finished joined hx⟩
  | leave pc_eq =>
    obtain ⟨hown, hpeers⟩ := hsp hanswer
    exact ⟨fun _ => hown (by simp [pc_eq]), fun x hx _ _ =>
      hpeers x hx (by simp [pc_eq]) fun hpc => by simp [pc_eq] at hpc⟩
  | _ => simp_all

omit [DecidableEq Key] [Inhabited Value] in
theorem Spread.sent {y : Fin n} {m : Message Key Value}
    (hpcs : co.pc = .repair ∨ co.pc = .repairing ∨ co.pc = .finish true ∨ co.pc = .succeeded)
    (hm : co.message (Coordinator.getLatestValue co.values) = some m)
    (hdown : m ∈ s.down ⟨ca.1, ca.2, y⟩) (hsp : Spread s ca co) :
    Spread s ca (co.sentTo y) where
  own hpc := hsp.own hpc
  peers x hx hpc hsent := by
    by_cases hxy : x = y
    · subst hxy
      left
      rcases hpcs with hrepair | hrepairing | hfinish | hsucceeded
      · exact absurd hrepair hpc
      · cases hlatest : Coordinator.getLatestValue co.values with
        | none => simp [Coordinator.message, hrepairing, hlatest] at hm
        | some found =>
          simp only [Coordinator.message, hrepairing, hlatest, Option.some.injEq] at hm
          exact ⟨found.1, found.2, hm ▸ hdown⟩
      · simp [Coordinator.message, hfinish] at hm
      · simp [Coordinator.message, hsucceeded] at hm
    · refine hsp.peers x hx hpc fun hrepairing => ?_
      have hfinished := hsent hrepairing
      change update co.sender y _ x = .finished at hfinished
      rwa [update_of_ne hxy] at hfinished

theorem Repaired.change (hs : Inv config s) (hrep : Repaired s) (h : Change config s e t) :
    Repaired t := by
  intro ca co' entry hco' hanswer
  have hchange := h
  have same : s.attempt ca = some co' → Spread t ca co' := fun hco =>
    (hrep ca co' entry hco hanswer).change h
  have attempts : ∀ {cb co₁}, t.attempt = update s.attempt cb (some co₁) →
      (ca = cb → co₁ = co' → Spread t ca co') → Spread t ca co' := by
    intro cb co₁ ha hnew
    rw [ha] at hco'
    rcases update_eq_some.mp hco' with ⟨hcb, hco₁⟩ | ⟨-, hold⟩
    · exact hnew hcb (Option.some.inj hco₁)
    · exact same hold
  cases h with
  | request => exact attempts (attempt_spawn ..) (by rintro - rfl; cases hanswer)
  | @retry c a b co current pc_eq fresh =>
    have hnone : co.answer = none := by
      by_contra hne
      have hpc := (hs.attempt_ok _ co current).answer_pc hne
      simp [pc_eq] at hpc
    rw [attempt_spawn, attempt_move, update_eq_some, update_eq_some] at hco'
    rcases hco' with ⟨-, ⟨⟩⟩ | ⟨-, ⟨-, ⟨⟩⟩ | ⟨-, hold⟩⟩
    · cases hnone.symm.trans hanswer
    · cases hnone.symm.trans hanswer
    · exact same hold
  | @move c action co co₁ coordinators datastore current step =>
    refine attempts (attempt_move ..) ?_
    rintro rfl rfl
    exact Spread.step (hs.attempt_ok _ co current) hanswer step fun hold =>
      (hrep _ co entry current hold).change hchange
  | @send ℓ co m current mem unsent message =>
    refine attempts (attempt_move ..) ?_
    rintro rfl rfl
    have hanswer' : co.answer = some (some entry) := hanswer
    obtain ⟨-, hpcs⟩ := (hs.attempt_ok _ co current).answer_pc (by simp [hanswer'])
    refine Spread.sent hpcs message ?_ ((hrep _ co entry current hanswer').change hchange)
    change m ∈ update s.down ℓ (s.down ℓ ++ [m]) ℓ
    rw [update_self]
    exact List.mem_append_right _ List.mem_cons_self
  | @reply ℓ co m rest current pc_eq mem waiting up_eq =>
    refine attempts (attempt_move ..) ?_
    rintro rfl rfl
    obtain ⟨-, -, -, -, -, -, hold⟩ := co.heardFrom_same ℓ.peer m
    have hpc := (hs.attempt_ok _ co current).answer_pc (by rw [← hold, hanswer]; simp)
    simp [pc_eq] at hpc
  | deliver | proceed => exact same ((congrFun (attempt_handle ..) _).symm.trans hco')
  | hangup => exact same ((congrFun (attempt_handle ..) _).symm.trans hco')
  | stale => exact same ((congrFun (attempt_flag ..) _).symm.trans hco')

/-- A get that has returned a value, and whose `REPAIR`s have been received, has left an entry at
itself and at every replica it has asked.  That need not be the value it has returned: an entry
that was there is kept, by all gets to come as well, until a put of the key commits at the
replica. -/
theorem repairs_fill_gaps {readQuorum writeQuorum : ℤ}
    {contents : Fin n → Key → Option (Value × ℤ)}
    {allowed : Cluster n Key Value → Event n Key Value → Prop}
    (h : Run (settings n readQuorum writeQuorum) allowed (initial contents) s)
    (hco : s.attempt ca = some co) (hanswer : co.answer = some (some entry))
    (hpc : co.pc = .succeeded) (hreceived : ∀ x, s.down ⟨ca.1, ca.2, x⟩ = [])
    (hx : x ∈ ca.1 :: co.quorum) :
    ∃ found, (s.datastore x).datastore co.key = some found ∧
      ∀ t, Run (settings n readQuorum writeQuorum) (fun s e => ¬ Commits x co.key s e) s t →
        (t.datastore x).datastore co.key = some found := by
  obtain ⟨hinv, hrep⟩ := h.preserves (P := fun s => Inv (settings n readQuorum writeQuorum) s ∧
      Repaired s) (fun _ _ _ hs _ hstep =>
    have hchange := step_cases hs.1 hstep
    ⟨hs.1.change settings_ok hchange, hs.2.change hs.1 hchange⟩)
    ⟨.of_initial _, fun ca co entry hco => by cases hco⟩
  obtain ⟨hown, hpeers⟩ := hrep ca co entry hco hanswer
  have hentry : (s.datastore x).datastore co.key ≠ none := by
    rcases List.mem_cons.mp hx with rfl | hx
    · exact hown (by simp [hpc])
    · refine (hpeers x hx (by simp [hpc]) (by simp [hpc])).resolve_left ?_
      rintro ⟨value, version, hm⟩
      rw [hreceived x] at hm
      exact List.not_mem_nil hm
  obtain ⟨found, hfound⟩ := Option.ne_none_iff_exists'.mp hentry
  exact ⟨found, hfound, fun t hrun => entry_of_run settings_ok hinv hrun hfound⟩

/-! ## A stale replica -/

/-- The second version of a value at one replica, the first at another, nothing at the third. -/
def staleContents (x : Fin 3) (_ : Text) : Option (Text × ℤ) :=
  match x with
  | 0 => some ("new".toList, 2)
  | 1 => some ("old".toList, 1)
  | 2 => none

/-- Version 2 has been returned and version 1 stays where it was. -/
theorem repairs_fill_gaps_stale : ∃ (s : Cluster 3 Text Text) (co : _),
    s.attempt (0, 0) = some co ∧ co.answer = some (some ("new".toList, 2)) ∧
    (s.datastore 2).datastore ['k'] = some ("new".toList, 2) ∧
    ∀ t, Run (settings 3 3 2) (fun s e => ¬ Commits 1 ['k'] s e) s t →
      (t.datastore 1).datastore ['k'] = some ("old".toList, 1) := by
  -- the first replica answers a get with the help of both others, and repairs them
  obtain ⟨s, hexec⟩ : ∃ s, Transition.exec (step (settings 3 3 2)) (fun _ _ => true)
    ([.run 0 (.request 0 .get ['k'] 0), .run 0 (.addCoordinator 0), .run 0 (.begin 0),
      .run 0 (.connect 0 (fun _ => true) [1, 2])] ++ askEvents 0 1 0 2 ++ askEvents 0 2 0 2 ++
    [.reply ⟨0, 0, 1⟩, .reply ⟨0, 0, 2⟩, .run 0 (.decide 0), .run 0 (.repair 0),
      .send ⟨0, 0, 1⟩, .send ⟨0, 0, 2⟩, .run 0 (.endRepair 0), .run 0 (.removeCoordinator 0),
      .deliver ⟨0, 0, 1⟩, .deliver ⟨0, 0, 2⟩]) (initial staleContents) = some s := ⟨_, rfl⟩
  have hrun : Run (settings 3 3 2) (fun _ _ => True) (initial staleContents) s :=
    Transition.run_of_exec (fun _ _ _ => trivial) hexec
  obtain ⟨co, hco, hanswer, hpc, hkey, hmem, hnew, hold, hdown⟩ : ∃ co,
      s.attempt (0, 0) = some co ∧ co.answer = some (some ("new".toList, 2)) ∧
      co.pc = .succeeded ∧ co.key = ['k'] ∧ 1 ∈ co.quorum ∧
      (s.datastore 2).datastore ['k'] = some ("new".toList, 2) ∧
      (s.datastore 1).datastore ['k'] = some ("old".toList, 1) ∧
      ∀ x, s.down ⟨0, 0, x⟩ = [] := by
    cases hexec
    refine ⟨_, rfl, rfl, rfl, rfl, by decide, rfl, rfl, fun x => ?_⟩
    fin_cases x <;> rfl
  obtain ⟨found, hfound, hstays⟩ :=
    repairs_fill_gaps hrun hco hanswer hpc hdown (List.mem_cons_of_mem _ hmem)
  rw [hkey] at hfound hstays
  obtain rfl := Option.some.inj (hfound.symm.trans hold)
  exact ⟨s, co, hco, hanswer, hnew, hstays⟩

end Cluster
end LeaderlessDatastore
