import LeaderlessDatastore.Quiescence

/-!
# The puts of a key are numbered

A put that commits has read, at the members of its quorum, a version that another put
has committed, and adds one.  So the versions of the committed puts of a key are
`1`, …, `m`, and where the cluster is at rest a whole write quorum holds the last one.
-/

namespace LeaderlessDatastore

open Function

namespace Cluster

variable {n : ℕ} {Key Value : Type} {config : Fin n → Settings (Fin n)}
  {s t u : Cluster n Key Value} {e : Event n Key Value} {ca : Fin n × ℕ} {key : Key}
  {co : Coordinator (Fin n) Key Value} {version : ℤ}

/-- Nothing was written before this version, or a committed put wrote it. -/
def Known (s : Cluster n Key Value) (key : Key) (version : ℤ) : Prop :=
  version = 0 ∨ ∃ value, FromPut s key (value, version)

theorem Known.later (h : Known s key version) (hl : Later s t) : Known t key version :=
  h.imp_right fun ⟨value, hput⟩ => ⟨value, hput.later hl⟩

theorem Sourced.known (hs : Sourced s) (x : Fin n) (key : Key) :
    Known s key ((s.datastore x).storedVersion key) := by
  unfold DatastoreManager.storedVersion
  split
  · next value version hentry => exact .inr ⟨value, hs.stored x key _ hentry⟩
  · exact .inl rfl

/-- The versions that puts go by are known ones. -/
structure Numbered (s : Cluster n Key Value) : Prop where
  begun : ∀ ca co, s.attempt ca = some co → co.op ≠ .get →
    co.pc = .connect ∨ co.pc = .exchange → Known s co.key co.version
  voting : ∀ ℓ p, s.handler ℓ = .voting p → Known s p.key p.timestamp
  voted : ∀ ℓ uid key timestamp, .voteCommit uid key timestamp ∈ s.up ℓ → Known s key timestamp
  committed : ∀ ca co, s.attempt ca = some co → co.committed → Known s co.key (co.version - 1)

theorem Numbered.of_initial (contents : Fin n → Key → Option (Value × ℤ)) :
    Numbered (initial contents : Cluster n Key Value) where
  begun ca co h := by cases h
  voting ℓ p h := by cases h
  voted ℓ uid key timestamp h := by cases h
  committed ca co h := by cases h

variable [DecidableEq Key] [Inhabited Value]

theorem Numbered.change (hs : Inv config s) (hsrc : Sourced s) (hnum : Numbered s)
    (h : Change config s e t) : Numbered t := by
  have hlater := hs.later_of_change h
  constructor
  case begun =>
    intro ca co' hco' hop hpc
    cases h.evolves hco' with
    | same current => exact (hnum.begun ca co' current hop hpc).later hlater
    | request | retry => simp [Coordinator.nextAttempt] at hpc
    | @step co _ coordinators datastore current step =>
      have hold := hnum.begun ca co current
      cases step with
      | @lock value datastore version pc_eq op_eq prepared =>
        have hversion := (DatastoreManager.prepare_eq_some prepared).2.2.1
        change Known t co.key version
        rw [hversion]
        exact (hsrc.known ca.1 co.key).later hlater
      | connected pc_eq perm => exact (hold hop (.inl pc_eq)).later hlater
      | _ => simp_all
    | @sent co x m current => exact (hnum.begun ca co current hop hpc).later hlater
    | @heard co x m rest current pc_eq mem waiting up_eq =>
      obtain ⟨hop', hkey', -⟩ := co.heardFrom_same x m
      rw [hkey']
      have hold := (hnum.begun ca co current (hop' ▸ hop) (.inr pc_eq)).later hlater
      have hphase : co.Phase x (s.handler ⟨ca.1, ca.2, x⟩) (s.down ⟨ca.1, ca.2, x⟩)
          (m :: rest) := up_eq ▸ hs.phase (ℓ := ⟨ca.1, ca.2, x⟩) current
      have hanswers := hphase.answers pc_eq mem
      unfold Coordinator.heardFrom Coordinator.hear
      split
      · next uid key timestamp =>
        obtain rfl : key = co.key := hanswers
        have hvoted := hnum.voted ⟨ca.1, ca.2, x⟩ uid co.key timestamp (by simp [up_eq])
        dsimp only
        split_ifs
        · exact hvoted.later hlater
        · exact hold
      all_goals exact hold
  case voting =>
    intro ℓ p hh
    have hturn := h.turns ℓ
    rw [hh] at hturn
    generalize hnew : Handler.voting p = hd' at hturn
    cases hturn with
    | same => exact (hnum.voting ℓ p hnew.symm).later hlater
    | @flag uid =>
      cases hhd : s.handler ℓ with
      | voting q =>
        have hold := (hnum.voting ℓ q hhd).later hlater
        rw [hhd] at hnew
        obtain rfl := Handler.voting.inj hnew
        dsimp only
        split_ifs <;> exact hold
      | _ => simp [hhd, Handler.flag, Handler.mapParticipant] at hnew
    | deliver down_eq step =>
      subst hnew
      generalize s.handler ℓ = hd at step
      cases step
    | proceed step =>
      subst hnew
      generalize s.handler ℓ = hd at step
      cases step with
      | @lock q datastore timestamp prepared =>
        have hversion := (DatastoreManager.prepare_eq_some prepared).2.2.1
        change Known t q.key timestamp
        rw [hversion]
        exact (hsrc.known ℓ.peer q.key).later hlater
    | hangup => cases hnew
  case voted =>
    intro ℓ uid key timestamp hm
    rcases h.mem_up hm with hold | ⟨hd, participants, datastore, step⟩
    · exact (hnum.voted ℓ uid key timestamp hold).later hlater
    · generalize hhd : s.handler ℓ = hd₀ at step
      cases step with
      | vote => exact (hnum.voting ℓ _ hhd).later hlater
  case committed =>
    intro ca co' hco' hc
    rcases h.newly_committed hs hco' hc with ⟨co, hco, hc₀⟩ | hnew
    · obtain ⟨co₁, hco₁, hl⟩ := hlater ca co hco
      obtain rfl := Option.some.inj (hco₁.symm.trans hco')
      rw [hl.key_eq, (hl.committed hc₀).2.1]
      exact (hnum.committed ca co hco hc₀).later hlater
    · obtain ⟨window, op_eq, -⟩ := hnew
      rename_i co value _ _
      have hbegun := hnum.begun ca co window.current (by simp [op_eq]) (.inr window.pc_eq)
      simpa using hbegun.later hlater

theorem Numbered.run {readQuorum writeQuorum : ℤ}
    (h : Run (settings n readQuorum writeQuorum) Agreed (initial fun _ _ => none) s) :
    Good (settings n readQuorum writeQuorum) s ∧ Numbered s :=
  h.preserves (P := fun s => Good (settings n readQuorum writeQuorum) s ∧ Numbered s)
    (fun _ _ _ hs hagreed hstep =>
      have hchange := step_cases hs.1.inv hstep
      ⟨hs.1.change settings_ok
        (fun c => (settings_quorums readQuorum writeQuorum c).majority) hagreed hchange,
        hs.2.change hs.1.inv hs.1.sourced hchange⟩)
    ⟨.of_initial, .of_initial _⟩

/-! ## All versions up to the last -/

/-- The puts of the key that have committed. -/
def committedPuts (s : Cluster n Key Value) (key : Key) : Set (Fin n × ℕ) :=
  {ca | ∃ co, s.attempt ca = some co ∧ co.committed ∧ co.key = key}

def versionOf (s : Cluster n Key Value) (ca : Fin n × ℕ) : ℤ :=
  ((s.attempt ca).map Coordinator.version).getD 0

omit [DecidableEq Key] [Inhabited Value] in
theorem versionOf_eq (hco : s.attempt ca = some co) : versionOf s ca = co.version := by
  simp [versionOf, hco]

omit [DecidableEq Key] [Inhabited Value] in
theorem fromPut_iff {value : Value} : FromPut s key (value, version) ↔
    ∃ ca ∈ s.committedPuts key, ∃ co, s.attempt ca = some co ∧ co.op = .put value ∧
      versionOf s ca = version := by
  constructor
  · rintro ⟨ca, co, hco, hc, hkey, hop, hversion⟩
    exact ⟨ca, ⟨co, hco, hc, hkey⟩, co, hco, hop, (versionOf_eq hco).trans hversion⟩
  · rintro ⟨ca, ⟨co, hco, hc, hkey⟩, co', hco', hop, hversion⟩
    obtain rfl := Option.some.inj (hco.symm.trans hco')
    exact ⟨ca, co, hco, hc, hkey, hop, (versionOf_eq hco).symm.trans hversion⟩

omit [DecidableEq Key] [Inhabited Value] in
/-- Below the version of a put is that of another one. -/
theorem Numbered.below (hnum : Numbered s) (ca : Fin n × ℕ)
    (hca : ca ∈ s.committedPuts key) (k : ℕ) (hk : (k : ℤ) < versionOf s ca) :
    ∃ cb ∈ s.committedPuts key, versionOf s cb = versionOf s ca - k := by
  induction k with
  | zero => exact ⟨ca, hca, by simp⟩
  | succ k ih =>
    obtain ⟨cb, ⟨co, hco, hc, hkey⟩, hversion⟩ := ih (by push_cast at hk; omega)
    rcases hnum.committed cb co hco hc with hfirst | ⟨value, hput⟩
    · rw [versionOf_eq hco] at hversion
      push_cast at hk
      omega
    · obtain ⟨cc, hcc, -, -, -, hversion'⟩ := fromPut_iff.mp hput
      rw [hkey] at hcc
      refine ⟨cc, hcc, ?_⟩
      rw [hversion', ← versionOf_eq hco, hversion]
      push_cast
      ring

variable {readQuorum writeQuorum : ℤ}

/-- In every agreed run from empty stores the committed puts of a key are numbered from one,
without a gap and without a number given twice. -/
theorem committed_puts_numbered
    (h : Run (settings n readQuorum writeQuorum) Agreed (initial fun _ _ => none) s) (key : Key) :
    ∃ m : ℕ, Set.BijOn (versionOf s) (s.committedPuts key) (Set.Icc 1 (m : ℤ)) := by
  obtain ⟨hgood, hnum⟩ := Numbered.run h
  have hinj : Set.InjOn (versionOf s) (s.committedPuts key) := by
    rintro ca ⟨co, hco, hc, hkey⟩ cb ⟨co', hco', hc', hkey'⟩ heq
    rw [versionOf_eq hco, versionOf_eq hco'] at heq
    exact hgood.distinct ca cb co co' hco hco' hc hc' (hkey.trans hkey'.symm) heq
  have hpos : ∀ ca ∈ s.committedPuts key, 1 ≤ versionOf s ca := by
    rintro ca ⟨co, hco, hc, -⟩
    rw [versionOf_eq hco]
    exact hgood.counted.committed ca co hco hc
  have hfinite : (s.committedPuts key).Finite := by
    have hinitial : (initial fun _ _ => none : Cluster n Key Value).started.Finite := by
      simp [started, attempt, initial, Replica.started]
    refine (finite_started_of_run settings_ok (.of_initial _) hinitial h).subset ?_
    rintro ca ⟨co, hco, -⟩
    simp [started, hco]
  rcases Set.eq_empty_or_nonempty (s.committedPuts key) with hempty | hne
  · exact ⟨0, by simp [hempty]⟩
  · obtain ⟨ca, hca, hmax⟩ := Set.exists_max_image _ (versionOf s) hfinite hne
    have hm : ((versionOf s ca).toNat : ℤ) = versionOf s ca :=
      Int.toNat_of_nonneg (by have := hpos ca hca; omega)
    refine ⟨(versionOf s ca).toNat, fun cb hcb => ⟨hpos cb hcb, hm ▸ hmax cb hcb⟩, hinj, ?_⟩
    rintro v ⟨hv, hle⟩
    rw [hm] at hle
    obtain ⟨cb, hcb, hversion⟩ := hnum.below ca hca (versionOf s ca - v).toNat (by omega)
    exact ⟨cb, hcb, by omega⟩

/-- A put of one replica is acknowledged. -/
theorem committed_puts_numbered_acknowledged : ∃ (s : Cluster 2 Text Text) (m : ℕ),
    (0, 0) ∈ s.committedPuts ['k'] ∧
      Set.BijOn (versionOf s) (s.committedPuts ['k']) (Set.Icc 1 (m : ℤ)) := by
  obtain ⟨s, hexec⟩ : ∃ s, Transition.exec (step (settings 2 2 2)) calm (acknowledgedEvents 0 1)
    (initial fun _ _ => none) = some s := ⟨_, rfl⟩
  obtain ⟨m, hnumbered⟩ := committed_puts_numbered
    (Transition.run_of_exec (fun _ _ => agreed_of_calm) hexec) ['k']
  refine ⟨s, m, ?_, hnumbered⟩
  cases hexec
  exact ⟨_, rfl, rfl, rfl⟩

/-! ## The last put -/

/-- Where the cluster rests, the value of the last committed put is stored with its version at
a whole write quorum, so that every read quorum finds it. -/
theorem last_put_stored
    (h : Run (settings n readQuorum writeQuorum) Agreed (initial fun _ _ => none) s)
    (hquiet : Quiet s) {key : Key} (hca : ca ∈ s.committedPuts key)
    (hlast : ∀ cb ∈ s.committedPuts key, versionOf s cb ≤ versionOf s ca) :
    ∃ (co : Coordinator (Fin n) Key Value) (value : Value) (members : List (Fin n)),
      s.attempt ca = some co ∧ co.op = .put value ∧ members.Nodup ∧
      (members.length : ℤ) = (settings n readQuorum writeQuorum ca.1).writeQuorum ∧
      (∀ x ∈ members, (s.datastore x).datastore key = some (value, versionOf s ca)) ∧
      ∀ readers : List (Fin n), readers.Nodup →
        (readers.length : ℤ) = (settings n readQuorum writeQuorum ca.1).readQuorum →
        ∃ x ∈ readers, (s.datastore x).datastore key = some (value, versionOf s ca) := by
  obtain ⟨hgood, -⟩ := Numbered.run h
  obtain ⟨co, hco, hc, rfl⟩ := hca
  have hok := hgood.inv.attempt_ok ca co hco
  obtain ⟨value, hop⟩ : ∃ value, co.op = .put value := by
    unfold Coordinator.committed at hc
    split at hc <;> simp_all
  have hlength := (hok.commit_ok hc).2
  have hstored : ∀ x ∈ ca.1 :: co.quorum,
      (s.datastore x).datastore co.key = some (value, versionOf s ca) := by
    intro x hx
    have hle := hgood.available hco hc x hx (hquiet.unlocked x co.key)
    have hpos := hgood.counted.committed ca co hco hc
    unfold DatastoreManager.storedVersion at hle
    split at hle
    · next stored version hentry =>
      -- what is stored was committed too, and no put is newer
      obtain ⟨cb, hcb, co', hco', hop', hversion⟩ :=
        fromPut_iff.mp (hgood.sourced.stored x _ _ hentry)
      have hge := hlast cb hcb
      obtain ⟨co'', hco'', hc', hkey'⟩ := hcb
      obtain rfl := Option.some.inj (hco''.symm.trans hco')
      rw [versionOf_eq hco] at hge ⊢
      rw [versionOf_eq hco'] at hversion hge
      obtain rfl := hgood.distinct cb ca co'' co hco' hco hc' hc hkey' (by omega)
      obtain rfl := Option.some.inj (hco'.symm.trans hco)
      obtain rfl := Operation.put.inj (hop'.symm.trans hop)
      rw [hentry, ← hversion]
    · omega
  refine ⟨co, value, ca.1 :: co.quorum, hco, hop, hok.nodup, hlength, hstored, ?_⟩
  intro readers hnodup hreaders
  have hoverlap := (settings_quorums readQuorum writeQuorum ca.1).overlap
  obtain ⟨x, hx, hx'⟩ := exists_common_member rfl hnodup hok.nodup (by omega)
  exact ⟨x, hx, hstored x hx'⟩

/-- The put has been acknowledged and has left its key, and the other replica has committed. -/
def restedEvents (c x : Fin n) : List (Event n Text Text) :=
  acknowledgedEvents c x ++ [.run c (.removeCoordinator 0), .deliver ⟨c, 0, x⟩,
    .proceed ⟨c, 0, x⟩, .proceed ⟨c, 0, x⟩]

theorem rested_quiet {s : Cluster 2 Text Text}
    (hexec : Transition.exec (step (settings 2 2 2)) calm (restedEvents 0 1)
      (initial fun _ _ => none) = some s) :
    Quiet s ∧ ∀ ca, ca ≠ (0, 0) → s.attempt ca = none := by
  have hother : ∀ ca, ca ≠ (0, 0) → s.attempt ca = none := by
    rintro ⟨c, a⟩ hne
    cases hexec
    fin_cases c
    · cases a with
      | zero => exact absurd rfl hne
      | succ a => rfl
    · rfl
  have hrun := Transition.run_of_exec (fun _ _ => agreed_of_calm) hexec
  refine ⟨(Numbered.run hrun).1.inv.quiet (fun ca co hco => ?_) (fun ⟨c, a, x⟩ => ?_)
    fun ⟨c, a, x⟩ => ?_, hother⟩
  · obtain rfl : ca = (0, 0) := by
      by_contra hne
      simp [hother ca hne] at hco
    cases hexec
    cases hco
    exact .inl rfl
  · cases hexec
    fin_cases c <;> fin_cases x <;> rcases a with _ | a
    all_goals exact .inl rfl
  · cases hexec
    fin_cases c <;> fin_cases x <;> rcases a with _ | a <;> rfl

theorem last_put_stored_rested : ∃ (s : Cluster 2 Text Text) (value : Text),
    Quiet s ∧ ∃ x, (s.datastore x).datastore ['k'] = some (value, versionOf s (0, 0)) := by
  obtain ⟨s, hexec⟩ : ∃ s, Transition.exec (step (settings 2 2 2)) calm (restedEvents 0 1)
    (initial fun _ _ => none) = some s := ⟨_, rfl⟩
  obtain ⟨hquiet, hother⟩ := rested_quiet hexec
  have hrun := Transition.run_of_exec (fun _ _ => agreed_of_calm) hexec
  have hput : (0, 0) ∈ s.committedPuts ['k'] := by
    cases hexec
    exact ⟨_, rfl, rfl, rfl⟩
  have honly : ∀ cb ∈ s.committedPuts ['k'], cb = (0, 0) := by
    rintro cb ⟨co, hco, -⟩
    by_contra hne
    simp [hother cb hne] at hco
  obtain ⟨co, value, members, -, -, -, -, -, hfound⟩ := last_put_stored hrun hquiet hput
    fun cb hcb => by rw [honly cb hcb]
  obtain ⟨x, -, hx⟩ := hfound [0, 1] (by decide) rfl
  exact ⟨s, value, hquiet, x, hx⟩

end Cluster
end LeaderlessDatastore
