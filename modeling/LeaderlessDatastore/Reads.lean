import LeaderlessDatastore.Freshness

/-!
# What a get returns

A get that starts after a put has committed meets it at a member of the put's
quorum.  There the thread that reads waits for the lock of the put or finds at
least its version, so the answer is at least as new.
-/

namespace LeaderlessDatastore

open Function

section Coordinators

variable {Peer Key Value : Type}

/-- The client of the put has its `ACK`. -/
def Coordinator.acknowledged (co : Coordinator Peer Key Value) : Bool :=
  match co.op, co.pc with
  | .put _, .finish true | .put _, .succeeded => true
  | _, _ => false

theorem Coordinator.committed_of_acknowledged {co : Coordinator Peer Key Value}
    (h : co.acknowledged) : co.committed := by
  unfold acknowledged at h
  split at h <;> simp_all [committed]

/-- One of the collected values is at least this new. -/
def Coordinator.Knows (co : Coordinator Peer Key Value) (version : ℤ) : Prop :=
  ∃ entry ∈ co.values, version ≤ entry.2

theorem Coordinator.Knows.heardFrom [DecidableEq Peer] {co : Coordinator Peer Key Value}
    {version : ℤ} (h : co.Knows version) (x : Peer) (m : Message Key Value) :
    (co.heardFrom x m).Knows version := by
  obtain ⟨entry, hentry, hle⟩ := h
  refine ⟨entry, ?_, hle⟩
  unfold Coordinator.heardFrom hear
  split <;> simp [hentry]

end Coordinators

namespace Cluster

variable {n : ℕ} {Key Value : Type} {config : Fin n → Settings (Fin n)}
  {s t u : Cluster n Key Value} {e : Event n Key Value} {key : Key} {version : ℤ}
  {members : List (Fin n)} {cb : Fin n × ℕ}

/-- What the attempt `cb` has read of the key at the given members is at least this new. -/
structure Informed (s : Cluster n Key Value) (key : Key) (version : ℤ) (members : List (Fin n))
    (cb : Fin n × ℕ) : Prop where
  own : ∀ co, s.attempt cb = some co → co.op = .get → co.key = key →
    co.pc = .connect ∨ co.pc = .exchange → cb.1 ∈ members → co.Knows version
  heard : ∀ co x, s.attempt cb = some co → co.op = .get → co.key = key → co.pc = .exchange →
    x ∈ co.quorum → co.sender x = .finished → x ∈ members → co.Knows version
  replying : ∀ x ∈ members, ∀ result, s.handler ⟨cb.1, cb.2, x⟩ = .replying key result →
    version ≤ result.2
  fetched : ∀ x ∈ members, ∀ entry, .fetchedValue key entry ∈ s.up ⟨cb.1, cb.2, x⟩ →
    ∃ found, entry = some found ∧ version ≤ found.2
  answered : ∀ co answer, s.attempt cb = some co → co.key = key → co.answer = some answer →
    ∃ found, answer = some found ∧ version ≤ found.2

/-- Whoever finds the key unlocked at one of the members reads at least this version. -/
def Available (s : Cluster n Key Value) (key : Key) (version : ℤ) (members : List (Fin n)) :
    Prop :=
  ∀ x ∈ members, (s.datastore x).owner2pc key = none → version ≤ (s.datastore x).storedVersion key

theorem Informed.of_fresh (hs : Inv config s) (hfresh : s.attempt cb = none) :
    Informed s key version members cb := by
  have hlink : ∀ x, s.handler ⟨cb.1, cb.2, x⟩ = .idle ∧ s.up ⟨cb.1, cb.2, x⟩ = [] := by
    intro x
    have := hs.link_ok ⟨cb.1, cb.2, x⟩
    rw [show s.attempt (Link.source ⟨cb.1, cb.2, x⟩) = none from hfresh] at this
    exact ⟨this.1, this.2.2⟩
  constructor
  case own => simp [hfresh]
  case heard => simp [hfresh]
  case replying => simp [hlink]
  case fetched => simp [hlink]
  case answered => simp [hfresh]

/-- The get has heard of the version when it has all its answers. -/
theorem Informed.knows (hs : Inv config s) (hnodup : members.Nodup)
    (hoverlap : (n : ℤ) < (config cb.1).readQuorum + members.length)
    (h : Informed s key version members cb) {co : Coordinator (Fin n) Key Value}
    (hco : s.attempt cb = some co) (hop : co.op = .get) (hkey : co.key = key)
    (hpc : co.pc = .exchange) (hcounted : co.replies = (config cb.1).readQuorum) :
    co.Knows version := by
  have hok := hs.attempt_ok cb co hco
  have hsize : co.quorumSize (config cb.1) = (config cb.1).readQuorum := by
    rw [Coordinator.quorumSize, hop]
  obtain ⟨hlength, hfinished⟩ := hok.all_finished hpc (hcounted.trans hsize.symm)
  obtain ⟨x, hx, hx'⟩ := exists_common_member rfl hok.nodup hnodup (by omega)
  rcases List.mem_cons.mp hx with rfl | hx
  · exact h.own co hco hop hkey (.inr hpc) hx'
  · exact h.heard co x hco hop hkey hpc hx (hfinished x hx) hx'

variable [DecidableEq Key] [Inhabited Value]

theorem Informed.change (hs : Inv config s) (hpos : 0 < version) (hnodup : members.Nodup)
    (hoverlap : (n : ℤ) < (config cb.1).readQuorum + members.length)
    (havailable : Available s key version members) (hinf : Informed s key version members cb)
    (h : Change config s e t) : Informed t key version members cb := by
  -- an answer is at least as new as the best of the collected values
  have latest : ∀ {co : Coordinator (Fin n) Key Value}, co.Knows version →
      ∃ found, Coordinator.getLatestValue co.values = some found ∧ version ≤ found.2 := by
    rintro co ⟨entry, hentry, hle⟩
    obtain ⟨found, hfound, hle'⟩ := Coordinator.le_getLatestValue hentry (by omega)
    exact ⟨found, hfound, hle.trans hle'⟩
  constructor
  case own =>
    intro co' hco' hop hkey hpc hmem
    cases h.evolves hco' with
    | same current => exact hinf.own co' current hop hkey hpc hmem
    | request | retry => simp [Coordinator.nextAttempt] at hpc
    | @step co _ coordinators datastore current step =>
      have hold := hinf.own co current
      cases step with
      | @read result pc_eq op_eq got =>
        obtain ⟨hfree, hstored, -⟩ := DatastoreManager.get_eq_some got
        have hle : version ≤ result.2 := by
          rw [hstored, show co.key = key from hkey]
          exact havailable cb.1 hmem (by rw [← hkey]; exact hfree)
        exact ⟨result, by simp [show result.2 ≠ 0 by omega], hle⟩
      | connected pc_eq perm => exact hold hop hkey (.inl pc_eq) hmem
      | _ => simp_all
    | @sent co x m current => exact hinf.own co current hop hkey hpc hmem
    | @heard co x m rest current pc_eq =>
      obtain ⟨hop', hkey', -⟩ := co.heardFrom_same x m
      exact (hinf.own co current (hop' ▸ hop) (hkey' ▸ hkey) (.inr pc_eq) hmem).heardFrom x m
  case heard =>
    intro co' x hco' hop hkey hpc hx hfinished hmem
    cases h.evolves hco' with
    | same current => exact hinf.heard co' x current hop hkey hpc hx hfinished hmem
    | request | retry => simp [Coordinator.nextAttempt] at hpc
    | step current step => cases step <;> simp_all
    | @sent co y m current =>
      have hne : x ≠ y := by
        rintro rfl
        simp [Coordinator.sentTo, show co.pc = .exchange from hpc] at hfinished
      refine hinf.heard co x current hop hkey hpc hx ?_ hmem
      simpa [Coordinator.sentTo, hne] using hfinished
    | @heard co y m rest current pc_eq mem waiting up_eq =>
      obtain ⟨hop', hkey', -, -, hquorum, -⟩ := co.heardFrom_same y m
      rw [hop'] at hop
      rw [hkey'] at hkey
      rw [hquorum] at hx
      by_cases hxy : x = y
      · subst hxy
        have hphase : co.Phase x (s.handler ⟨cb.1, cb.2, x⟩) (s.down ⟨cb.1, cb.2, x⟩)
            (m :: rest) := up_eq ▸ hs.phase (ℓ := ⟨cb.1, cb.2, x⟩) current
        obtain ⟨entry, rfl⟩ := hphase.fetchedValue hop
        obtain ⟨found, rfl, hle⟩ := hinf.fetched x hmem entry (by simp [up_eq, hkey])
        exact ⟨found, by simp [Coordinator.heardFrom, Coordinator.hear], hle⟩
      · have hold : co.sender x = .finished := by
          simpa [Coordinator.heardFrom, hxy] using hfinished
        exact (hinf.heard co x current hop hkey pc_eq hx hold hmem).heardFrom y m
  case replying =>
    intro x hmem result hh
    rcases h.replying hh with hold | hgot
    · exact hinf.replying x hmem result hold
    · obtain ⟨hfree, hstored, -⟩ := DatastoreManager.get_eq_some hgot
      exact hstored ▸ havailable x hmem hfree
  case fetched =>
    intro x hmem entry hm
    rcases h.fetched hm with hold | ⟨result, hh, rfl⟩
    · exact hinf.fetched x hmem entry hold
    · have hle := hinf.replying x hmem result hh
      exact ⟨result, by simp [show result.2 ≠ 0 by omega], hle⟩
  case answered =>
    intro co' answer hco' hkey hanswer
    cases h.evolves hco' with
    | same current => exact hinf.answered co' answer current hkey hanswer
    | request => cases hanswer
    | @retry a co fresh previous pc_eq =>
      have hpc := ((hs.attempt_ok _ co previous).answer_pc (by
        rw [show co.answer = some answer from hanswer]; simp)).2
      simp [pc_eq] at hpc
    | @step co _ coordinators datastore current step =>
      have hold := hinf.answered co answer current
      have hknows := hinf.knows hs hnodup hoverlap current
      cases step with
      | answerNull pc_eq joined op_eq counted none_eq =>
        obtain ⟨found, hfound, -⟩ := latest (hknows op_eq hkey pc_eq counted)
        rw [none_eq] at hfound
        cases hfound
      | @answer entry pc_eq joined op_eq counted latest_eq =>
        obtain ⟨found, hfound, hle⟩ := latest (hknows op_eq hkey pc_eq counted)
        obtain rfl := Option.some.inj (latest_eq.symm.trans hfound)
        exact ⟨entry, (Option.some.inj hanswer).symm, hle⟩
      | _ => exact hold hkey hanswer
    | @sent co x m current => exact hinf.answered co answer current hkey hanswer
    | @heard co x m rest current =>
      obtain ⟨-, hkey', -, -, -, -, hanswer'⟩ := co.heardFrom_same x m
      exact hinf.answered co answer current (hkey' ▸ hkey) (hanswer' ▸ hanswer)

/-! ## Runs -/

/-- Different committed puts of a key have different versions. -/
def Distinct (s : Cluster n Key Value) : Prop :=
  ∀ ca cb co co', s.attempt ca = some co → s.attempt cb = some co' → co.committed →
    co'.committed → co.key = co'.key → co.version = co'.version → ca = cb

/-- What holds in every state of an agreed run from empty stores. -/
structure Good (config : Fin n → Settings (Fin n)) (s : Cluster n Key Value) : Prop where
  inv : Inv config s
  sound : Sound s
  sourced : Sourced s
  counted : Counted s
  shielded : AllShielded s
  distinct : Distinct s

theorem Distinct.change (hquorums : ∀ c, (n : ℤ) < 2 * (config c).writeQuorum)
    (hs : Inv config s) (hshield : AllShielded s) (hdistinct : Distinct s)
    (h : Change config s e t) : Distinct t := by
  -- a put that has just committed has its version to itself
  have fresh : ∀ {ca cb co co'}, Committing config s t ca co → t.attempt cb = some co' →
      co'.committed → co.key = co'.key → co.version = co'.version → ca = cb := by
    intro ca cb co co' hnew hco' hc' hkey hversion
    by_contra hne
    have hold : s.attempt cb = some co' := by
      obtain ⟨-, -, attempt_eq, -⟩ := hnew
      rwa [attempt_eq, update_of_ne (Ne.symm hne)] at hco'
    have := hnew.version_lt hquorums hs hshield hold hc' hkey.symm
    omega
  have later := hs.later_of_change h
  intro ca cb co co' hco hco' hc hc' hkey hversion
  rcases h.newly_committed hs hco hc with ⟨co₁, hco₁, hc₁⟩ | hnew
  · rcases h.newly_committed hs hco' hc' with ⟨co₂, hco₂, hc₂⟩ | hnew'
    · obtain ⟨co₃, hco₃, hl⟩ := later ca co₁ hco₁
      obtain ⟨co₄, hco₄, hl'⟩ := later cb co₂ hco₂
      obtain rfl := Option.some.inj (hco₃.symm.trans hco)
      obtain rfl := Option.some.inj (hco₄.symm.trans hco')
      refine hdistinct ca cb co₁ co₂ hco₁ hco₂ hc₁ hc₂ ?_ ?_
      · rw [← hl.key_eq, ← hl'.key_eq, hkey]
      · rw [← (hl.committed hc₁).2.1, ← (hl'.committed hc₂).2.1, hversion]
    · exact (fresh hnew' hco hc hkey.symm hversion.symm).symm
  · exact fresh hnew hco' hc' hkey hversion

theorem Good.change (hset : ∀ c, (config c).Ok c)
    (hquorums : ∀ c, (n : ℤ) < 2 * (config c).writeQuorum) (hs : Good config s)
    (hagreed : Agreed s e) (h : Change config s e t) : Good config t where
  inv := hs.inv.change hset h
  sound := hs.sound.change hs.inv hagreed h
  sourced := hs.sourced.change hs.inv hs.sound h
  counted := hs.counted.change hs.inv hs.sourced h
  shielded := hs.shielded.change hs.inv hs.sound hs.sourced hs.counted h
  distinct := hs.distinct.change hquorums hs.inv hs.shielded h

omit [DecidableEq Key] [Inhabited Value] in
theorem Good.of_initial : Good config (initial fun _ _ => none : Cluster n Key Value) where
  inv := .of_initial _
  sound := .of_initial _
  sourced := by
    constructor
    case stored => intro x key entry h; cases h
    case collected => intro ca co h; cases h
    case replying => intro ℓ key result h; cases h
    case fetched => intro ℓ key entry h; cases h
    case repairs => intro ℓ key value version h; cases h
    case answered => intro ca co entry h; cases h
  counted := ⟨fun ca co h => (by cases h), fun ca co h => (by cases h)⟩
  shielded ca co h := by cases h
  distinct ca cb co co' h := by cases h

theorem Good.run (hset : ∀ c, (config c).Ok c)
    (hquorums : ∀ c, (n : ℤ) < 2 * (config c).writeQuorum) (hs : Good config s)
    (h : Run config Agreed s t) : Good config t :=
  h.preserves (fun _ _ _ hs hagreed hstep =>
    hs.change hset hquorums hagreed (step_cases hs.inv hstep)) hs

/-- What the put `ca` of `s`, which has committed, means for the attempts that start after
`s`: puts get a higher version, gets return at least its version. -/
structure After (config : Fin n → Settings (Fin n)) (s : Cluster n Key Value) (ca : Fin n × ℕ)
    (co : Coordinator (Fin n) Key Value) (t : Cluster n Key Value) : Prop where
  good : Good config t
  later : Later s t
  above : ∀ cb co', s.attempt cb = none → t.attempt cb = some co' → co'.committed →
    co'.key = co.key → co.version < co'.version
  informed : ∀ cb, s.attempt cb = none → Informed t co.key co.version (ca.1 :: co.quorum) cb

omit [DecidableEq Key] [Inhabited Value] in
/-- The version of a committed put stays available at its quorum. -/
theorem Good.available (hs : Good config s) {ca : Fin n × ℕ}
    {co : Coordinator (Fin n) Key Value} (hco : s.attempt ca = some co)
    (hcommitted : co.committed) :
    Available s co.key co.version (ca.1 :: co.quorum) := fun x hx hfree =>
  (hs.shielded ca co hco hcommitted x hx).le_of_unlocked hs.inv hfree

theorem After.change (hset : ∀ c, (config c).Ok c)
    (hquorums : ∀ c c', ServerConfig.QuorumsOk n (config c).readQuorum (config c').writeQuorum)
    {ca : Fin n × ℕ} {co : Coordinator (Fin n) Key Value} (hco : s.attempt ca = some co)
    (hcommitted : co.committed) (ht : After config s ca co t) (hagreed : Agreed t e)
    (h : Change config t e u) : After config s ca co u := by
  have hmajority := fun c => (hquorums c c).majority
  obtain ⟨co₁, hco₁, hlater⟩ := ht.later ca co hco
  obtain ⟨hc₁, hversion, hquorum⟩ := hlater.committed hcommitted
  have hnext := ht.good.inv.later_of_change h
  constructor
  case good => exact ht.good.change hset hmajority hagreed h
  case later => exact ht.later.trans hnext
  case above =>
    intro cb co' hfresh hco' hc' hkey
    rcases h.newly_committed ht.good.inv hco' hc' with ⟨co₂, hco₂, hc₂⟩ | hnew
    · obtain ⟨co₃, hco₃, hl⟩ := hnext cb co₂ hco₂
      obtain rfl := Option.some.inj (hco₃.symm.trans hco')
      rw [(hl.committed hc₂).2.1]
      exact ht.above cb co₂ hfresh hco₂ hc₂ (hl.key_eq ▸ hkey)
    · rw [← hversion]
      exact hnew.version_lt hmajority ht.good.inv ht.good.shielded hco₁ hc₁
        (hlater.key_eq.trans hkey.symm)
  case informed =>
    intro cb hfresh
    have hok := ht.good.inv.attempt_ok ca co₁ hco₁
    have hlength := (hok.commit_ok hc₁).2
    have hoverlap := (hquorums cb.1 ca.1).overlap
    have hpos := ht.good.counted.committed ca co₁ hco₁ hc₁
    have havailable := ht.good.available hco₁ hc₁
    rw [hlater.key_eq, hversion, hquorum] at havailable
    rw [hquorum] at hlength
    exact (ht.informed cb hfresh).change ht.good.inv (by omega) (hquorum ▸ hok.nodup) (by omega)
      havailable h

theorem After.of_run (hset : ∀ c, (config c).Ok c)
    (hquorums : ∀ c c', ServerConfig.QuorumsOk n (config c).readQuorum (config c').writeQuorum)
    (hs : Good config s) {ca : Fin n × ℕ} {co : Coordinator (Fin n) Key Value}
    (hco : s.attempt ca = some co) (hcommitted : co.committed) (h : Run config Agreed s t) :
    After config s ca co t := by
  refine h.preserves (fun t e u ht hagreed hstep => ht.change hset hquorums hco hcommitted
    hagreed (step_cases ht.good.inv hstep)) ⟨hs, .refl s, ?_, fun cb hfresh => ?_⟩
  · intro cb co' hfresh hco'
    rw [hfresh] at hco'
    cases hco'
  · exact .of_fresh hs.inv hfresh

/-- What clients can rely on for one key, where `t` is later than `s`. -/
structure Consistent (s t : Cluster n Key Value) (key : Key) : Prop where
  distinct : ∀ ca cb co co', t.attempt ca = some co → t.attempt cb = some co' → co.committed →
    co'.committed → co.key = key → co'.key = key → ca ≠ cb → co.version ≠ co'.version
  put_put : ∀ ca cb co co', s.attempt ca = some co → co.acknowledged → co.key = key →
    s.attempt cb = none → t.attempt cb = some co' → co'.committed → co'.key = key →
    co.version < co'.version
  put_get : ∀ ca cb co co' answer, s.attempt ca = some co → co.acknowledged → co.key = key →
    s.attempt cb = none → t.attempt cb = some co' → co'.key = key → co'.answer = some answer →
    ∃ entry, answer = some entry ∧ co.version ≤ entry.2
  get_get : ∀ ca cb co co' first answer, s.attempt ca = some co → co.answer = some (some first) →
    co.key = key → s.attempt cb = none → t.attempt cb = some co' → co'.key = key →
    co'.answer = some answer → ∃ entry, answer = some entry ∧ first.2 ≤ entry.2
  answered : ∀ ca co entry, t.attempt ca = some co → co.key = key →
    co.answer = some (some entry) → FromPut t key entry

/-- In every agreed run from empty stores, what was acknowledged or answered before a request
starts bounds the version that the request writes or returns from below. -/
theorem consistent {readQuorum writeQuorum : ℤ}
    (hs : Run (settings n readQuorum writeQuorum) Agreed (initial fun _ _ => none) s)
    (ht : Run (settings n readQuorum writeQuorum) Agreed s t) (key : Key) : Consistent s t key := by
  have hquorums := fun c _ : Fin n => settings_quorums readQuorum writeQuorum c
  have hmajority := fun c => (hquorums c c).majority
  have hgood := Good.of_initial.run settings_ok hmajority hs
  have hgood' := hgood.run settings_ok hmajority ht
  have after : ∀ ca co, s.attempt ca = some co → co.committed →
      After (settings n readQuorum writeQuorum) s ca co t := fun _ _ hco hc =>
    .of_run settings_ok hquorums hgood hco hc ht
  constructor
  case distinct =>
    intro ca cb co co' hco hco' hc hc' hkey hkey' hne hversion
    exact hne (hgood'.distinct ca cb co co' hco hco' hc hc' (hkey.trans hkey'.symm) hversion)
  case put_put =>
    intro ca cb co co' hco hacked hkey hfresh hco' hc' hkey'
    exact (after ca co hco (Coordinator.committed_of_acknowledged hacked)).above cb co' hfresh
      hco' hc' (hkey'.trans hkey.symm)
  case put_get =>
    intro ca cb co co' answer hco hacked hkey hfresh hco' hkey' hanswer
    have hafter := after ca co hco (Coordinator.committed_of_acknowledged hacked)
    exact (hafter.informed cb hfresh).answered co' answer hco' (hkey'.trans hkey.symm) hanswer
  case get_get =>
    intro ca cb co co' first answer hco hfirst hkey hfresh hco' hkey' hanswer
    -- the first answer was written by a put that had committed by then
    obtain ⟨cp, put, hput, hc, hkeyPut, -, hversion⟩ :=
      hgood.sourced.answered ca co first hco hfirst
    have hinf := (after cp put hput hc).informed cb hfresh
    rw [hkeyPut, hkey, hversion] at hinf
    exact hinf.answered co' answer hco' hkey' hanswer
  case answered =>
    intro ca co entry hco hkey hanswer
    exact hkey ▸ hgood'.sourced.answered ca co entry hco hanswer

/-- A put of replica `c` is acknowledged while `x` has the decision still to handle. -/
def acknowledgedEvents (c x : Fin n) : List (Event n Text Text) :=
  votedEvents c x ++ [.run c (.decide 0), .send ⟨c, 0, x⟩, .run c (.acknowledge 0)]

/-- Then `x` commits and answers a get of its own. -/
def answeredEvents (c x : Fin n) : List (Event n Text Text) :=
  [.deliver ⟨c, 0, x⟩, .proceed ⟨c, 0, x⟩, .proceed ⟨c, 0, x⟩,
    .run x (.request 0 .get ['k'] x)] ++ startEvents x c 0 ++ askEvents x c 0 2 ++
  [.reply ⟨x, 0, c⟩, .run x (.decide 0)]

theorem consistent_answered : ∃ (s t : Cluster 2 Text Text) (co co' : _) (answer : _),
    s.attempt (0, 0) = some co ∧ co.acknowledged ∧ s.attempt (1, 0) = none ∧
      t.attempt (1, 0) = some co' ∧ co'.answer = some answer ∧
      ∃ entry, answer = some entry ∧ co.version ≤ entry.2 := by
  obtain ⟨s, hexec⟩ : ∃ s, Transition.exec (step (settings 2 2 2)) calm (acknowledgedEvents 0 1)
    (initial fun _ _ => none) = some s := ⟨_, rfl⟩
  have hs := Transition.run_of_exec (fun _ _ => agreed_of_calm) hexec
  obtain ⟨t, hexec'⟩ : ∃ t, Transition.exec (step (settings 2 2 2)) calm (answeredEvents 0 1)
      s = some t := by
    cases hexec
    exact ⟨_, rfl⟩
  have ht := Transition.run_of_exec (fun _ _ => agreed_of_calm) hexec'
  have hconsistent := consistent hs ht ['k']
  obtain ⟨co, co', answer, hco, hacked, hkey, hfresh, hco', hkey', hanswer⟩ :
      ∃ co co' answer, s.attempt (0, 0) = some co ∧ co.acknowledged ∧ co.key = ['k'] ∧
        s.attempt (1, 0) = none ∧ t.attempt (1, 0) = some co' ∧ co'.key = ['k'] ∧
        co'.answer = some answer := by
    cases hexec
    cases hexec'
    exact ⟨_, _, _, rfl, rfl, rfl, rfl, rfl, rfl, rfl⟩
  exact ⟨s, t, co, co', answer, hco, hacked, hfresh, hco', hanswer,
    hconsistent.put_get _ _ _ _ _ hco hacked hkey hfresh hco' hkey' hanswer⟩

end Cluster
end LeaderlessDatastore
