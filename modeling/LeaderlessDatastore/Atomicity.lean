import LeaderlessDatastore.MutualExclusion

/-!
# Atomicity of the two-phase commit

A `GLOBAL_ABORT` is matched by key and id only.  If one reaches the participant of
another attempt with the same id, for instance the next attempt of the same put,
that participant aborts although its coordinator commits.  Without such a message,
and with versions that fit the `int` of a `GLOBAL_COMMIT`, all participants do what
their coordinator has decided.
-/

namespace LeaderlessDatastore

open Function Occupancy

/-- What a participant calls on its datastore once the decision has been received. -/
inductive Call (Key Value : Type) where
  | abort (key : Key) (uid : ℤ)
  | commit (key : Key) (value : Value) (version : ℤ)

variable {Peer Key Value : Type}

def Call.run [DecidableEq Key] (ds : DatastoreManager Key Value) :
    Call Key Value → Option (DatastoreManager Key Value)
  | .abort key uid => ds.abort key uid
  | .commit key value version => some (ds.commit key value version)

/-- The end of `prepare2PC`. -/
def Participant.call (p : Participant Key Value) : Call Key Value :=
  if p.abort then .abort p.key p.uid else .commit p.key p.value p.timestamp

/-- The next step after a decision is the call. -/
theorem Replica.proceed_decided [DecidableEq Key] [DecidableEq Peer] [Inhabited Value]
    {r : Replica Peer Key Value} {conn : Peer × ℕ} {p : Participant Key Value}
    (h : r.handler conn = .decided p) : (r.proceed conn).map (fun r' => r'.1.datastore) =
      p.call.run r.datastore := by
  simp only [proceed, h, Participant.call]
  split_ifs
  · simp [Call.run, comp_def]
  · rfl

namespace Handler

/-- The participant of this thread has been told to abort. -/
def flagged : Handler Key Value → Bool
  | .registering p | .refusing p | .preparing p | .declining p | .voting p | .deciding p
  | .decided p | .leaving p | .leaked p => p.abort
  | _ => false

theorem flagged_of_flag {h : Handler Key Value} {p : Participant Key Value} {uid : ℤ}
    (hp : h.registered = some p) (hf : (h.flag uid).flagged) : h.flagged ∨ p.uid = uid := by
  by_cases huid : p.uid = uid
  · exact .inr huid
  · refine .inl ?_
    cases h <;> cases hp <;> simpa [flag, mapParticipant, flagged, huid] using hf

end Handler

/-- A thread that goes on by itself is not flagged by that. -/
theorem HandlerStep.flagged [DecidableEq Key] [DecidableEq Peer] [Inhabited Value]
    {r : Replica Peer Key Value} {conn : Peer × ℕ} {h h' : Handler Key Value}
    {sent : Option (Message Key Value)} {participants : Key → Option (Peer × ℕ)}
    {datastore : DatastoreManager Key Value}
    (hstep : HandlerStep r conn h h' sent participants datastore) (hf : h'.flagged) :
    h.flagged := by
  cases hstep <;> first
    | exact hf
    | cases hf

/-- A thread is flagged by the decision to abort only. -/
theorem DeliverStep.flagged [DecidableEq Key] {r : Replica Peer Key Value} {conn : Peer × ℕ}
    {h h' : Handler Key Value} {m : Message Key Value} {datastore : DatastoreManager Key Value}
    (hstep : DeliverStep r conn h m h' datastore) (hf : h'.flagged) :
    h.flagged ∨ ∃ p uid key, h = .deciding p ∧ m = .globalAbort uid key := by
  cases hstep with
  | prepare | fetch | repair => cases hf
  | abort => exact .inr ⟨_, _, _, rfl, rfl⟩
  | commit => exact .inl hf

namespace Cluster

variable {n : ℕ}

/-- A `GLOBAL_ABORT` is about to be handled at a replica whose registered participant for the
key has the same id but belongs to another attempt. -/
def ForeignAbort (s : Cluster n Key Value) (e : Event n Key Value) : Prop :=
  ∃ ℓ uid key rest conn p, e = .deliver ℓ ∧ s.down ℓ = .globalAbort uid key :: rest ∧
    (s.replica ℓ.peer).participants key = some conn ∧ conn ≠ ℓ.source ∧
    ((s.replica ℓ.peer).handler conn).registered = some p ∧ p.uid = uid

/-- A put without abort votes is about to commit a version that does not fit an `int`. -/
def LargeVersion (s : Cluster n Key Value) (e : Event n Key Value) : Prop :=
  ∃ c action co value, e = .run c action ∧ s.attempt (c, action.of) = some co ∧
    co.op = .put value ∧ co.pc = .exchange ∧ co.abort = false ∧
    castInt (co.version + 1) ≠ co.version + 1

/-- Participants are flagged by the `GLOBAL_ABORT`s of their own coordinators only, and
committed versions fit an `int`. -/
structure Sound (s : Cluster n Key Value) : Prop where
  flagged : ∀ ℓ, (s.handler ℓ).flagged →
    ∀ co, s.attempt ℓ.source = some co → co.stage ℓ.peer = .toldAbort
  version : ∀ ca co, s.attempt ca = some co → co.committed → castInt co.version = co.version

variable {config : Fin n → Settings (Fin n)} {s t : Cluster n Key Value} {e : Event n Key Value}
  [DecidableEq Key] [Inhabited Value]

/-- An attempt that has told a replica to abort stays with that. -/
theorem Evolves.toldAbort (hs : Inv config s) {ca : Fin n × ℕ}
    {co co' : Coordinator (Fin n) Key Value} (hevolves : Evolves config s ca co')
    (hco : s.attempt ca = some co) {x : Fin n} (hstage : co.stage x = .toldAbort) :
    co'.stage x = .toldAbort := by
  have hok := hs.attempt_ok ca co hco
  cases hevolves with
  | same current =>
    obtain rfl := Option.some.inj (hco.symm.trans current)
    exact hstage
  | request fresh | retry fresh => cases fresh.symm.trans hco
  | step current step =>
    obtain rfl := Option.some.inj (hco.symm.trans current)
    rw [Coordinator.stage_step hok step, hstage]
  | @sent co y m current mem unsent message =>
    obtain rfl := Option.some.inj (hco.symm.trans current)
    by_cases hxy : x = y
    · rw [hxy] at hstage
      exact absurd hstage (Coordinator.stage_ne_toldAbort hok unsent message)
    · rw [(Coordinator.grows_sentTo hxy).stage_eq, hstage]
  | @heard co y m rest current pc_eq mem waiting =>
    obtain rfl := Option.some.inj (hco.symm.trans current)
    by_cases hxy : x = y
    · rw [hxy, Coordinator.stage_exchange pc_eq mem, waiting] at hstage
      cases hstage
    · rw [(Coordinator.grows_heardFrom pc_eq hxy).stage_eq, hstage]

/-- The coordinator of a participant that is flagged now had sent its `GLOBAL_ABORT` before. -/
theorem Sound.exists_toldAbort (hs : Inv config s) (hsound : Sound s)
    (hforeign : ¬ ForeignAbort s e) (h : Change config s e t) {ℓ : Link n}
    (hflag : (t.handler ℓ).flagged) :
    ∃ co, s.attempt ℓ.source = some co ∧ co.stage ℓ.peer = .toldAbort := by
  have before : (s.handler ℓ).flagged →
      ∃ co, s.attempt ℓ.source = some co ∧ co.stage ℓ.peer = .toldAbort := by
    intro hold
    obtain ⟨co, hco⟩ := hs.exists_attempt (ℓ := ℓ) (.inr (.inr fun hidle => by
      simp [hidle, Handler.flagged] at hold))
    exact ⟨co, hco, hsound.flagged ℓ hold co hco⟩
  have handlers : ∀ {ℓ' hd}, t.handler = update s.handler ℓ' hd →
      (ℓ = ℓ' → hd.flagged → ∃ co, s.attempt ℓ.source = some co ∧
        co.stage ℓ.peer = .toldAbort) →
      ∃ co, s.attempt ℓ.source = some co ∧ co.stage ℓ.peer = .toldAbort := by
    intro ℓ' hd hh hnew
    rw [hh] at hflag
    by_cases hℓ : ℓ = ℓ'
    · rw [hℓ, update_self] at hflag
      exact hnew hℓ hflag
    · rw [update_of_ne hℓ] at hflag
      exact before hflag
  cases h with
  | request => exact before ((handler_spawn ..) ▸ hflag)
  | retry => exact before (((handler_spawn ..).trans (handler_move ..)) ▸ hflag)
  | move | send | reply => exact before ((handler_move ..) ▸ hflag)
  | deliver down_eq step =>
    refine handlers (handler_handle ..) ?_
    rintro rfl hnew
    rcases step.flagged hnew with hold | ⟨p, uid, key, hhd, rfl⟩
    · exact before hold
    · obtain ⟨co, hco⟩ := hs.exists_attempt (ℓ := ℓ) (.inl (by simp [down_eq]))
      have hphase := hs.phase hco
      rw [down_eq, hhd] at hphase
      exact ⟨co, hco, hphase.toldAbort⟩
  | @stale ℓ' uid key rest down_eq idle =>
    rcases s.handler_flag ℓ ℓ'.peer uid key with he | ⟨hpeer, hreg, he⟩
    · exact before (he ▸ hflag)
    · have hseat : (s.handler ℓ).seat = some key :=
        (hs.replica_ok ℓ.peer).participants_eq.mp (hpeer ▸ hreg)
      obtain ⟨p, hp, -⟩ := Option.map_eq_some_iff.mp hseat
      have hflag' : ((s.handler ℓ).flag uid).flagged := he ▸ hflag
      -- the id of the participant is that of the message, which is not from its coordinator
      refine before ((Handler.flagged_of_flag hp hflag').resolve_right fun huid => hforeign ?_)
      have hne : ℓ.source ≠ ℓ'.source := fun hsource => by
        obtain rfl := Link.ext_source hsource hpeer
        simp [idle, Handler.registered] at hp
      exact ⟨ℓ', uid, key, rest, ℓ.source, p, rfl, down_eq, hreg, hne, hpeer ▸ hp, huid⟩
  | proceed step =>
    refine handlers (handler_handle ..) ?_
    rintro rfl hnew
    exact before (step.flagged hnew)
  | hangup => exact handlers (handler_handle ..) fun _ hnew => by cases hnew

theorem Sound.flagged_change (hs : Inv config s) (hsound : Sound s)
    (hforeign : ¬ ForeignAbort s e) (h : Change config s e t) (ℓ : Link n)
    (hflag : (t.handler ℓ).flagged) (co' : Coordinator (Fin n) Key Value)
    (hco' : t.attempt ℓ.source = some co') : co'.stage ℓ.peer = .toldAbort := by
  obtain ⟨co, hco, hstage⟩ := hsound.exists_toldAbort hs hforeign h hflag
  exact (h.evolves hco').toldAbort hs hco hstage

/-- A put commits at the end of its window, by writing to its own datastore. -/
theorem Change.commits (hs : Inv config s) (h : Change config s e t) {ca : Fin n × ℕ}
    {co' : Coordinator (Fin n) Key Value} (hco' : t.attempt ca = some co')
    (hcommitted : co'.committed) :
    (∃ co, s.attempt ca = some co ∧ co.committed) ∨
    ∃ action co value, e = .run ca.1 action ∧ action.of = ca.2 ∧
      Window config s co.key ca co ∧ co.op = .put value ∧
      co' = { co with version := co.version + 1, sender := fun _ => .unsent, pc := .committing } ∧
      t = s.move ca co' (s.replica ca.1).coordinators
        ((s.datastore ca.1).commit co.key value (co.version + 1)) := by
  cases h with
  | @request c a op =>
    rw [attempt_spawn, update_eq_some] at hco'
    rcases hco' with ⟨-, ⟨⟩⟩ | ⟨-, hold⟩
    · cases op <;> cases hcommitted
    · exact .inl ⟨co', hold, hcommitted⟩
  | @retry c a b co current pc_eq fresh =>
    rw [attempt_spawn, attempt_move, update_eq_some, update_eq_some] at hco'
    rcases hco' with ⟨-, ⟨⟩⟩ | ⟨-, ⟨-, ⟨⟩⟩ | ⟨-, hold⟩⟩
    · cases hop : co.op <;> simp [Coordinator.committed, Coordinator.nextAttempt, hop] at hcommitted
    · cases hop : co.op <;> simp [Coordinator.committed, hop] at hcommitted
    · exact .inl ⟨co', hold, hcommitted⟩
  | @move c action co co₁ coordinators datastore current step =>
    rw [attempt_move, update_eq_some] at hco'
    rcases hco' with ⟨rfl, ⟨⟩⟩ | ⟨-, hold⟩
    · have hput := (hs.attempt_ok _ co current).put_pc
      cases step with
      | @commit value pc_eq joined op_eq counted unanimous =>
        exact .inr ⟨action, co, value, rfl, rfl, ⟨current, rfl, ⟨value, op_eq⟩, pc_eq, counted,
          unanimous⟩, op_eq, rfl, rfl⟩
      | _ => cases hop : co.op <;> simp_all [Coordinator.committed]
    · exact .inl ⟨co', hold, hcommitted⟩
  | send current =>
    rcases update_eq_some.mp ((congrFun (attempt_move ..) _).symm.trans hco') with
      ⟨rfl, ⟨⟩⟩ | ⟨-, hold⟩
    · exact .inl ⟨_, current, hcommitted⟩
    · exact .inl ⟨co', hold, hcommitted⟩
  | @reply ℓ co m rest current pc_eq =>
    rcases update_eq_some.mp ((congrFun (attempt_move ..) _).symm.trans hco') with
      ⟨-, ⟨⟩⟩ | ⟨-, hold⟩
    · obtain ⟨hop, -, -, hpc, -⟩ := co.heardFrom_same ℓ.peer m
      cases hop' : co.op <;> simp [Coordinator.committed, hop, hpc, pc_eq, hop'] at hcommitted
    · exact .inl ⟨co', hold, hcommitted⟩
  | deliver | proceed | hangup =>
    exact .inl ⟨co', (congrFun (attempt_handle ..) _).symm.trans hco', hcommitted⟩
  | stale => exact .inl ⟨co', (congrFun (attempt_flag ..) _).symm.trans hco', hcommitted⟩

theorem Sound.version_change (hs : Inv config s) (hsound : Sound s)
    (hlarge : ¬ LargeVersion s e) (h : Change config s e t) (ca : Fin n × ℕ)
    (co' : Coordinator (Fin n) Key Value) (hco' : t.attempt ca = some co')
    (hcommitted : co'.committed) : castInt co'.version = co'.version := by
  rcases h.commits hs hco' hcommitted with ⟨co, hco, hc⟩ |
    ⟨action, co, value, rfl, hof, hwindow, hop, rfl, -⟩
  · obtain ⟨co₁, hco₁, hlater⟩ := hs.later_of_change h ca co hco
    obtain rfl := Option.some.inj (hco₁.symm.trans hco')
    rw [(hlater.committed hc).2.1]
    exact hsound.version ca co hco hc
  · by_contra hfit
    exact hlarge ⟨ca.1, action, co, value, rfl, hof ▸ hwindow.current, hop, hwindow.pc_eq,
      hwindow.unanimous, hfit⟩

/-- The events that keep the participants and their coordinators in agreement. -/
def Agreed (s : Cluster n Key Value) (e : Event n Key Value) : Prop :=
  ¬ ForeignAbort s e ∧ ¬ LargeVersion s e

theorem Sound.change (hs : Inv config s) (hsound : Sound s) (hagreed : Agreed s e)
    (h : Change config s e t) : Sound t :=
  ⟨fun ℓ hflag co' hco' => hsound.flagged_change hs hagreed.1 h ℓ hflag co' hco',
    fun ca co' hco' hc => hsound.version_change hs hagreed.2 h ca co' hco' hc⟩

omit [DecidableEq Key] [Inhabited Value] in
theorem Sound.of_initial (contents : Fin n → Key → Option (Value × ℤ)) :
    Sound (initial contents) where
  flagged ℓ hflag := by cases hflag
  version ca co hco := by cases hco

theorem Sound.run (hset : ∀ c, (config c).Ok c) (hs : Inv config s) (hsound : Sound s)
    (h : Run config Agreed s t) : Inv config t ∧ Sound t := by
  refine h.preserves (P := fun s => Inv config s ∧ Sound s) ?_ ⟨hs, hsound⟩
  intro s e t ⟨hs, hsound⟩ hagreed hstep
  have hchange := step_cases hs hstep
  exact ⟨hs.change hset hchange, hsound.change hs hagreed hchange⟩

/-- Every participant that voted to commit and has received the decision of its own attempt
does what the coordinator of that attempt has decided, with its key, value and version. -/
theorem commit_atomicity {readQuorum writeQuorum : ℤ}
    {contents : Fin n → Key → Option (Value × ℤ)}
    (hrun : Run (settings n readQuorum writeQuorum) Agreed (initial contents) s) {ℓ : Link n}
    {p : Participant Key Value} {co : Coordinator (Fin n) Key Value}
    (hp : s.handler ℓ = .decided p) (hco : s.attempt ℓ.source = some co) :
    (co.committed → ∃ value, co.op = .put value ∧ p.call = .commit co.key value co.version) ∧
      (co.committed = false → p.call = .abort co.key co.uid) := by
  obtain ⟨hs, hsound⟩ := (Sound.of_initial contents).run settings_ok (.of_initial contents) hrun
  have hphase := hs.phase hco
  rw [hp] at hphase
  obtain ⟨value, hop, made, ⟨htold, hflag⟩ | ⟨htold, htimestamp⟩⟩ := hphase.decided
  · refine ⟨fun hc => absurd hc (Coordinator.not_committed_of_toldAbort htold), fun _ => ?_⟩
    rw [Participant.call, if_pos hflag, made.key_eq, made.uid_eq]
  · have hcommitted := Coordinator.committed_of_toldCommit htold
    refine ⟨fun _ => ⟨value, hop, ?_⟩, fun hc => by simp [hc] at hcommitted⟩
    have hunflagged : p.abort = false := by
      by_contra hflag
      have := hsound.flagged ℓ (by rw [hp]; simpa [Handler.flagged] using hflag) co hco
      simp [htold] at this
    rw [Participant.call, hunflagged, made.key_eq, made.value_eq, htimestamp,
      hsound.version _ co hco hcommitted]
    rfl

/-! ## Two runs -/

/-- No `GLOBAL_ABORT` is handled, and versions are small. -/
def calm (s : Cluster n Key Value) : Event n Key Value → Bool
  | .deliver ℓ =>
    match s.down ℓ with
    | .globalAbort .. :: _ => false
    | _ => true
  | .run c action =>
    match s.attempt (c, action.of) with
    | some co => castInt (co.version + 1) = co.version + 1
    | none => true
  | _ => true

omit [DecidableEq Key] [Inhabited Value] in
theorem agreed_of_calm (h : calm s e) : Agreed s e := by
  constructor
  · rintro ⟨ℓ, uid, key, rest, conn, p, rfl, hdown, -⟩
    simp [calm, hdown] at h
  · rintro ⟨c, action, co, value, rfl, hco, -, -, -, hfit⟩
    simp [calm, hco, hfit] at h

/-- Replica `c` puts a value; `x` has received the decision to commit. -/
def committedEvents (c x : Fin n) : List (Event n Text Text) :=
  votedEvents c x ++ [.run c (.decide 0), .send ⟨c, 0, x⟩, .deliver ⟨c, 0, x⟩]

theorem commit_atomicity_committed : ∃ (s : Cluster 2 Text Text) (co : _) (p : _),
    s.attempt (0, 0) = some co ∧ s.handler ⟨0, 0, 1⟩ = .decided p ∧
      co.committed ∧ ∃ value, co.op = .put value ∧ p.call = .commit co.key value co.version := by
  obtain ⟨s, hexec⟩ : ∃ s, Transition.exec (step (settings 2 1 2)) calm (committedEvents 0 1)
    (initial fun _ _ => none) = some s := ⟨_, rfl⟩
  have hrun := Transition.run_of_exec (fun _ _ => agreed_of_calm) hexec
  obtain ⟨co, p, hco, hp⟩ : ∃ co p, s.attempt (0, 0) = some co ∧
      s.handler ⟨0, 0, 1⟩ = .decided p := by
    cases hexec
    exact ⟨_, _, rfl, rfl⟩
  have hcommitted : co.committed := by
    cases hexec
    cases hco
    rfl
  exact ⟨s, co, p, hco, hp, hcommitted, (commit_atomicity hrun hp hco).1 hcommitted⟩

/-- The ids of requests are those that `getNewReplicaTS` returns. -/
def handedOut (s : Cluster n Key Value) : Event n Key Value → Bool
  | .run c (.request _ _ _ uid) => uid = (s.replica c).replicaTS
  | _ => true

/-- Replicas `c` and `x` put the same key and refuse each other.  Replica `c` tries again;
while `x` waits for the decision of the second attempt it receives the `GLOBAL_ABORT` of
the first. -/
def retriedEvents (c x : Fin n) : List (Event n Text Text) :=
  let abortEvents (c x : Fin n) : List (Event n Text Text) :=
    [.run c (.decide 0), .send ⟨c, 0, x⟩, .run c (.closeAborted 0), .run c (.release 0),
      .run c (.removeCoordinator 0)]
  [.run c (.request 0 (.put ['v']) ['k'] c)] ++ startEvents c x 0 ++
  [.run x (.request 0 (.put ['w']) ['k'] x)] ++ startEvents x c 0 ++
  askEvents c x 0 2 ++ askEvents x c 0 2 ++ [.reply ⟨c, 0, x⟩, .reply ⟨x, 0, c⟩] ++
  abortEvents c x ++ abortEvents x c ++
  [.run c (.retry 0 1)] ++ startEvents c x 1 ++ askEvents c x 1 3 ++
  [.deliver ⟨c, 0, x⟩, .reply ⟨c, 1, x⟩, .run c (.decide 1), .send ⟨c, 1, x⟩, .deliver ⟨c, 1, x⟩]

/-- The coordinator commits and its participant, which voted to commit, aborts. -/
theorem retried_put_torn : ∃ (s : Cluster 2 Text Text) (co : _) (p : _),
    Run (settings 2 1 2) (fun s e => handedOut s e) (initial fun _ _ => none) s ∧
      s.attempt (0, 1) = some co ∧ co.committed ∧
      (s.datastore 0).datastore ['k'] = some (['v'], 1) ∧
      s.handler ⟨0, 1, 1⟩ = .decided p ∧ p.call = .abort ['k'] 0 := by
  obtain ⟨s, hexec⟩ : ∃ s, Transition.exec (step (settings 2 1 2)) handedOut (retriedEvents 0 1)
    (initial fun _ _ => none) = some s := ⟨_, rfl⟩
  have hrun := Transition.run_of_exec (fun _ _ => id) hexec
  cases hexec
  exact ⟨_, _, _, hrun, rfl, rfl, rfl, rfl, rfl⟩

end Cluster
end LeaderlessDatastore
