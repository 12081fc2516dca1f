import LeaderlessDatastore.Serving

/-!
# `Prepare::manage` and the wait for the decision

One call in a replica that goes on serving everybody else: what is left of it when it has
ended, by a return or by an exception of the `receive` in `prepare2PC`.
-/

namespace LeaderlessDatastore

open Function Transition

namespace Handler

variable {Key Value : Type}

/-- The participant of the call of `Prepare::manage`, ended by an exception or not. -/
def participant : Handler Key Value → Option (Participant Key Value)
  | .registering p | .refusing p | .preparing p | .declining p | .voting p | .deciding p
  | .decided p | .leaving p | .leaked p => some p
  | _ => none

/-- The thread is inside `Prepare::manage`. -/
def managing : Handler Key Value → Bool
  | .idle | .leaked _ | .fetching _ | .replying .. | .closed => false
  | _ => true

end Handler

namespace Serving

variable {Peer Key Value : Type}

/-- A step of the thread that serves `conn`. -/
def Event.IsOf (conn : Peer × ℕ) : Event Peer Key Value → Prop
  | .deliver conn' _ | .proceed conn' | .wake conn' | .hangup conn' => conn' = conn
  | _ => False

section Steps

variable (conn : Peer × ℕ) (uid : ℤ) (key : Key) (t : Taken (Serving Peer Key Value)
  (Event Peer Key Value))

/-- The thread locks the key under the id. -/
def Locks : Prop :=
  t.event = .proceed conn ∧ t.before.replica.datastore.owner2pc key = none ∧
    t.after.replica.datastore.owner2pc key = some uid

/-- The stored value and version of the key stay. -/
def Keeps : Prop :=
  t.after.replica.datastore.datastore key = t.before.replica.datastore.datastore key

/-- `receive` gives the thread the `GLOBAL_COMMIT` of its transaction. -/
def Decides : Prop :=
  ∃ value timestamp, t.event = .deliver conn (.globalCommit uid key value timestamp)

/-- The `GLOBAL_ABORT` of the transaction arrives, on any connection, while the thread is
registered. -/
def Aborts : Prop :=
  t.before.replica.participants key = some conn ∧
    ∃ conn', t.event = .deliver conn' (.globalAbort uid key)

/-- The thread goes on behind its wait. -/
def Resumes : Prop :=
  t.event = .proceed conn ∧ ∃ p, t.before.replica.handler conn = .decided p

end Steps

section Versions

variable [DecidableEq Key] [DecidableEq Peer] (conn : Peer × ℕ) (uid : ℤ) (key : Key)

/-- A version is taken when the thread locks the key, and from every `GLOBAL_COMMIT` of the key
that arrives, on any connection, while the thread is registered. -/
def takeVersion (version : ℤ) (t : Taken (Serving Peer Key Value) (Event Peer Key Value)) : ℤ :=
  match t.event with
  | .proceed conn' =>
    if conn' = conn ∧ t.before.replica.datastore.owner2pc key = none ∧
        t.after.replica.datastore.owner2pc key = some uid then
      t.before.replica.datastore.storedVersion key
    else version
  | .deliver _ (.globalCommit _ key' _ timestamp) =>
    if key' = key ∧ t.before.replica.participants key = some conn then timestamp else version
  | _ => version

/-- The version that a `commit` after these steps is for. -/
def heardVersion (trace : List (Taken (Serving Peer Key Value) (Event Peer Key Value))) : ℤ :=
  trace.foldl (takeVersion conn uid key) 0

/-- After these steps, without a `GLOBAL_ABORT`, the thread goes on behind its wait, and the key
is absent there or older. -/
def Overwrites (earlier : List (Taken (Serving Peer Key Value) (Event Peer Key Value)))
    (t : Taken (Serving Peer Key Value) (Event Peer Key Value)) : Prop :=
  Resumes conn t ∧ (∀ u ∈ earlier, ¬ Aborts conn uid key u) ∧
    ∀ value version, t.before.replica.datastore.datastore key = some (value, version) →
      version < heardVersion conn uid key earlier

end Versions

/-- What a call of `Prepare::manage` that has ended leaves behind: no lock of its own, no
participant and, without its `GLOBAL_COMMIT`, the entry as it was. -/
structure Clean (conn : Peer × ℕ) (uid : ℤ) (key : Key)
    (trace : List (Taken (Serving Peer Key Value) (Event Peer Key Value)))
    (s : Serving Peer Key Value) : Prop where
  unlocked : (∃ t ∈ trace, Locks conn uid key t) → s.replica.datastore.owner2pc key ≠ some uid
  unregistered : s.replica.participants key ≠ some conn
  unchanged : (∀ t ∈ trace, ¬ Decides conn uid key t) →
    ∀ t ∈ trace, t.event.IsOf conn → Keeps key t

variable [DecidableEq Key] [DecidableEq Peer] [Inhabited Value]

/-- A whole call of `Prepare::manage`, with the steps that are taken meanwhile. -/
def PrepareManage (settings : Settings Peer) (conn : Peer × ℕ) (uid : ℤ) (key : Key)
    (value : Value) (s₀ : Serving Peer Key Value)
    (trace : List (Taken (Serving Peer Key Value) (Event Peer Key Value)))
    (s : Serving Peer Key Value) : Prop :=
  ∃ s₁, step settings s₀ (.deliver conn (.prepare uid key value)) = some s₁ ∧
    During (step settings) (fun s => (s.replica.handler conn).managing) s₁ trace s ∧
    (s.replica.handler conn).managing = false

end Serving

/-! ## What happens to a participant -/

namespace Handler

variable {Key Value : Type} {f : Participant Key Value → Participant Key Value}

theorem mapParticipant_id (h : Handler Key Value) : h.mapParticipant id = h := by
  cases h <;> rfl

theorem participant_mapParticipant (h : Handler Key Value) :
    (h.mapParticipant f).participant = h.participant.map f := by
  cases h <;> rfl

theorem managing_mapParticipant (h : Handler Key Value) :
    (h.mapParticipant f).managing = h.managing := by
  cases h <;> rfl

theorem registered_eq_some {hd : Handler Key Value} {p : Participant Key Value}
    (h : hd.registered = some p) : hd.participant = some p := by
  cases hd <;> first | exact h | cases h

end Handler

namespace Replica

variable {Peer Key Value : Type} {r r' : Replica Peer Key Value} {conn conn' : Peer × ℕ}
  {m : Message Key Value}

section Told

variable [DecidableEq Peer]

/-- What a message does to the participant that `conn` has registered. -/
def tell (r : Replica Peer Key Value) (conn : Peer × ℕ) :
    Message Key Value → Participant Key Value → Participant Key Value
  | .globalAbort uid key, p =>
    if r.participants key = some conn ∧ p.uid = uid then { p with abort := true } else p
  | .globalCommit _ key _ timestamp, p =>
    if r.participants key = some conn then { p with timestamp := timestamp } else p
  | _, p => p

theorem tell_key (m : Message Key Value) (p : Participant Key Value) :
    (r.tell conn m p).key = p.key := by
  unfold tell
  split <;> first | rfl | split_ifs <;> rfl

theorem tell_uid (m : Message Key Value) (p : Participant Key Value) :
    (r.tell conn m p).uid = p.uid := by
  unfold tell
  split <;> first | rfl | split_ifs <;> rfl

theorem setHandler_handler_of_ne (h : conn' ≠ conn) (hd : Handler Key Value) :
    (r.setHandler conn' hd).handler conn = r.handler conn := update_of_ne h.symm ..

/-- A change made through the registry. -/
theorem handler_setHandler (f : Participant Key Value → Participant Key Value) :
    (r.setHandler conn' ((r.handler conn').mapParticipant f)).handler conn =
      (r.handler conn).mapParticipant fun p => if conn' = conn then f p else p := by
  by_cases h : conn' = conn
  · subst h
    simp only [if_true]
    exact update_self ..
  · simp only [if_neg h]
    exact (setHandler_handler_of_ne h _).trans (Handler.mapParticipant_id _).symm

theorem globalAbort_told (uid : ℤ) (key : Key) :
    (r.globalAbort uid key).handler conn =
      (r.handler conn).mapParticipant (r.tell conn (.globalAbort uid key)) := by
  unfold globalAbort
  cases hkey : r.participants key with
  | none =>
    have htell : r.tell conn (.globalAbort uid key) = id := by
      funext p
      simp [tell, hkey]
    rw [htell, Handler.mapParticipant_id]
  | some conn' =>
    refine (handler_setHandler _).trans (congrArg (Handler.mapParticipant · _) ?_)
    funext p
    simp only [tell, hkey, Option.some.injEq, ite_and]

theorem globalCommit_told {uid : ℤ} {key : Key} {value : Value} {timestamp : ℤ}
    (h : r.globalCommit key timestamp = some r') : r'.handler conn =
      (r.handler conn).mapParticipant (r.tell conn (.globalCommit uid key value timestamp)) := by
  obtain ⟨conn', hkey, rfl⟩ := Option.map_eq_some_iff.mp h
  refine (handler_setHandler _).trans (congrArg (Handler.mapParticipant · _) ?_)
  funext p
  simp only [tell, hkey, Option.some.injEq]

end Told

theorem manageReply_handler (h : r.manageReply m = some r') : r'.handler = r.handler := by
  have hmodify : ∀ {key : Key} {f : Coordinator Peer Key Value → Coordinator Peer Key Value},
      r.modifyCoordinator key f = some r' → r'.handler = r.handler := by
    intro key f hmod
    obtain ⟨a, -, hmod⟩ := Option.bind_eq_some_iff.mp hmod
    obtain ⟨co, -, hmod⟩ := Option.bind_eq_some_iff.mp hmod
    cases hmod
    rfl
  cases m with
  | voteCommit | voteAbort => exact hmodify h
  | fetchedValue key entry =>
    cases entry with
    | none =>
      cases h
      rfl
    | some entry => exact hmodify h
  | _ => cases h

variable [DecidableEq Peer]

theorem receive_handler {a : ℕ} {x : Peer} (h : r.receive a x m = some r') :
    r'.handler = r.handler := by
  obtain ⟨co, -, h⟩ := Option.bind_eq_some_iff.mp h
  split_ifs at h
  split at h
  · next hm =>
    obtain ⟨co', -, rfl⟩ := Option.map_eq_some_iff.mp h
    have hhandler := manageReply_handler hm
    exact hhandler
  · cases h
    rfl

theorem wake_cases (r : Replica Peer Key Value) (conn : Peer × ℕ) : r.wake conn = r ∨
    ∃ p, r.handler conn = .deciding p ∧ r.wake conn = r.setHandler conn (.decided p) := by
  unfold wake
  split
  · next p hp => exact .inr ⟨p, hp, rfl⟩
  · exact .inl rfl

theorem wake_handler_of_ne (h : conn' ≠ conn) : (r.wake conn').handler conn = r.handler conn := by
  rcases r.wake_cases conn' with heq | ⟨p, -, heq⟩
  · rw [heq]
  · rw [heq, setHandler_handler_of_ne h]

theorem hangup_handler_of_ne (h : conn' ≠ conn) (hstep : r.hangup conn' = some r') :
    r'.handler conn = r.handler conn := by
  unfold hangup at hstep
  split at hstep <;> cases hstep <;> exact setHandler_handler_of_ne h _

variable [DecidableEq Key]

/-- A message on another connection reaches a participant through the registry only. -/
theorem told_deliver (h : conn' ≠ conn) (hstep : r.deliver conn' m = some r') :
    r'.handler conn = (r.handler conn).mapParticipant (r.tell conn m) := by
  have hsame : ∀ {hd : Handler Key Value}, (r.setHandler conn' hd).handler conn =
      (r.handler conn).mapParticipant id := fun {hd} => by
    rw [setHandler_handler_of_ne h, Handler.mapParticipant_id]
  unfold deliver at hstep
  split at hstep
  · cases hstep
    exact hsame
  · cases hstep
    exact globalAbort_told _ _
  · exact globalCommit_told hstep
  · cases hstep
    exact hsame
  · cases hstep
    exact hsame
  · cases hstep
    rw [wake_handler_of_ne h]
    exact globalAbort_told _ _
  · obtain ⟨r₁, hr₁, rfl⟩ := Option.map_eq_some_iff.mp hstep
    rw [wake_handler_of_ne h]
    exact globalCommit_told hr₁
  · cases hstep

/-- The wait ends with a message. -/
theorem deliver_managing (hmanaging : (r.handler conn).managing)
    (hstep : r.deliver conn m = some r') :
    r'.datastore = r.datastore ∧ ∃ p, r.handler conn = .deciding p ∧
      r'.handler conn = .decided (r.tell conn m p) := by
  have hwake : ∀ {r₁ : Replica Peer Key Value} {p : Participant Key Value},
      r.handler conn = .deciding p → r₁.datastore = r.datastore →
      r₁.handler conn = (r.handler conn).mapParticipant (r.tell conn m) →
      (r₁.wake conn).datastore = r.datastore ∧ ∃ p, r.handler conn = .deciding p ∧
        (r₁.wake conn).handler conn = .decided (r.tell conn m p) := by
    intro r₁ p hp hdatastore hhandler
    rw [hp] at hhandler
    have heq : r₁.wake conn = r₁.setHandler conn (.decided (r.tell conn m p)) := by
      unfold wake
      rw [hhandler]
      rfl
    exact ⟨by rw [heq]; exact hdatastore, p, hp, by rw [heq]; exact update_self ..⟩
  cases hh : r.handler conn with
  | deciding p =>
    cases m with
    | globalAbort uid key =>
      simp only [deliver, hh, Option.some.injEq] at hstep
      subst hstep
      refine hh ▸ hwake hh ?_ (globalAbort_told uid key)
      unfold globalAbort
      split <;> rfl
    | globalCommit uid key value timestamp =>
      simp only [deliver, hh] at hstep
      obtain ⟨r₁, hr₁, rfl⟩ := Option.map_eq_some_iff.mp hstep
      refine hh ▸ hwake hh ?_ (globalCommit_told hr₁)
      obtain ⟨conn', -, rfl⟩ := Option.map_eq_some_iff.mp hr₁
      rfl
    | _ => simp [deliver, hh] at hstep
  | idle =>
    rw [hh] at hmanaging
    cases hmanaging
  | _ => simp [deliver, hh] at hstep

end Replica

namespace Serving

variable {Peer Key Value : Type} [DecidableEq Key] [DecidableEq Peer]
  {s s' : Serving Peer Key Value} {e : Event Peer Key Value} {conn : Peer × ℕ}
  {uid : ℤ} {key : Key} {trace : List (Taken (Serving Peer Key Value) (Event Peer Key Value))}

/-- What a step does to the participant that `conn` has registered. -/
def tell (s : Serving Peer Key Value) (conn : Peer × ℕ) :
    Event Peer Key Value → Participant Key Value → Participant Key Value
  | .deliver _ m => s.replica.tell conn m
  | _ => id

/-- The participant has the key and the id of the call, and what the steps so far have told it. -/
structure Informed (conn : Peer × ℕ) (uid : ℤ) (key : Key)
    (trace : List (Taken (Serving Peer Key Value) (Event Peer Key Value)))
    (p : Participant Key Value) : Prop where
  key_eq : p.key = key
  uid_eq : p.uid = uid
  abort_iff : p.abort = true ↔ ∃ t ∈ trace, Aborts conn uid key t
  timestamp_eq : p.timestamp = heardVersion conn uid key trace

theorem heardVersion_concat (t : Taken (Serving Peer Key Value) (Event Peer Key Value)) :
    heardVersion conn uid key (trace ++ [t]) =
      takeVersion conn uid key (heardVersion conn uid key trace) t := by
  simp [heardVersion]

omit [DecidableEq Key] [DecidableEq Peer] in
theorem exists_aborts_concat (t : Taken (Serving Peer Key Value) (Event Peer Key Value)) :
    (∃ u ∈ trace ++ [t], Aborts conn uid key u) ↔
      (∃ u ∈ trace, Aborts conn uid key u) ∨ Aborts conn uid key t := by
  simp only [List.mem_append, List.mem_singleton, or_and_right, exists_or, exists_eq_left]

/-- A step in which the thread does not lock its key. -/
theorem Informed.of_proceed {p : Participant Key Value} (h : Informed conn uid key trace p)
    (hlock : ¬ Locks conn uid key ⟨s, .proceed conn, s'⟩) :
    Informed conn uid key (trace ++ [⟨s, .proceed conn, s'⟩]) p where
  key_eq := h.key_eq
  uid_eq := h.uid_eq
  abort_iff := by
    rw [h.abort_iff, exists_aborts_concat, or_iff_left]
    rintro ⟨-, _, ⟨⟩⟩
  timestamp_eq := by
    rw [h.timestamp_eq, heardVersion_concat]
    exact (if_neg fun ⟨_, hnone, hsome⟩ => hlock ⟨rfl, hnone, hsome⟩).symm

section Tell

variable {p : Participant Key Value}

omit [DecidableEq Key] in
theorem tell_abort (hregistered : ∀ key', s.replica.participants key' = some conn → key' = p.key) :
    (s.tell conn e p).abort = true ↔ p.abort = true ∨ Aborts conn p.uid p.key ⟨s, e, s'⟩ := by
  have hother : (∀ conn' uid' key', e ≠ .deliver conn' (.globalAbort uid' key')) →
      (s.tell conn e p).abort = p.abort → ((s.tell conn e p).abort = true ↔
        p.abort = true ∨ Aborts conn p.uid p.key ⟨s, e, s'⟩) := by
    intro hne habort
    rw [habort, or_iff_left]
    exact fun ⟨_, conn', heq⟩ => hne conn' _ _ heq
  cases e with
  | deliver conn' m =>
    cases m with
    | globalAbort uid' key' =>
      have haborts : Aborts conn p.uid p.key ⟨s, .deliver conn' (.globalAbort uid' key'), s'⟩ ↔
          s.replica.participants key' = some conn ∧ p.uid = uid' := by
        constructor
        · rintro ⟨hkey, _, ⟨⟩⟩
          exact ⟨hkey, rfl⟩
        · rintro ⟨hkey, rfl⟩
          obtain rfl := hregistered key' hkey
          exact ⟨hkey, conn', rfl⟩
      rw [haborts]
      simp only [tell, Replica.tell]
      split_ifs with h <;> simp [h]
    | globalCommit uid' key' value timestamp =>
      refine hother nofun ?_
      simp only [tell, Replica.tell]
      split_ifs <;> rfl
    | _ => exact hother nofun rfl
  | _ => exact hother nofun rfl

theorem tell_timestamp
    (hregistered : ∀ key', s.replica.participants key' = some conn → key' = p.key)
    (he : e ≠ .proceed conn) : (s.tell conn e p).timestamp =
      takeVersion conn p.uid p.key p.timestamp ⟨s, e, s'⟩ := by
  cases e with
  | deliver conn' m =>
    cases m with
    | globalAbort uid' key' =>
      simp only [tell, Replica.tell, takeVersion]
      split_ifs <;> rfl
    | globalCommit uid' key' value timestamp =>
      have hiff : key' = p.key ∧ s.replica.participants p.key = some conn ↔
          s.replica.participants key' = some conn :=
        ⟨fun ⟨hkey, h⟩ => hkey ▸ h, fun h => ⟨hregistered key' h, hregistered key' h ▸ h⟩⟩
      simp only [tell, Replica.tell, takeVersion, hiff]
      split_ifs <;> rfl
    | _ => rfl
  | proceed conn' =>
    have hne : conn' ≠ conn := fun heq => he (congrArg Event.proceed heq)
    exact (if_neg fun h => hne h.1).symm
  | _ => rfl

/-- The registry leads to the thread from its own key only. -/
theorem Informed.tell (h : Informed conn uid key trace p)
    (hregistered : ∀ key', s.replica.participants key' = some conn → key' = key)
    (he : e ≠ .proceed conn) :
    Informed conn uid key (trace ++ [⟨s, e, s'⟩]) (s.tell conn e p) := by
  obtain ⟨rfl, rfl, habort, htimestamp⟩ := h
  have hsame : (s.tell conn e p).key = p.key ∧ (s.tell conn e p).uid = p.uid := by
    cases e <;> first | exact ⟨Replica.tell_key _ p, Replica.tell_uid _ p⟩ | exact ⟨rfl, rfl⟩
  refine ⟨hsame.1, hsame.2, ?_, ?_⟩
  · rw [tell_abort hregistered, habort, exists_aborts_concat]
  · rw [tell_timestamp hregistered he, htimestamp, heardVersion_concat]

end Tell

variable [Inhabited Value] {settings : Settings Peer}

/-- Other threads change no more than what the participant has been told. -/
theorem told_of_step (hstep : step settings s e = some s') (he : ¬ e.IsOf conn) :
    s'.replica.handler conn = (s.replica.handler conn).mapParticipant (s.tell conn e) := by
  have hsame : ∀ {r : Replica Peer Key Value}, r.handler conn = s.replica.handler conn →
      r.handler conn = (s.replica.handler conn).mapParticipant id := fun h =>
    h.trans (Handler.mapParticipant_id _).symm
  cases e with
  | run action =>
    obtain ⟨r, hr, rfl⟩ := Option.map_eq_some_iff.mp hstep
    rcases Replica.run_cases hr with ⟨co, co', coordinators, datastore, -, -, rfl⟩ |
      ⟨a, op, key, uid, -, -, rfl⟩ | ⟨a, b, co, -, -, -, -, rfl⟩ <;> exact hsame rfl
  | send a x =>
    obtain ⟨⟨r, m⟩, hr, rfl⟩ := Option.map_eq_some_iff.mp hstep
    obtain ⟨co, -, -, -, -, rfl⟩ := Replica.send_eq_some hr
    exact hsame rfl
  | receive a x m =>
    obtain ⟨r, hr, rfl⟩ := Option.map_eq_some_iff.mp hstep
    exact hsame (congrFun (Replica.receive_handler hr) conn)
  | count a x =>
    obtain ⟨r, hr, rfl⟩ := Option.map_eq_some_iff.mp hstep
    obtain ⟨co, -, hr⟩ := Option.bind_eq_some_iff.mp hr
    split_ifs at hr
    cases hr
    exact hsame rfl
  | hear m =>
    obtain ⟨r, hr, rfl⟩ := Option.map_eq_some_iff.mp hstep
    exact hsame (congrFun (Replica.manageReply_handler hr) conn)
  | deliver conn' m =>
    obtain ⟨r, hr, rfl⟩ := Option.map_eq_some_iff.mp hstep
    exact Replica.told_deliver he hr
  | proceed conn' =>
    obtain ⟨⟨r, m⟩, hr, rfl⟩ := Option.map_eq_some_iff.mp hstep
    obtain ⟨_, _, _, _, -, -, rfl⟩ := Replica.proceed_cases hr
    exact hsame (Replica.setHandler_handler_of_ne he _)
  | wake conn' =>
    cases hstep
    exact hsame (Replica.wake_handler_of_ne he)
  | hangup conn' =>
    obtain ⟨r, hr, rfl⟩ := Option.map_eq_some_iff.mp hstep
    exact hsame (Replica.hangup_handler_of_ne he hr)
  | sync | getStatus | update =>
    simp only [step] at hstep
    split at hstep <;> cases hstep
    exact hsame rfl
  | collect t =>
    simp only [step] at hstep
    split at hstep
    · cases hstep
      exact hsame rfl
    · obtain ⟨value, -, rfl⟩ := Option.map_eq_some_iff.mp hstep
      exact hsame rfl
    · cases hstep
  | tryUpdate t =>
    simp only [step] at hstep
    split at hstep <;> cases hstep <;> exact hsame rfl

/-- What a step does to a thread inside `Prepare::manage`. -/
theorem managing_cases (hstep : step settings s e = some s')
    (hmanaging : (s.replica.handler conn).managing) :
    (¬ e.IsOf conn ∧
      s'.replica.handler conn = (s.replica.handler conn).mapParticipant (s.tell conn e)) ∨
    (e = .proceed conn ∧ ∃ hd' sent participants datastore,
      HandlerStep s.replica conn (s.replica.handler conn) hd' sent participants datastore ∧
        s'.replica.handler conn = hd' ∧ s'.replica.datastore = datastore) ∨
    (e.IsOf conn ∧ e ≠ .proceed conn ∧ e ≠ .hangup conn ∧
      s'.replica.datastore = s.replica.datastore ∧
      (s'.replica.handler conn = (s.replica.handler conn).mapParticipant (s.tell conn e) ∨
        ∃ p, s.replica.handler conn = .deciding p ∧
          s'.replica.handler conn = .decided (s.tell conn e p))) ∨
    (e = .hangup conn ∧ s'.replica.datastore = s.replica.datastore ∧ ∃ p,
      s.replica.handler conn = .deciding p ∧ s'.replica.handler conn = .leaked p) := by
  by_cases he : e.IsOf conn
  · right
    cases e with
    | deliver conn' m =>
      have hconn : conn' = conn := he
      subst hconn
      obtain ⟨r, hr, rfl⟩ := Option.map_eq_some_iff.mp hstep
      obtain ⟨hdatastore, hwoken⟩ := Replica.deliver_managing hmanaging hr
      exact .inr (.inl ⟨he, nofun, nofun, hdatastore, .inr hwoken⟩)
    | proceed conn' =>
      have hconn : conn' = conn := he
      subst hconn
      obtain ⟨⟨r, m⟩, hr, rfl⟩ := Option.map_eq_some_iff.mp hstep
      obtain ⟨hd, hd', participants, datastore, rfl, hproceed, rfl⟩ := Replica.proceed_cases hr
      exact .inl ⟨rfl, hd', m, participants, datastore, hproceed, update_self .., rfl⟩
    | wake conn' =>
      have hconn : conn' = conn := he
      subst hconn
      cases hstep
      refine .inr (.inl ⟨he, nofun, nofun, ?_⟩)
      rcases s.replica.wake_cases conn' with heq | ⟨p, hp, heq⟩
      · refine ⟨congrArg Replica.datastore heq, .inl ?_⟩
        exact (congrFun (congrArg Replica.handler heq) _).trans (Handler.mapParticipant_id _).symm
      · refine ⟨(congrArg Replica.datastore heq :), .inr ⟨p, hp, ?_⟩⟩
        exact (congrFun (congrArg Replica.handler heq) _).trans (update_self ..)
    | hangup conn' =>
      have hconn : conn' = conn := he
      subst hconn
      obtain ⟨r, hr, rfl⟩ := Option.map_eq_some_iff.mp hstep
      refine .inr (.inr ⟨rfl, ?_⟩)
      cases hh : s.replica.handler conn' with
      | deciding p =>
        simp only [Replica.hangup, hh, Option.some.injEq] at hr
        subst hr
        exact ⟨rfl, p, rfl, update_self ..⟩
      | idle =>
        rw [hh] at hmanaging
        cases hmanaging
      | _ => simp [Replica.hangup, hh] at hr
    | _ => exact absurd he id
  · exact .inl ⟨he, told_of_step hstep he⟩

/-! ## During the call -/

/-- Where the thread stands once it has locked the key. -/
def Locked (owner : Option ℤ) : Handler Key Value → Prop
  | .registering _ | .refusing _ | .preparing _ => False
  | .idle => owner = none
  | _ => True

/-- What holds in a call of `Prepare::manage` and at its end. -/
structure Progress (conn : Peer × ℕ) (uid : ℤ) (key : Key)
    (trace : List (Taken (Serving Peer Key Value) (Event Peer Key Value)))
    (s : Serving Peer Key Value) : Prop where
  served : s.replica.Served
  informed : ∀ p, (s.replica.handler conn).participant = some p → Informed conn uid key trace p
  ended : (s.replica.handler conn).managing ∨ s.replica.handler conn = .idle ∨
    ∃ p, s.replica.handler conn = .leaked p
  thrown : (∃ t ∈ trace, t.event = .hangup conn) ↔ ∃ p, s.replica.handler conn = .leaked p
  locked : (∃ t ∈ trace, Locks conn uid key t) →
    Locked (s.replica.datastore.owner2pc key) (s.replica.handler conn)
  kept : ∀ earlier t later, trace = earlier ++ t :: later → t.event.IsOf conn →
    (Keeps key t ↔ ¬ Overwrites conn uid key earlier t)

omit [Inhabited Value] in
theorem keeps_of_datastore_eq (h : s'.replica.datastore.datastore = s.replica.datastore.datastore)
    (hnot : ¬ Overwrites conn uid key trace ⟨s, e, s'⟩) :
    Keeps key ⟨s, e, s'⟩ ↔ ¬ Overwrites conn uid key trace ⟨s, e, s'⟩ :=
  iff_of_true (congrFun h key) hnot

/-- The thread changes the entry by its `commit` only. -/
theorem keeps_iff (hstep : step settings s e = some s')
    (hmanaging : (s.replica.handler conn).managing)
    (hinformed : ∀ p, (s.replica.handler conn).participant = some p →
      Informed conn uid key trace p)
    (hown : e.IsOf conn) :
    Keeps key ⟨s, e, s'⟩ ↔ ¬ Overwrites conn uid key trace ⟨s, e, s'⟩ := by
  rcases managing_cases hstep hmanaging with ⟨hother, -⟩ |
    ⟨rfl, hd', sent, participants, datastore, hproceed, -, hdatastore⟩ |
    ⟨-, hne, -, hdatastore, -⟩ | ⟨rfl, hdatastore, -⟩
  · exact absurd hown hother
  · generalize hhd : s.replica.handler conn = hd at hproceed
    -- an overwriting step is a `commit`
    have hunresumed : (∀ p, hd ≠ .decided p) →
        ¬ Overwrites conn uid key trace ⟨s, .proceed conn, s'⟩ := by
      rintro hne ⟨⟨-, p, hp⟩, -⟩
      exact hne p (hhd.symm.trans hp)
    cases hproceed with
    | @commit p unflagged =>
      obtain ⟨rfl, rfl, habort, htimestamp⟩ := hinformed p (by rw [hhd]; rfl)
      have hnone : ∀ u ∈ trace, ¬ Aborts conn p.uid p.key u := fun u hu haborts => by
        rw [habort.mpr ⟨u, hu, haborts⟩] at unflagged
        cases unflagged
      have hoverwrites : Overwrites conn p.uid p.key trace ⟨s, .proceed conn, s'⟩ ↔
          ∀ value version, s.replica.datastore.datastore p.key = some (value, version) →
            version < p.timestamp := by
        rw [htimestamp]
        exact ⟨fun h => h.2.2, fun h => ⟨⟨rfl, p, hhd⟩, hnone, h⟩⟩
      rw [hoverwrites, Keeps, hdatastore]
      exact DatastoreManager.commit_keeps_iff _ _ _ _
    | @abort p datastore' flagged aborted =>
      refine keeps_of_datastore_eq ?_ fun h => ?_
      · rw [hdatastore]
        exact (DatastoreManager.abort_eq_some aborted).1
      · obtain ⟨u, hu, haborts⟩ := (hinformed p (by rw [hhd]; rfl)).abort_iff.mp flagged
        exact h.2.1 u hu haborts
    | lock prepared =>
      refine keeps_of_datastore_eq ?_ (hunresumed nofun)
      rw [hdatastore]
      exact (DatastoreManager.prepare_eq_some prepared).2.1
    | _ => exact keeps_of_datastore_eq (by rw [hdatastore]) (hunresumed nofun)
  · exact keeps_of_datastore_eq (by rw [hdatastore]) fun h => hne h.1.1
  · exact keeps_of_datastore_eq (by rw [hdatastore]) fun h => by cases h.1.1

omit [DecidableEq Key] [DecidableEq Peer] [Inhabited Value] in
theorem locked_mapParticipant {f : Participant Key Value → Participant Key Value}
    {h : Handler Key Value} {owner owner' : Option ℤ} (hmanaging : h.managing)
    (hlocked : Locked owner h) : Locked owner' (h.mapParticipant f) := by
  cases h <;> first | exact hlocked | cases hmanaging

/-- The thread locks its key on the way to its vote, and only then goes on from there. -/
theorem locked_step (hstep : step settings s e = some s')
    (hmanaging : (s.replica.handler conn).managing) (hserved : s.replica.Served)
    (hinformed : ∀ p, (s.replica.handler conn).participant = some p →
      Informed conn uid key trace p)
    (hlocked : (∃ t ∈ trace, Locks conn uid key t) →
      Locked (s.replica.datastore.owner2pc key) (s.replica.handler conn))
    (h : ∃ t ∈ trace ++ [⟨s, e, s'⟩], Locks conn uid key t) :
    Locked (s'.replica.datastore.owner2pc key) (s'.replica.handler conn) := by
  have hcases : Locked (s.replica.datastore.owner2pc key) (s.replica.handler conn) ∨
      Locks conn uid key ⟨s, e, s'⟩ := by
    obtain ⟨t, ht, hlocks⟩ := h
    rcases List.mem_append.mp ht with ht | ht
    · exact .inl (hlocked ⟨t, ht, hlocks⟩)
    · exact .inr (List.mem_singleton.mp ht ▸ hlocks)
  rcases managing_cases hstep hmanaging with ⟨hother, hhandler⟩ |
    ⟨-, hd', sent, participants, datastore, hproceed, hhandler, hdatastore⟩ |
    ⟨-, hne, -, -, hhandler | ⟨p, -, hhandler⟩⟩ | ⟨-, -, p, -, hhandler⟩
  · rw [hhandler]
    refine locked_mapParticipant hmanaging (hcases.resolve_right fun hlocks => hother ?_)
    have he : e = .proceed conn := hlocks.1
    rw [he]
    rfl
  · -- without a change of the locks there was none
    have hbefore : datastore = s.replica.datastore →
        Locked (s.replica.datastore.owner2pc key) (s.replica.handler conn) := by
      refine fun heq => hcases.resolve_right fun hlocks => ?_
      have hboth := hlocks.2.1.symm.trans
        ((congrArg (fun ds => ds.owner2pc key) (hdatastore.trans heq)).symm.trans hlocks.2.2)
      cases hboth
    rw [hhandler]
    generalize hhd : s.replica.handler conn = hd at hproceed hbefore
    cases hproceed with
    | enter | turnAway | refuse => exact (hbefore rfl).elim
    | @leave p =>
      obtain rfl := (hinformed p (by rw [hhd]; rfl)).key_eq
      rw [hdatastore]
      exact hserved.ok.consistent.owner_eq_none (h := .inr conn)
        (by rw [Replica.occupied, hhd]; rfl) (by rw [Replica.held, hhd]; rfl)
    | read | reply =>
      rw [hhd] at hmanaging
      cases hmanaging
    | _ => trivial
  · rw [hhandler]
    exact locked_mapParticipant hmanaging (hcases.resolve_right fun hlocks => hne hlocks.1)
  · rw [hhandler]
    trivial
  · rw [hhandler]
    trivial

/-- The thread's own step: a lock sets the version, and nothing else is new. -/
theorem informed_proceed {hd hd' : Handler Key Value} {sent : Option (Message Key Value)}
    {participants : Key → Option (Peer × ℕ)} {datastore : DatastoreManager Key Value}
    (hproceed : HandlerStep s.replica conn hd hd' sent participants datastore)
    (hdatastore : s'.replica.datastore = datastore)
    (hinformed : ∀ p, hd.participant = some p → Informed conn uid key trace p) :
    ∀ p, hd'.participant = some p →
      Informed conn uid key (trace ++ [⟨s, .proceed conn, s'⟩]) p := by
  have hsame : ∀ p, hd.participant = some p →
      (datastore.owner2pc key = some uid → s.replica.datastore.owner2pc key = some uid) →
      Informed conn uid key (trace ++ [⟨s, .proceed conn, s'⟩]) p := by
    refine fun p hp howner => (hinformed p hp).of_proceed fun ⟨_, hnone, hsome⟩ => ?_
    rw [hdatastore] at hsome
    cases hnone.symm.trans (howner hsome)
  cases hproceed with
  | @lock p _ timestamp prepared =>
    rintro _ ⟨⟩
    obtain ⟨rfl, rfl, habort, -⟩ := hinformed p rfl
    obtain ⟨hnone, -, rfl, howner⟩ := DatastoreManager.prepare_eq_some prepared
    refine ⟨rfl, rfl, ?_, ?_⟩
    · rw [exists_aborts_concat, habort, or_iff_left]
      rintro ⟨-, _, ⟨⟩⟩
    · rw [heardVersion_concat]
      refine (if_pos ⟨rfl, hnone, ?_⟩).symm
      change s'.replica.datastore.owner2pc p.key = some p.uid
      rw [hdatastore, howner, update_self]
  | @commit p unflagged =>
    rintro _ ⟨⟩
    obtain ⟨rfl, -⟩ := hinformed p rfl
    exact hsame p rfl fun h => by simp at h
  | @abort p _ flagged aborted =>
    rintro _ ⟨⟩
    obtain ⟨rfl, -⟩ := hinformed p rfl
    obtain ⟨-, owner, -, howner⟩ := DatastoreManager.abort_eq_some aborted
    refine hsame p rfl fun h => ?_
    rw [howner] at h
    split_ifs at h
    · simp at h
    · exact h
  | refuse | leave | read | reply => nofun
  | _ => exact fun p hp => hsame p hp id

/-- The participant of the call is told of every message that names it. -/
theorem informed_step (hstep : step settings s e = some s')
    (hmanaging : (s.replica.handler conn).managing) (hserved : s.replica.Served)
    (hinformed : ∀ p, (s.replica.handler conn).participant = some p →
      Informed conn uid key trace p) :
    ∀ p, (s'.replica.handler conn).participant = some p →
      Informed conn uid key (trace ++ [⟨s, e, s'⟩]) p := by
  have hregistered : ∀ key', s.replica.participants key' = some conn → key' = key := by
    intro key' hkey'
    obtain ⟨p, hp, rfl⟩ := Option.map_eq_some_iff.mp (hserved.ok.participants_eq.mp hkey')
    exact (hinformed p (Handler.registered_eq_some hp)).key_eq
  have htold : e ≠ .proceed conn →
      s'.replica.handler conn = (s.replica.handler conn).mapParticipant (s.tell conn e) →
      ∀ p, (s'.replica.handler conn).participant = some p →
        Informed conn uid key (trace ++ [⟨s, e, s'⟩]) p := by
    intro hne hhandler p' hp'
    rw [hhandler, Handler.participant_mapParticipant] at hp'
    obtain ⟨p, hp, rfl⟩ := Option.map_eq_some_iff.mp hp'
    exact (hinformed p hp).tell hregistered hne
  rcases managing_cases hstep hmanaging with ⟨hother, hhandler⟩ |
    ⟨rfl, hd', sent, participants, datastore, hproceed, hhandler, hdatastore⟩ |
    ⟨-, hne, -, -, hhandler | ⟨p, hp, hhandler⟩⟩ | ⟨rfl, -, p, hp, hhandler⟩
  · exact htold (fun he => hother (by rw [he]; rfl)) hhandler
  · rw [hhandler]
    exact informed_proceed hproceed hdatastore hinformed
  · exact htold hne hhandler
  · rw [hhandler]
    rintro _ ⟨⟩
    exact (hinformed p (by rw [hp]; rfl)).tell hregistered hne
  · rw [hhandler]
    rintro _ ⟨⟩
    exact (hinformed p (by rw [hp]; rfl)).tell hregistered nofun

/-- The thread stays in the call, or the call ends in one of its two ways. -/
theorem ended_step (hstep : step settings s e = some s')
    (hmanaging : (s.replica.handler conn).managing) :
    (s'.replica.handler conn).managing ∨ s'.replica.handler conn = .idle ∨
      ∃ p, s'.replica.handler conn = .leaked p := by
  rcases managing_cases hstep hmanaging with ⟨-, hhandler⟩ |
    ⟨-, hd', sent, participants, datastore, hproceed, hhandler, -⟩ |
    ⟨-, -, -, -, hhandler | ⟨p, -, hhandler⟩⟩ | ⟨-, -, p, -, hhandler⟩
  · exact .inl (by rw [hhandler, Handler.managing_mapParticipant, hmanaging])
  · rw [hhandler]
    generalize s.replica.handler conn = hd at hproceed hmanaging
    cases hproceed with
    | refuse | leave => exact .inr (.inl rfl)
    | read | reply => cases hmanaging
    | _ => exact .inl rfl
  · exact .inl (by rw [hhandler, Handler.managing_mapParticipant, hmanaging])
  · exact .inl (by rw [hhandler]; rfl)
  · exact .inr (.inr ⟨p, hhandler⟩)

/-- An exception is what leaves the participant registered. -/
theorem thrown_step (hstep : step settings s e = some s')
    (hmanaging : (s.replica.handler conn).managing) :
    e = .hangup conn ↔ ∃ p, s'.replica.handler conn = .leaked p := by
  have htold : s'.replica.handler conn = (s.replica.handler conn).mapParticipant (s.tell conn e) →
      ¬ ∃ p, s'.replica.handler conn = .leaked p := by
    rintro hhandler ⟨p, hp⟩
    have hmanaging' := Handler.managing_mapParticipant (f := s.tell conn e) (s.replica.handler conn)
    rw [← hhandler, hp, hmanaging] at hmanaging'
    cases hmanaging'
  rcases managing_cases hstep hmanaging with ⟨hother, hhandler⟩ |
    ⟨rfl, hd', sent, participants, datastore, hproceed, hhandler, -⟩ |
    ⟨-, -, hne, -, hhandler | ⟨p, -, hhandler⟩⟩ | ⟨rfl, -, p, -, hhandler⟩
  · exact iff_of_false (fun he => hother (by rw [he]; rfl)) (htold hhandler)
  · refine iff_of_false nofun fun ⟨p, hp⟩ => ?_
    rw [hhandler] at hp
    subst hp
    generalize s.replica.handler conn = hd at hproceed
    cases hproceed
  · exact iff_of_false hne (htold hhandler)
  · refine iff_of_false hne fun ⟨p, hp⟩ => ?_
    cases hhandler.symm.trans hp
  · exact iff_of_true rfl ⟨p, hhandler⟩

theorem Progress.step (h : Progress conn uid key trace s)
    (hmanaging : (s.replica.handler conn).managing) (hstep : step settings s e = some s') :
    Progress conn uid key (trace ++ [⟨s, e, s'⟩]) s' where
  served := served_step h.served hstep
  informed := informed_step hstep hmanaging h.served h.informed
  ended := ended_step hstep hmanaging
  thrown := by
    -- the call was not over before, so only this step can have been the exception
    have hbefore : ¬ ∃ t ∈ trace, t.event = .hangup conn := fun hthrown => by
      obtain ⟨p, hp⟩ := h.thrown.mp hthrown
      rw [hp] at hmanaging
      cases hmanaging
    rw [← thrown_step hstep hmanaging]
    simpa using fun t ht heq => absurd ⟨t, ht, heq⟩ hbefore
  locked := locked_step hstep hmanaging h.served h.informed h.locked
  kept := by
    intro earlier t later heq hown
    rcases List.eq_nil_or_concat later with rfl | ⟨later, u, rfl⟩
    · obtain ⟨rfl, hlast⟩ := List.append_inj' heq rfl
      cases hlast
      exact keeps_iff hstep hmanaging h.informed hown
    · rw [List.concat_eq_append, ← List.cons_append, ← List.append_assoc] at heq
      exact h.kept earlier t later (List.append_inj' heq rfl).1 hown

/-! ## The whole call -/

variable {value : Value} {contents : Key → Option (Value × ℤ)} {replicaId : ℤ}
  {s₀ : Serving Peer Key Value}

theorem progress_of_deliver (h : s.replica.Served)
    (hstep : step settings s (.deliver conn (.prepare uid key value)) = some s') :
    Progress conn uid key [] s' := by
  have hserved := served_step h hstep
  obtain ⟨r, hr, rfl⟩ := Option.map_eq_some_iff.mp hstep
  cases hh : s.replica.handler conn with
  | idle =>
    simp only [Replica.deliver, hh, Option.some.injEq] at hr
    subst hr
    have hhandler : (s.replica.setHandler conn
        (.registering { uid := uid, key := key, value := value })).handler conn =
        .registering { uid := uid, key := key, value := value } := update_self ..
    refine ⟨hserved, ?_, .inl ?_, iff_of_false (by simp) ?_, by simp, by simp⟩
    · rintro p hp
      rw [hhandler] at hp
      cases hp
      exact ⟨rfl, rfl, by simp, rfl⟩
    · rw [hhandler]
      rfl
    · rintro ⟨p, hp⟩
      rw [hhandler] at hp
      cases hp
  | _ => simp [Replica.deliver, hh] at hr

theorem PrepareManage.progress (hs₀ : s₀.replica.Served)
    (h : PrepareManage settings conn uid key value s₀ trace s) :
    Progress conn uid key trace s := by
  obtain ⟨s₁, hdeliver, hduring, -⟩ := h
  exact hduring.preserves (P := Progress conn uid key)
    (fun _ _ _ _ hprogress hmanaging hstep => hprogress.step hmanaging hstep)
    (progress_of_deliver hs₀ hdeliver)

/-- A call leaves nothing behind exactly when its wait ends by no exception and, without the
`GLOBAL_COMMIT` of its transaction, the thread does not go on with no `GLOBAL_ABORT` and the key
absent or older than the version it has heard of. -/
theorem clean_iff (hs₀ : Reachable settings contents replicaId s₀)
    (h : PrepareManage settings conn uid key value s₀ trace s) :
    Clean conn uid key trace s ↔ (∀ t ∈ trace, t.event ≠ .hangup conn) ∧
      ((∀ t ∈ trace, ¬ Decides conn uid key t) → ∀ earlier t later,
        trace = earlier ++ t :: later → ¬ Overwrites conn uid key earlier t) := by
  have hprogress := h.progress hs₀.served
  obtain ⟨-, -, -, hend⟩ := h
  have hended : s.replica.handler conn = .idle ∨ ∃ p, s.replica.handler conn = .leaked p :=
    hprogress.ended.resolve_left (by simp [hend])
  constructor
  · intro hclean
    constructor
    · intro t ht hhangup
      obtain ⟨p, hp⟩ := hprogress.thrown.mp ⟨t, ht, hhangup⟩
      obtain rfl := (hprogress.informed p (by rw [hp]; rfl)).key_eq
      exact hclean.unregistered (hprogress.served.participants_eq (by rw [hp]; rfl))
    · intro hdecides earlier t later heq hoverwrites
      have hown : t.event.IsOf conn := by
        rw [hoverwrites.1.1]
        rfl
      have ht : t ∈ trace := by simp [heq]
      have hkeeps := hclean.unchanged hdecides t ht hown
      exact (hprogress.kept earlier t later heq hown).mp hkeeps hoverwrites
  · rintro ⟨hhangup, hoverwrites⟩
    -- the thread is back in `startReceiving`, with neither a lock nor a seat
    have hidle : s.replica.handler conn = .idle := hended.resolve_right fun hleaked => by
      obtain ⟨t, ht, hthrown⟩ := hprogress.thrown.mpr hleaked
      exact hhangup t ht hthrown
    refine ⟨fun hlocks => ?_, fun hregistered => ?_, fun hdecides t ht hown => ?_⟩
    · have hlocked := hprogress.locked hlocks
      rw [hidle] at hlocked
      rw [hlocked]
      nofun
    · have hseat := hprogress.served.ok.participants_eq.mp hregistered
      rw [hidle] at hseat
      cases hseat
    · obtain ⟨earlier, later, heq⟩ := List.append_of_mem ht
      exact (hprogress.kept earlier t later heq hown).mpr (hoverwrites hdecides earlier t later heq)

/-! ## Runs -/

theorem exists_prepareManage {s₁ : Serving Peer Key Value} {es : List (Event Peer Key Value)}
    (hdeliver : step settings s₀ (.deliver conn (.prepare uid key value)) = some s₁)
    (hexec : exec (step settings) (fun s _ => (s.replica.handler conn).managing) es s₁ = some s)
    (hend : (s.replica.handler conn).managing = false) :
    ∃ trace, trace.map Taken.event = es ∧ PrepareManage settings conn uid key value s₀ trace s := by
  have hnone : During (step settings) (fun s => (s.replica.handler conn).managing) s₁ [] s₁ := .refl
  obtain ⟨trace, hevents, hduring⟩ := hnone.exec hexec
  exact ⟨trace, hevents, s₁, hdeliver, hduring, hend⟩

/-- The state in which the examples begin, of a replica that stores nothing. -/
def fresh : Serving ℕ Text Text := initial (fun _ => none) 0

/-- A transaction that is committed. -/
theorem clean_iff_committed : ∃ trace s,
    PrepareManage ⟨[1], 1, 2, 1⟩ (1, 0) 7 ['k'] ['v'] fresh trace s ∧
      s.replica.datastore.datastore ['k'] = some (['v'], 1) ∧ Clean (1, 0) 7 ['k'] trace s := by
  obtain ⟨s₁, hdeliver⟩ : ∃ s₁, step ⟨[1], 1, 2, 1⟩ fresh
    (.deliver (1, 0) (.prepare 7 ['k'] ['v'])) = some s₁ := ⟨_, rfl⟩
  obtain ⟨s, hexec⟩ : ∃ s, exec (step ⟨[1], 1, 2, 1⟩)
    (fun s _ => (s.replica.handler (1, 0)).managing)
    [.proceed (1, 0), .proceed (1, 0), .proceed (1, 0),
      .deliver (1, 0) (.globalCommit 7 ['k'] ['v'] 1), .proceed (1, 0), .proceed (1, 0)] s₁ =
      some s := by
    cases hdeliver
    exact ⟨_, rfl⟩
  obtain ⟨trace, hevents, hcall⟩ := exists_prepareManage hdeliver hexec (by
    cases hdeliver
    cases hexec
    rfl)
  have hmem : ∀ e, (∃ t ∈ trace, t.event = e) ↔ e ∈ trace.map Taken.event := fun e => by simp
  refine ⟨trace, s, hcall, ?_, (clean_iff (.refl _) hcall).mpr ⟨?_, ?_⟩⟩
  · cases hdeliver
    cases hexec
    rfl
  · intro t ht hhangup
    have := (hmem _).mp ⟨t, ht, hhangup⟩
    simp [hevents] at this
  · intro hdecides
    obtain ⟨t, ht, hevent⟩ :=
      (hmem (.deliver (1, 0) (.globalCommit 7 ['k'] ['v'] 1))).mpr (by simp [hevents])
    exact absurd ⟨['v'], 1, hevent⟩ (hdecides t ht)

/-- The connection closes while the decision is awaited. -/
theorem prepareManage_leaks : ∃ trace s,
    PrepareManage ⟨[1], 1, 2, 1⟩ (1, 0) 7 ['k'] ['v'] fresh trace s ∧
      s.replica.datastore.owner2pc ['k'] = some 7 ∧
      s.replica.participants ['k'] = some (1, 0) ∧ ¬ Clean (1, 0) 7 ['k'] trace s := by
  obtain ⟨s₁, hdeliver⟩ : ∃ s₁, step ⟨[1], 1, 2, 1⟩ fresh
    (.deliver (1, 0) (.prepare 7 ['k'] ['v'])) = some s₁ := ⟨_, rfl⟩
  obtain ⟨s, hexec⟩ : ∃ s, exec (step ⟨[1], 1, 2, 1⟩)
    (fun s _ => (s.replica.handler (1, 0)).managing)
    [.proceed (1, 0), .proceed (1, 0), .proceed (1, 0), .hangup (1, 0)] s₁ = some s := by
    cases hdeliver
    exact ⟨_, rfl⟩
  obtain ⟨trace, -, hcall⟩ := exists_prepareManage hdeliver hexec (by
    cases hdeliver
    cases hexec
    rfl)
  have hregistered : s.replica.participants ['k'] = some (1, 0) := by
    cases hdeliver
    cases hexec
    rfl
  refine ⟨trace, s, hcall, ?_, hregistered, fun h => h.unregistered hregistered⟩
  cases hdeliver
  cases hexec
  rfl

end Serving
end LeaderlessDatastore
