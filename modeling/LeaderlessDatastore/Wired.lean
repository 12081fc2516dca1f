import LeaderlessDatastore.Contents
import LeaderlessDatastore.Wire

/-!
# The cluster over byte streams

The same replicas, with the connections between them as they are: `send` writes the text of a
message, `receive` finds chunks of bytes.  As long as the chunks are gentle, every run is a run
of the cluster whose connections carry whole messages.
-/

namespace LeaderlessDatastore

open Function

/-! ## The system -/

/-- The thread of `sendToReplicas` that waits for `x` comes back from its `receive`; an exception
is caught there and leaves the reply uncounted. -/
def Replica.answered {Peer Key Value : Type} [DecidableEq Peer] (r : Replica Peer Key Value) (a : ℕ)
    (x : Peer) (counted : ℤ) : Option (Replica Peer Key Value) := do
  let co ← r.attemptAt a .exchange
  if x ∈ co.quorum ∧ co.sender x = .waiting then
    some (r.setAttempt a { co with
      replies := co.replies + counted, sender := update co.sender x .finished })
  else none

/-- The thread that waits for `x` after one pass of its `receive`. -/
def Replica.hears {Peer : Type} [DecidableEq Peer] (r : Replica Peer Text Text) (a : ℕ) (x : Peer)
    (partialMsg : Text) : Option Text → Option (Replica Peer Text Text)
  | some text =>
    match ServerMessage.toMessage text with
    | .ok m => r.receive a x m
    | .error _ => r.answered a x 0
  -- the loop goes on, or `receive` has returned with nothing
  | none => if partialMsg ≠ [] then some r else r.answered a x 1

/-- The thread of an accepted connection is in `receive`. -/
def Handler.receiving {Key Value : Type} : Handler Key Value → Bool
  | .idle | .deciding _ => true
  | _ => false

/-- The thread of the accepted connection after one pass of its `receive`. -/
def Replica.reads {Peer : Type} [DecidableEq Peer] (r : Replica Peer Text Text) (conn : Peer × ℕ)
    (partialMsg : Text) : Option Text → Option (Replica Peer Text Text)
  | some text =>
    match ServerMessage.toMessage text with
    | .ok m => r.deliver conn m
    -- what is not a `runtime_error` ends the process
    | .error thrown => if thrown.isRuntimeError then r.hangup conn else none
  | none => some (if partialMsg ≠ [] then r else r.wake conn)

structure Wired (n : ℕ) where
  replica : Fin n → Replica (Fin n) Text Text
  down : Link n → Wire
  up : Link n → Wire

namespace Wired

variable {n : ℕ}

/-- The events of the cluster; a receiving thread finds at most `k` bytes. -/
inductive Event (n : ℕ) where
  | run (c : Fin n) (action : Replica.Action (Fin n) Text Text)
  | send (ℓ : Link n)
  | reply (ℓ : Link n) (k : ℕ)
  | deliver (ℓ : Link n) (k : ℕ)
  | proceed (ℓ : Link n)
  | hangup (ℓ : Link n)

def setReplica (w : Wired n) (c : Fin n) (r : Replica (Fin n) Text Text) : Wired n :=
  { w with replica := update w.replica c r }

def closed (w : Wired n) (ℓ : Link n) : Bool :=
  match (w.replica ℓ.coordinator).attempt ℓ.attempt with
  | some co => co.closed
  | none => false

def step (settings : Fin n → Settings (Fin n)) (w : Wired n) : Event n → Option (Wired n)
  | .run c action => ((w.replica c).run (settings c) action).map fun r => w.setReplica c r
  | .send ℓ =>
    ((w.replica ℓ.coordinator).send ℓ.attempt ℓ.peer).map fun (r, m) =>
      { w.setReplica ℓ.coordinator r with
        down := update w.down ℓ ((w.down ℓ).send m.toString) }
  | .reply ℓ k =>
    if ((w.replica ℓ.coordinator).answered ℓ.attempt ℓ.peer 0).isSome then
      ((w.up ℓ).pass k).bind fun (wire, text) =>
        ((w.replica ℓ.coordinator).hears ℓ.attempt ℓ.peer wire.partialMsg text).map fun r =>
          { w.setReplica ℓ.coordinator r with up := update w.up ℓ wire }
    else none
  | .deliver ℓ k =>
    if ((w.replica ℓ.peer).handler ℓ.source).receiving then
      ((w.down ℓ).pass k).bind fun (wire, text) =>
        ((w.replica ℓ.peer).reads ℓ.source wire.partialMsg text).map fun r =>
          { w.setReplica ℓ.peer r with down := update w.down ℓ wire }
    else none
  | .proceed ℓ =>
    ((w.replica ℓ.peer).proceed ℓ.source).map fun (r, m) =>
      { w.setReplica ℓ.peer r with
        up := update w.up ℓ (m.elim (w.up ℓ) fun m => (w.up ℓ).send m.toString) }
  | .hangup ℓ =>
    if (w.down ℓ).bufferContent = [] ∧ (w.down ℓ).flight = [] ∧ w.closed ℓ then
      ((w.replica ℓ.peer).hangup ℓ.source).map fun r => w.setReplica ℓ.peer r
    else none

def initial : Wired n where
  replica := fun c => .started (fun _ => none) c
  down := fun _ => {}
  up := fun _ => {}

/-- What the requests bring in can be sent, and the chunks are gentle. -/
def Gentle (w : Wired n) : Event n → Prop
  | .run c action => (w.replica c).Moderate SendableKey SendableValue action
  | .reply ℓ k => (w.up ℓ).Gentle k
  | .deliver ℓ k => (w.down ℓ).Gentle k
  | _ => True

/-- The text of a `GLOBAL_ABORT` is about to be handed over at a replica whose registered
participant for the key has the same id but belongs to another attempt. -/
def ForeignAbort (w : Wired n) (e : Event n) : Prop :=
  ∃ ℓ k wire string uid key conn p, e = .deliver ℓ k ∧
    (w.down ℓ).pass k = some (wire, some string) ∧
    ServerMessage.toMessage string = .ok (.globalAbort uid key) ∧
    (w.replica ℓ.peer).participants key = some conn ∧ conn ≠ ℓ.source ∧
    ((w.replica ℓ.peer).handler conn).registered = some p ∧ p.uid = uid

/-! ## Refinement -/

/-- The streams carry the messages of the cluster. -/
structure Refines (w : Wired n) (s : Cluster n Text Text) : Prop where
  replica : w.replica = s.replica
  down : ∀ ℓ, (w.down ℓ).Carries ((s.down ℓ).map Message.toString)
  up : ∀ ℓ, (w.up ℓ).Carries ((s.up ℓ).map Message.toString)

theorem Refines.of_initial : Refines (initial : Wired n) (Cluster.initial fun _ _ => none) :=
  ⟨rfl, fun _ => .empty, fun _ => .empty⟩

theorem Refines.closed {w : Wired n} {s : Cluster n Text Text} (h : Refines w s) (ℓ : Link n) :
    w.closed ℓ = s.closed ℓ := by
  unfold Wired.closed Cluster.closed
  rw [h.replica]
  split <;> simp_all

theorem carries_update {wires : Link n → Wire} {messages : Link n → List (Message Text Text)}
    (h : ∀ ℓ, (wires ℓ).Carries ((messages ℓ).map Message.toString)) {ℓ : Link n} {wire : Wire}
    {new : List (Message Text Text)} (hnew : wire.Carries (new.map Message.toString))
    (ℓ' : Link n) :
    (update wires ℓ wire ℓ').Carries ((update messages ℓ new ℓ').map Message.toString) := by
  by_cases hℓ : ℓ' = ℓ
  · subst hℓ
    simpa using hnew
  · simpa [hℓ] using h ℓ'

/-- A pass hands over nothing, or the text of the first message. -/
theorem carries_pass {wire wire' : Wire} {messages : List (Message Text Text)} {k : ℕ}
    {text : Option Text} (h : wire.Carries (messages.map Message.toString))
    (hreadable : ∀ m ∈ messages, m.Readable) (hgentle : wire.Gentle k)
    (hpass : wire.pass k = some (wire', text)) :
    text = none ∧ wire'.partialMsg ≠ [] ∧ wire'.Carries (messages.map Message.toString) ∨
      ∃ m rest string, messages = m :: rest ∧ text = some string ∧
        ServerMessage.toMessage string = .ok m ∧ wire'.Carries (rest.map Message.toString) := by
  rcases h.pass hgentle hpass with hpart | ⟨body, bodies, hbodies, rfl, -, hcarries⟩
  · exact .inl hpart
  · obtain ⟨m, rest, rfl, rfl, rfl⟩ := List.map_eq_cons_iff.mp hbodies
    exact .inr ⟨m, rest, _, rfl, rfl, (hreadable m List.mem_cons_self).2, hcarries⟩

variable {config : Fin n → Settings (Fin n)} {w w' : Wired n} {s : Cluster n Text Text}

/-- A thread that goes on reading changes nothing. -/
theorem setReplica_self (w : Wired n) (c : Fin n) : w.setReplica c (w.replica c) = w := by
  simp [setReplica]

theorem Refines.reply {ℓ : Link n} {k : ℕ} (h : Refines w s)
    (hreadable : ∀ m ∈ s.up ℓ, m.Readable) (hgentle : (w.up ℓ).Gentle k)
    (hstep : step config w (.reply ℓ k) = some w') :
    Refines w' s ∨ ∃ t, Cluster.step config s (.reply ℓ) = some t ∧ Refines w' t := by
  simp only [step] at hstep
  split_ifs at hstep with hwaiting
  obtain ⟨⟨wire, text⟩, hpass, hstep⟩ := Option.bind_eq_some_iff.mp hstep
  obtain ⟨r, hr, rfl⟩ := Option.map_eq_some_iff.mp hstep
  rcases carries_pass (h.up ℓ) hreadable hgentle hpass with ⟨rfl, hpart, hcarries⟩ |
    ⟨m, rest, string, hup, rfl, hmessage, hcarries⟩
  · left
    simp only [Replica.hears, if_pos hpart] at hr
    cases hr
    rw [setReplica_self]
    refine ⟨h.replica, h.down, ?_⟩
    have hup := carries_update (ℓ := ℓ) h.up hcarries
    rwa [update_eq_self] at hup
  · right
    simp only [Replica.hears, hmessage] at hr
    rw [h.replica] at hr
    refine ⟨{ s.setReplica ℓ.coordinator r with up := update s.up ℓ rest }, ?_, ?_, h.down, ?_⟩
    · simp [Cluster.step, hup, hr]
    · simp [setReplica, Cluster.setReplica, h.replica]
    · exact carries_update h.up hcarries

theorem Refines.deliver {ℓ : Link n} {k : ℕ} (h : Refines w s)
    (hreadable : ∀ m ∈ s.down ℓ, m.Readable) (hgentle : (w.down ℓ).Gentle k)
    (hstep : step config w (.deliver ℓ k) = some w') :
    Refines w' s ∨ ∃ t, Cluster.step config s (.deliver ℓ) = some t ∧ Refines w' t ∧
      (Cluster.ForeignAbort s (.deliver ℓ) → ForeignAbort w (.deliver ℓ k)) := by
  simp only [step] at hstep
  split_ifs at hstep with hreceiving
  obtain ⟨⟨wire, text⟩, hpass, hstep⟩ := Option.bind_eq_some_iff.mp hstep
  obtain ⟨r, hr, rfl⟩ := Option.map_eq_some_iff.mp hstep
  rcases carries_pass (h.down ℓ) hreadable hgentle hpass with ⟨rfl, hpart, hcarries⟩ |
    ⟨m, rest, string, hdown, rfl, hmessage, hcarries⟩
  · left
    simp only [Replica.reads, if_pos hpart] at hr
    cases hr
    rw [setReplica_self]
    refine ⟨h.replica, ?_, h.up⟩
    have hdown := carries_update (ℓ := ℓ) h.down hcarries
    rwa [update_eq_self] at hdown
  · right
    simp only [Replica.reads, hmessage] at hr
    rw [h.replica] at hr
    refine ⟨{ s.setReplica ℓ.peer r with down := update s.down ℓ rest }, ?_, ⟨?_, ?_, h.up⟩, ?_⟩
    · simp [Cluster.step, hdown, hr]
    · simp [setReplica, Cluster.setReplica, h.replica]
    · exact carries_update h.down hcarries
    · rintro ⟨_, uid, key, _, conn, p, ⟨⟩, hdown', hregistered⟩
      cases hdown.symm.trans hdown'
      rw [← h.replica] at hregistered
      exact ⟨ℓ, k, wire, string, uid, key, conn, p, rfl, hpass, hmessage, hregistered⟩

/-- Every step over the byte streams is one step of the cluster or none. -/
theorem Refines.step {e : Event n} (hs : Cluster.Inv config s)
    (hfits : s.Fits SendableKey SendableValue) (h : Refines w s) (hgentle : w.Gentle e)
    (hstep : step config w e = some w') : Refines w' s ∨
      ∃ e' t, s.Moderate SendableKey SendableValue e' ∧
        (Cluster.ForeignAbort s e' → ForeignAbort w e) ∧ Cluster.step config s e' = some t ∧
        Refines w' t := by
  have ours : ∀ {e'}, (∀ ℓ, e' ≠ .deliver ℓ) → Cluster.ForeignAbort s e' → ForeignAbort w e := by
    rintro e' hne ⟨ℓ, _, _, _, _, _, he, -⟩
    exact absurd he (hne ℓ)
  cases e with
  | run c action =>
    obtain ⟨r, hr, rfl⟩ := Option.map_eq_some_iff.mp hstep
    rw [h.replica] at hr
    have hmoderate : s.Moderate SendableKey SendableValue (.run c action) := by
      rw [Cluster.Moderate, ← h.replica]
      exact hgentle
    refine .inr ⟨.run c action, s.setReplica c r, hmoderate, ours (by simp),
      by simp [Cluster.step, hr], ?_, h.down, h.up⟩
    simp [setReplica, Cluster.setReplica, h.replica]
  | send ℓ =>
    obtain ⟨⟨r, m⟩, hr, rfl⟩ := Option.map_eq_some_iff.mp hstep
    rw [h.replica] at hr
    have hstep' : Cluster.step config s (.send ℓ) = some { s.setReplica ℓ.coordinator r with
        down := update s.down ℓ (s.down ℓ ++ [m]) } := by simp [Cluster.step, hr]
    have hm := (hfits.change (e := .send ℓ) trivial (Cluster.step_cases hs hstep')).down ℓ m
      (by simp)
    refine .inr ⟨.send ℓ, _, trivial, ours (by simp), hstep', ?_, ?_, h.up⟩
    · simp [setReplica, Cluster.setReplica, h.replica]
    · refine carries_update h.down ?_
      rw [List.map_append]
      exact (h.down ℓ).send hm.wellFormed
  | reply ℓ k =>
    refine (h.reply (fun m hm => (hfits.up ℓ m hm).readable) hgentle hstep).imp_right ?_
    rintro ⟨t, hstep', ht⟩
    exact ⟨.reply ℓ, t, trivial, ours (by simp), hstep', ht⟩
  | deliver ℓ k =>
    refine (h.deliver (fun m hm => (hfits.down ℓ m hm).readable) hgentle hstep).imp_right ?_
    rintro ⟨t, hstep', ht, hforeign⟩
    exact ⟨.deliver ℓ, t, trivial, hforeign, hstep', ht⟩
  | proceed ℓ =>
    obtain ⟨⟨r, sent⟩, hr, rfl⟩ := Option.map_eq_some_iff.mp hstep
    rw [h.replica] at hr
    have hstep' : Cluster.step config s (.proceed ℓ) = some { s.setReplica ℓ.peer r with
        up := update s.up ℓ (s.up ℓ ++ sent.toList) } := by simp [Cluster.step, hr]
    have hfits' := hfits.change (e := .proceed ℓ) trivial (Cluster.step_cases hs hstep')
    refine .inr ⟨.proceed ℓ, _, trivial, ours (by simp), hstep', ?_, h.down, ?_⟩
    · simp [setReplica, Cluster.setReplica, h.replica]
    · refine carries_update h.up ?_
      cases sent with
      | none => simpa using h.up ℓ
      | some m =>
        rw [List.map_append]
        exact (h.up ℓ).send (hfits'.up ℓ m (by simp)).wellFormed
  | hangup ℓ =>
    simp only [Wired.step] at hstep
    split_ifs at hstep with hclosed
    obtain ⟨hbuffer, hflight, hclosed⟩ := hclosed
    obtain ⟨r, hr, rfl⟩ := Option.map_eq_some_iff.mp hstep
    rw [h.replica] at hr
    rw [h.closed] at hclosed
    have hdown : s.down ℓ = [] := List.map_eq_nil_iff.mp ((h.down ℓ).eq_nil hbuffer hflight)
    refine .inr ⟨.hangup ℓ, s.setReplica ℓ.peer r, trivial, ours (by simp), ?_, ?_, h.down, h.up⟩
    · simp [Cluster.step, hdown, hclosed, hr]
    · simp [setReplica, Cluster.setReplica, h.replica]

/-- What the simulation keeps. -/
structure Tracks (config : Fin n → Settings (Fin n)) (w : Wired n) (s : Cluster n Text Text) :
    Prop where
  inv : Cluster.Inv config s
  fits : s.Fits SendableKey SendableValue
  refines : Refines w s

theorem Tracks.of_initial : Tracks config initial (Cluster.initial fun _ _ => none) :=
  ⟨.of_initial _, .of_initial, .of_initial⟩

theorem Tracks.step {e : Event n} (hset : ∀ c, (config c).Ok c) (h : Tracks config w s)
    (hgentle : w.Gentle e) (hstep : step config w e = some w') : Tracks config w' s ∨
      ∃ e' t, s.Moderate SendableKey SendableValue e' ∧
        (Cluster.ForeignAbort s e' → ForeignAbort w e) ∧ Cluster.step config s e' = some t ∧
        Tracks config w' t := by
  refine (h.refines.step h.inv h.fits hgentle hstep).imp (fun hsame => ⟨h.inv, h.fits, hsame⟩) ?_
  rintro ⟨e', t, hmoderate, hforeign, hstep', ht⟩
  have hchange := Cluster.step_cases h.inv hstep'
  exact ⟨e', t, hmoderate, hforeign, hstep', h.inv.change hset hchange,
    h.fits.change hmoderate hchange, ht⟩

variable {readQuorum writeQuorum : ℤ}

/-- Every text that is handed over is the one of the message that the cluster has in front. -/
def Reads (wire : Wire) (messages : List (Message Text Text)) : Prop :=
  ∀ k wire' string, wire.Gentle k → wire.pass k = some (wire', some string) →
    ∃ m rest, messages = m :: rest ∧ ServerMessage.toMessage string = .ok m

/-- Every gentle run over byte streams is a run of the cluster, with the same replicas.  The
streams carry exactly the messages that are under way there, and no text fails to be decoded. -/
theorem refines_cluster
    (h : Transition.Run (step (Cluster.settings n readQuorum writeQuorum)) Gentle initial w) :
    ∃ s, Cluster.Run (Cluster.settings n readQuorum writeQuorum)
        (Cluster.Moderate SendableKey SendableValue) (Cluster.initial fun _ _ => none) s ∧
      Refines w s ∧ (∀ ℓ, Reads (w.down ℓ) (s.down ℓ)) ∧ ∀ ℓ, Reads (w.up ℓ) (s.up ℓ) := by
  have hsimulates : ∀ w e w' s, Tracks (Cluster.settings n readQuorum writeQuorum) w s →
      Gentle w e → step (Cluster.settings n readQuorum writeQuorum) w e = some w' →
      ∃ t, Cluster.Run (Cluster.settings n readQuorum writeQuorum)
        (Cluster.Moderate SendableKey SendableValue) s t ∧
        Tracks (Cluster.settings n readQuorum writeQuorum) w' t := by
    intro w e w' s hs hgentle hstep
    rcases hs.step Cluster.settings_ok hgentle hstep with hsame |
      ⟨e', t, hmoderate, -, hstep', ht⟩
    · exact ⟨s, .refl s, hsame⟩
    · exact ⟨t, .single hmoderate hstep', ht⟩
  obtain ⟨s, hrun, -, hfits, hrefines⟩ := h.simulates hsimulates .of_initial
  have hreads : ∀ {wire : Wire} {messages : List (Message Text Text)},
      wire.Carries (messages.map Message.toString) → (∀ m ∈ messages, m.Readable) →
      Reads wire messages := by
    intro wire messages hcarries hreadable k wire' string hgentle hpass
    rcases carries_pass hcarries hreadable hgentle hpass with ⟨hnone, -⟩ |
      ⟨m, rest, string', rfl, hstring, hmessage, -⟩
    · cases hnone
    · cases hstring
      exact ⟨m, rest, rfl, hmessage⟩
  exact ⟨s, hrun, hrefines, fun ℓ => hreads (hrefines.down ℓ) fun m hm =>
    (hfits.down ℓ m hm).readable, fun ℓ => hreads (hrefines.up ℓ) fun m hm =>
    (hfits.up ℓ m hm).readable⟩

/-! ## A run -/

/-- Requests to get `k` or to put `v` under it, and gentle chunks. -/
def plain (w : Wired n) : Event n → Bool
  | .run c action =>
    (match action with
      | .request _ (.put value) key uid => value = ['v'] && key = ['k'] && uid = 0
      | .request _ .get key uid => key = ['k'] && uid = 0
      | _ => true) &&
    match (w.replica c).attempt action.of with
    | some co => co.version + 1 < 2 ^ 31
    | none => true
  | .reply ℓ k => (w.up ℓ).Gentle k
  | .deliver ℓ k => (w.down ℓ).Gentle k
  | _ => true

theorem gentle_of_plain {e : Event n} (h : w.plain e) : w.Gentle e := by
  cases e with
  | run c action =>
    obtain ⟨hrequest, hversion⟩ := Bool.and_eq_true_iff.mp h
    constructor
    · have hkey : SendableKey ['k'] :=
        ⟨keyable_of_not_mem (by simp) (by simp [isDot]), by decide +kernel⟩
      rintro a op key uid rfl
      cases op with
      | get =>
        simp only [Bool.and_eq_true, decide_eq_true_eq] at hrequest
        obtain ⟨rfl, rfl⟩ := hrequest
        exact ⟨hkey, by simp, isInt_zero⟩
      | put value =>
        simp only [Bool.and_eq_true, decide_eq_true_eq] at hrequest
        obtain ⟨⟨rfl, rfl⟩, rfl⟩ := hrequest
        refine ⟨hkey, ?_, isInt_zero⟩
        rintro _ ⟨⟩
        exact ⟨by simp [isDot], by decide +kernel⟩
    · intro co hco
      simpa [hco] using hversion
  | reply ℓ k =>
    change (w.up ℓ).Gentle k
    exact of_decide_eq_true h
  | deliver ℓ k =>
    change (w.down ℓ).Gentle k
    exact of_decide_eq_true h
  | _ => trivial

/-- Replica `c` puts a value and `x` votes; the `PREPARE` arrives in two pieces. -/
def pieceEvents (c x : Fin n) : List (Event n) :=
  [.run c (.request 0 (.put ['v']) ['k'] 0), .run c (.addCoordinator 0), .run c (.begin 0),
    .run c (.connect 0 (fun _ => true) [x]), .send ⟨c, 0, x⟩, .deliver ⟨c, 0, x⟩ 5,
    .deliver ⟨c, 0, x⟩ 255, .proceed ⟨c, 0, x⟩, .proceed ⟨c, 0, x⟩, .proceed ⟨c, 0, x⟩,
    .reply ⟨c, 0, x⟩ 255]

theorem refines_cluster_pieces : ∃ (w : Wired 2) (s : Cluster 2 Text Text),
    ((w.replica 0).attempt 0).map Coordinator.replies = some 2 ∧
      Cluster.Run (Cluster.settings 2 1 2) (Cluster.Moderate SendableKey SendableValue)
        (Cluster.initial fun _ _ => none) s ∧ Refines w s := by
  have hreplies : (Transition.exec (step (Cluster.settings 2 1 2)) plain (pieceEvents 0 1)
      initial).map (fun w => ((w.replica 0).attempt 0).map Coordinator.replies) =
        some (some 2) := by
    decide +kernel
  obtain ⟨w, hexec, hw⟩ := Option.map_eq_some_iff.mp hreplies
  obtain ⟨s, hrun, hrefines, -⟩ :=
    refines_cluster (Transition.run_of_exec (fun _ _ => gentle_of_plain) hexec)
  exact ⟨w, s, hw, hrun, hrefines⟩

end Wired
end LeaderlessDatastore
