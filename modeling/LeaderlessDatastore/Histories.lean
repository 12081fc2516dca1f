import LeaderlessDatastore.Wired

/-!
# What clients see of a cluster over byte streams

The history of a key depends on the attempts only, and the replicas over the byte streams are
those of a run of the cluster.  So the keys are registers here as well.
-/

namespace LeaderlessDatastore

namespace Cluster

variable {n : ℕ} {Key Value : Type} {s : Cluster n Key Value} {e : Event n Key Value}

theorem history_congr [DecidableEq Key] {state state' : ℕ → Cluster n Key Value} {length : ℕ}
    (h : ∀ i ≤ length, (state i).attempt = (state' i).attempt) (key : Key) :
    history state length key = history state' length key := by
  have hbefore : ∀ ca cb,
      (∃ i ≤ length, (∃ co, (state i).attempt ca = some co ∧ co.replied) ∧
        (state i).attempt cb = none) ↔
      ∃ i ≤ length, (∃ co, (state' i).attempt ca = some co ∧ co.replied) ∧
        (state' i).attempt cb = none := fun ca cb =>
    exists_congr fun i => and_congr_right fun hi => by rw [h i hi]
  simp only [history, h length le_rfl, hbefore]

/-- The versions of a moderate run fit an `int`. -/
theorem agreed_of_moderate {K : Key → Prop} {V : Value → Prop} (hs : Fits K V s)
    (hmoderate : Moderate K V s e) (hforeign : ¬ ForeignAbort s e) : Agreed s e := by
  refine ⟨hforeign, ?_⟩
  rintro ⟨c, action, co, value, rfl, hco, -, -, -, hlarge⟩
  obtain ⟨h0, -⟩ := (hs.attempt _ co hco).version
  exact hlarge (castInt_of_lt (by omega) (hmoderate.2 co hco))

end Cluster

namespace Wired

variable {n : ℕ} {w : Wired n} {e : Event n} {readQuorum writeQuorum : ℤ}

/-- The chunks are gentle, and no `GLOBAL_ABORT` hits the participant of another attempt. -/
def Agreed (w : Wired n) (e : Event n) : Prop := Gentle w e ∧ ¬ ForeignAbort w e

/-- The replicas, with nothing under way between them. -/
def replicas (w : Wired n) : Cluster n Text Text := ⟨w.replica, fun _ => [], fun _ => []⟩

def history (state : ℕ → Wired n) (length : ℕ) (key : Text) :
    Register.History (Fin n × ℕ) Text :=
  Cluster.history (fun i => (state i).replicas) length key

/-- Whatever the requests, the retries, the order of the steps and the chunks in which the bytes
arrive: in every agreed run from empty stores each key is an atomic register for the clients. -/
theorem linearizable_delivered {state : ℕ → Wired n} {length : ℕ} (hstart : state 0 = initial)
    (hpath : Transition.Path (step (Cluster.settings n readQuorum writeQuorum)) Agreed length
      state) (key : Text) : (history state length key).Linearizable := by
  have hsimulates : ∀ w e w' s, Tracks (Cluster.settings n readQuorum writeQuorum) w s →
      Agreed w e → step (Cluster.settings n readQuorum writeQuorum) w e = some w' →
      ∃ t, Cluster.Run (Cluster.settings n readQuorum writeQuorum) Cluster.Agreed s t ∧
        Tracks (Cluster.settings n readQuorum writeQuorum) w' t := by
    rintro w e w' s hs ⟨hgentle, hours⟩ hstep
    rcases hs.step Cluster.settings_ok hgentle hstep with hsame |
      ⟨e', t, hmoderate, hforeign, hstep', ht⟩
    · exact ⟨s, .refl s, hsame⟩
    · have hagreed := Cluster.agreed_of_moderate hs.fits hmoderate fun h => hours (hforeign h)
      exact ⟨t, .single hagreed hstep', ht⟩
  have htracks : Tracks (Cluster.settings n readQuorum writeQuorum) (state 0)
      (Cluster.initial fun _ _ => none) := hstart ▸ .of_initial
  obtain ⟨state', hstart', hrelated, hruns⟩ := hpath.simulates hsimulates htracks
  have hsame : ∀ i ≤ length, (state i).replicas.attempt = (state' i).attempt := by
    intro i hi
    funext ca
    change ((state i).replica ca.1).attempt ca.2 = ((state' i).replica ca.1).attempt ca.2
    rw [(hrelated i hi).refines.replica]
  rw [history, Cluster.history_congr hsame]
  exact (Cluster.Chronicle.of_runs hstart' hruns).atomic key

/-! ## A run -/

/-- Nothing that is handed over is a `GLOBAL_ABORT`. -/
def calm (w : Wired n) : Event n → Bool
  | .deliver ℓ k =>
    match (w.down ℓ).pass k with
    | some (_, some string) =>
      match ServerMessage.toMessage string with
      | .ok (.globalAbort ..) => false
      | _ => true
    | _ => true
  | _ => true

theorem agreed_of_calm (h : w.plain e && w.calm e) : Agreed w e := by
  obtain ⟨hplain, hcalm⟩ := Bool.and_eq_true_iff.mp h
  refine ⟨gentle_of_plain hplain, ?_⟩
  rintro ⟨ℓ, k, wire, string, uid, key, conn, p, rfl, hpass, hmessage, -⟩
  simp [calm, hpass, hmessage] at hcalm

/-- The put is acknowledged while the decision is under way. -/
def acknowledgedEvents (c x : Fin n) : List (Event n) :=
  pieceEvents c x ++ [.run c (.decide 0), .send ⟨c, 0, x⟩, .run c (.acknowledge 0)]

/-- Then `x` commits and answers a get with the help of `c`, whose reply arrives in two pieces. -/
def answeredEvents (c x : Fin n) : List (Event n) :=
  [.deliver ⟨c, 0, x⟩ 255, .proceed ⟨c, 0, x⟩, .proceed ⟨c, 0, x⟩,
    .run x (.request 0 .get ['k'] 0), .run x (.addCoordinator 0), .run x (.begin 0),
    .run x (.connect 0 (fun _ => true) [c]), .send ⟨x, 0, c⟩, .deliver ⟨x, 0, c⟩ 255,
    .proceed ⟨x, 0, c⟩, .proceed ⟨x, 0, c⟩, .reply ⟨x, 0, c⟩ 7, .reply ⟨x, 0, c⟩ 255,
    .run x (.decide 0)]

theorem linearizable_delivered_pieces : ∃ (length : ℕ) (state : ℕ → Wired 2),
    (history state length ['k']).call (0, 0) = some (.write ['v']) ∧
    (history state length ['k']).call (1, 0) = some (.read (some ['v'])) ∧
    (history state length ['k']).before (0, 0) (1, 0) ∧
    (history state length ['k']).Linearizable := by
  let check (w : Wired 2) (e : Event 2) : Bool := w.plain e && w.calm e
  let config := Cluster.settings 2 2 2
  have hcomputed : (Transition.exec (step config) check (acknowledgedEvents 0 1) initial).bind
      (fun w => (Transition.exec (step config) check (answeredEvents 0 1) w).map fun w' =>
        decide (((w.replica 0).attempt 0).map Coordinator.replied = some true ∧
          ((w.replica 1).attempt 0).isNone) &&
        decide (((w'.replica 0).attempt 0).map (fun co => (co.key, co.call)) =
            some (['k'], some (.write ['v'])) ∧
          ((w'.replica 1).attempt 0).map (fun co => (co.key, co.call)) =
            some (['k'], some (.read (some ['v']))))) = some true := by
    decide +kernel
  obtain ⟨w, hexec, hcomputed⟩ := Option.bind_eq_some_iff.mp hcomputed
  obtain ⟨w', hexec', hfacts⟩ := Option.map_eq_some_iff.mp hcomputed
  obtain ⟨hmiddle, hlast⟩ := Bool.and_eq_true_iff.mp hfacts
  obtain ⟨hput, hfresh⟩ := of_decide_eq_true hmiddle
  obtain ⟨hwrite, hread⟩ := of_decide_eq_true hlast
  obtain ⟨put, hput, hreplied⟩ := Option.map_eq_some_iff.mp hput
  have hrun := Transition.run_of_exec (fun _ _ => agreed_of_calm) hexec
  have hrun' := Transition.run_of_exec (fun _ _ => agreed_of_calm) hexec'
  obtain ⟨i, before, hstart, hmid, hpath⟩ := hrun.exists_path
  obtain ⟨length, state, hi, hsame, hend, hpath⟩ := hpath.extend hrun' hmid
  have hmid' : state i = w := (hsame i le_rfl).trans hmid
  have hcall : ∀ {ca : Fin 2 × ℕ} {call : Register.Call Text},
      ((w'.replica ca.1).attempt ca.2).map (fun co => (co.key, co.call)) = some (['k'], some call) →
      (history state length ['k']).call ca = some call := by
    intro ca call h
    obtain ⟨co, hco, hpair⟩ := Option.map_eq_some_iff.mp h
    obtain ⟨hkey, hcall⟩ := Prod.mk.injEq .. ▸ hpair
    exact Cluster.history_call.mpr ⟨co, by rw [hend]; exact hco, hkey, hcall⟩
  have hattempt : ∀ ca : Fin 2 × ℕ, (state i).replicas.attempt ca = w.replicas.attempt ca :=
    fun ca => by rw [hmid']
  refine ⟨length, state, hcall hwrite, hcall hread, ?_,
    linearizable_delivered ((hsame 0 i.zero_le).trans hstart) hpath ['k']⟩
  exact ⟨i, hi, ⟨put, (hattempt (0, 0)).trans hput, hreplied⟩,
    (hattempt (1, 0)).trans (Option.isNone_iff_eq_none.mp hfresh)⟩

end Wired
end LeaderlessDatastore
