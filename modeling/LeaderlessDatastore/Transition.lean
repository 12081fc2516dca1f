import Mathlib.Tactic

/-!
# Runs of a partial step function

A system is a step function `step : σ → α → Option σ`; `none` means that the
event is not enabled.  A run may be restricted by a predicate on the state in
which an event happens, which is how assumptions on the environment enter.
-/

namespace LeaderlessDatastore
namespace Transition

variable {σ α : Type*} {step : σ → α → Option σ} {allowed : σ → α → Prop}

/-- Finitely many steps, each one allowed in the state where it is taken. -/
inductive Run (step : σ → α → Option σ) (allowed : σ → α → Prop) : σ → σ → Prop
  | refl (s : σ) : Run step allowed s s
  | tail {s t u : σ} {e : α} : Run step allowed s t → allowed t e → step t e = some u →
      Run step allowed s u

theorem Run.single {s t : σ} {e : α} (ha : allowed s e) (h : step s e = some t) :
    Run step allowed s t := .tail (.refl s) ha h

theorem Run.trans {s t u : σ} (h : Run step allowed s t) (h' : Run step allowed t u) :
    Run step allowed s u := by
  induction h' with
  | refl => exact h
  | tail _ ha hstep ih => exact .tail ih ha hstep

theorem Run.mono {allowed' : σ → α → Prop} (ha : ∀ s e, allowed s e → allowed' s e) {s t : σ}
    (h : Run step allowed s t) : Run step allowed' s t := by
  induction h with
  | refl => exact .refl _
  | tail _ he hs ih => exact ih.tail (ha _ _ he) hs

/-- What every allowed step preserves, a run preserves. -/
theorem Run.preserves {P : σ → Prop}
    (hstep : ∀ s e t, P s → allowed s e → step s e = some t → P t) {s t : σ}
    (h : Run step allowed s t) (hs : P s) : P t := by
  induction h with
  | refl => exact hs
  | tail _ ha hs' ih => exact hstep _ _ _ ih ha hs'

/-- A reflexive and transitive relation that holds across each step holds across a run. -/
theorem Run.relates {R : σ → σ → Prop} (hrefl : ∀ s, R s s)
    (htrans : ∀ {s t u}, R s t → R t u → R s u)
    (hstep : ∀ s e t, allowed s e → step s e = some t → R s t) {s t : σ}
    (h : Run step allowed s t) : R s t := by
  induction h with
  | refl => exact hrefl _
  | tail _ ha hs ih => exact htrans ih (hstep _ _ _ ha hs)

/-- A system follows another one step by step, with any number of its own steps for each. -/
theorem Run.simulates {τ β : Type*} {step' : τ → β → Option τ} {allowed' : τ → β → Prop}
    {R : σ → τ → Prop}
    (hstep : ∀ s e u t, R s t → allowed s e → step s e = some u →
      ∃ v, Run step' allowed' t v ∧ R u v) {s u : σ} {t : τ}
    (h : Run step allowed s u) (hR : R s t) : ∃ v, Run step' allowed' t v ∧ R u v := by
  induction h with
  | refl => exact ⟨t, .refl t, hR⟩
  | tail _ ha hs ih =>
    obtain ⟨v, hrun, hv⟩ := ih
    obtain ⟨v', hrun', hv'⟩ := hstep _ _ _ _ hv ha hs
    exact ⟨v', hrun.trans hrun', hv'⟩

/-- Execute a list of events, each one only where `check` accepts it. -/
def exec (step : σ → α → Option σ) (check : σ → α → Bool) : List α → σ → Option σ
  | [], s => some s
  | e :: es, s => if check s e then (step s e).bind (exec step check es) else none

theorem run_of_exec {check : σ → α → Bool} (hcheck : ∀ s e, check s e → allowed s e)
    {es : List α} {s t : σ} (h : exec step check es s = some t) : Run step allowed s t := by
  induction es generalizing s with
  | nil => cases h; exact .refl _
  | cons e es ih =>
    rw [exec] at h
    split_ifs at h with hc
    obtain ⟨u, hu, hrest⟩ := Option.bind_eq_some_iff.mp h
    exact (Run.single (hcheck s e hc) hu).trans (ih hrest)

/-! ## The states of a run -/

/-- `state 0`, …, `state length` are the states of a run, one after the other. -/
def Path (step : σ → α → Option σ) (allowed : σ → α → Prop) (length : ℕ) (state : ℕ → σ) : Prop :=
  ∀ i < length, ∃ e, allowed (state i) e ∧ step (state i) e = some (state (i + 1))

theorem Path.run {length : ℕ} {state : ℕ → σ} (h : Path step allowed length state) {i j : ℕ}
    (hij : i ≤ j) (hj : j ≤ length) : Run step allowed (state i) (state j) := by
  induction j, hij using Nat.le_induction with
  | base => exact .refl _
  | succ j hij ih =>
    obtain ⟨e, ha, hstep⟩ := h j (by omega)
    exact .tail (ih (by omega)) ha hstep

/-- A weight that every step lowers bounds the length. -/
theorem Path.length_le {P : σ → Prop} {w : σ → ℕ} {length : ℕ} {state : ℕ → σ}
    (h : Path step allowed length state) (hstart : P (state 0))
    (hstep : ∀ s e t, P s → allowed s e → step s e = some t → P t ∧ w t < w s) :
    length ≤ w (state 0) := by
  have hle : ∀ i ≤ length, P (state i) ∧ i + w (state i) ≤ w (state 0) := by
    intro i
    induction i with
    | zero => exact fun _ => ⟨hstart, (Nat.zero_add _).le⟩
    | succ i ih =>
      intro hi
      obtain ⟨hP, hweight⟩ := ih (by omega)
      obtain ⟨e, ha, he⟩ := h i (by omega)
      obtain ⟨hP', hlt⟩ := hstep _ _ _ hP ha he
      exact ⟨hP', by omega⟩
  exact (Nat.le_add_right ..).trans (hle length le_rfl).2

theorem Path.cons {length : ℕ} {state : ℕ → σ} (h : Path step allowed length state) {s : σ} {e : α}
    (ha : allowed s e) (hstep : step s e = some (state 0)) :
    Path step allowed (length + 1) fun i => if i = 0 then s else state (i - 1) := by
  intro i hi
  cases i with
  | zero => exact ⟨e, ha, hstep⟩
  | succ i => simpa using h i (by omega)

/-- Where the lengths are bounded, some run cannot go on. -/
theorem exists_stuck {bound : ℕ} {s : σ}
    (h : ∀ length state, state 0 = s → Path step allowed length state → length ≤ bound) :
    ∃ t, Run step allowed s t ∧ ∀ e, allowed t e → step t e = none := by
  induction bound generalizing s with
  | zero =>
    refine ⟨s, .refl s, fun e ha => ?_⟩
    by_contra hne
    obtain ⟨t, ht⟩ := Option.ne_none_iff_exists'.mp hne
    have hnil : Path step allowed 0 fun _ => t := fun i hi => absurd hi (Nat.not_lt_zero i)
    have := h 1 _ (if_pos rfl) (hnil.cons ha ht)
    omega
  | succ bound ih =>
    by_cases hstuck : ∀ e, allowed s e → step s e = none
    · exact ⟨s, .refl s, hstuck⟩
    · push Not at hstuck
      obtain ⟨e, ha, hne⟩ := hstuck
      obtain ⟨t, ht⟩ := Option.ne_none_iff_exists'.mp hne
      obtain ⟨u, hrun, hu⟩ := ih (s := t) fun length state hstart hpath => by
        have := h (length + 1) _ (if_pos rfl) (hpath.cons ha (hstart ▸ ht))
        omega
      exact ⟨u, (Run.single ha ht).trans hrun, hu⟩

/-- A run that goes on where a path ends makes the path longer. -/
theorem Path.extend {length : ℕ} {state : ℕ → σ} (h : Path step allowed length state) {s t : σ}
    (hrun : Run step allowed s t) (hend : state length = s) : ∃ length' state',
      length ≤ length' ∧ (∀ i ≤ length, state' i = state i) ∧ state' length' = t ∧
        Path step allowed length' state' := by
  induction hrun with
  | refl => exact ⟨length, state, le_rfl, fun _ _ => rfl, hend, h⟩
  | @tail t u e _ ha hstep ih =>
    obtain ⟨length', state', hle, hsame, hend', hpath⟩ := ih
    refine ⟨length' + 1, fun i => if i ≤ length' then state' i else u, by omega, fun i hi => ?_,
      by simp, fun i hi => ?_⟩
    · simp [hi.trans hle, hsame i hi]
    · rcases Nat.lt_succ_iff_lt_or_eq.mp hi with hlt | rfl
      · simpa [hlt.le, Nat.succ_le_of_lt hlt] using hpath i hlt
      · exact ⟨e, by simpa [hend'] using ha, by simpa [hend'] using hstep⟩

theorem Run.exists_path {s t : σ} (h : Run step allowed s t) :
    ∃ length state, state 0 = s ∧ state length = t ∧ Path step allowed length state := by
  have hnil : Path step allowed 0 fun _ => s := fun i hi => absurd hi (Nat.not_lt_zero i)
  obtain ⟨length, state, -, hsame, hend, hpath⟩ := hnil.extend h rfl
  exact ⟨length, state, hsame 0 le_rfl, hend, hpath⟩

/-- The followed system passes through states that belong to the states of a path. -/
theorem Path.simulates {τ β : Type*} {step' : τ → β → Option τ} {allowed' : τ → β → Prop}
    {R : σ → τ → Prop}
    (hstep : ∀ s e u t, R s t → allowed s e → step s e = some u →
      ∃ v, Run step' allowed' t v ∧ R u v) {length : ℕ} {state : ℕ → σ} {t : τ}
    (h : Path step allowed length state) (hR : R (state 0) t) :
    ∃ state' : ℕ → τ, state' 0 = t ∧ (∀ i ≤ length, R (state i) (state' i)) ∧
      ∀ i j, i ≤ j → j ≤ length → Run step' allowed' (state' i) (state' j) := by
  induction length with
  | zero =>
    refine ⟨fun _ => t, rfl, fun i hi => ?_, fun _ _ _ _ => .refl t⟩
    rwa [Nat.le_zero.mp hi]
  | succ length ih =>
    obtain ⟨state', hstart, hrelated, hruns⟩ := ih fun i hi => h i (by omega)
    obtain ⟨e, ha, he⟩ := h length (by omega)
    obtain ⟨v, hrun, hv⟩ := hstep _ _ _ _ (hrelated length le_rfl) ha he
    refine ⟨fun i => if i ≤ length then state' i else v, by simp [hstart], fun i hi => ?_,
      fun i j hij hj => ?_⟩
    · by_cases hle : i ≤ length
      · simpa [hle] using hrelated i hle
      · obtain rfl : i = length + 1 := by omega
        simpa using hv
    · by_cases hle : j ≤ length
      · simpa [hle, hij.trans hle] using hruns i j hij hle
      · by_cases hi : i ≤ length
        · simpa [hle, hi] using (hruns i length hi le_rfl).trans hrun
        · simpa [hle, hi] using Run.refl v

/-! ## The steps of a run -/

/-- A step that was taken. -/
structure Taken (σ α : Type*) where
  before : σ
  event : α
  after : σ

/-- The steps taken since `s₀`, as long as `active` holds. -/
inductive During (step : σ → α → Option σ) (active : σ → Prop) (s₀ : σ) :
    List (Taken σ α) → σ → Prop
  | refl : During step active s₀ [] s₀
  | tail {trace : List (Taken σ α)} {s t : σ} {e : α} : During step active s₀ trace s →
      active s → step s e = some t → During step active s₀ (trace ++ [⟨s, e, t⟩]) t

variable {active : σ → Prop} {s₀ : σ} {trace : List (Taken σ α)}

/-- What every step preserves together with the steps before it. -/
theorem During.preserves {P : List (Taken σ α) → σ → Prop}
    (hstep : ∀ trace s e t, P trace s → active s → step s e = some t →
      P (trace ++ [⟨s, e, t⟩]) t) {t : σ}
    (h : During step active s₀ trace t) (h₀ : P [] s₀) : P trace t := by
  induction h with
  | refl => exact h₀
  | tail _ ha hs ih => exact hstep _ _ _ _ ih ha hs

theorem During.exec {check : σ → Bool} {es : List α} {s t : σ}
    (h : During step (fun s => check s) s₀ trace s)
    (hexec : exec step (fun s _ => check s) es s = some t) :
    ∃ trace', trace'.map Taken.event = trace.map Taken.event ++ es ∧
      During step (fun s => check s) s₀ trace' t := by
  induction es generalizing s trace with
  | nil =>
    cases hexec
    exact ⟨trace, (List.append_nil _).symm, h⟩
  | cons e es ih =>
    rw [Transition.exec] at hexec
    split_ifs at hexec with hc
    obtain ⟨u, hu, hrest⟩ := Option.bind_eq_some_iff.mp hexec
    obtain ⟨trace', hevents, htrace⟩ := ih (h.tail hc hu) hrest
    exact ⟨trace', by rw [hevents]; simp, htrace⟩

end Transition
end LeaderlessDatastore
