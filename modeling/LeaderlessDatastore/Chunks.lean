import Mathlib.Tactic

/-!
# Cutting a list into chunks

Positions in a list that arrives in pieces, and where the pieces end.
-/

namespace LeaderlessDatastore
namespace Chunks

variable {α : Type*}

/-- The positions where the chunks end, if the first one starts at `n`. -/
def cuts : ℕ → List (List α) → List ℕ
  | _, [] => []
  | n, chunk :: chunks => (n + chunk.length) :: cuts (n + chunk.length) chunks

/-- How many of the positions are strictly inside a piece of length `length` from `n` on. -/
def inside (positions : List ℕ) (n length : ℕ) : ℕ :=
  positions.countP fun p => n < p ∧ p < n + length

/-- The positions strictly inside. -/
def within (positions : List ℕ) (n length : ℕ) : List ℕ :=
  positions.filter fun p => n < p ∧ p < n + length

/-- What the last two chunks hold of the piece `t` that starts at `n`. -/
def lastTwo (positions : List ℕ) (n : ℕ) (t : List α) : List α :=
  t.drop ((within positions n t.length).dropLast.getLast?.getD n - n)

variable {chunks : List (List α)} {positions : List ℕ} {n m p length : ℕ}

theorem length_within : (within positions n length).length = inside positions n length :=
  List.countP_eq_length_filter.symm

theorem mem_within : p ∈ within positions n length ↔
    p ∈ positions ∧ n < p ∧ p < n + length := by
  simp [within]

theorem lt_of_mem_cuts (hne : ∀ c ∈ chunks, c ≠ []) (hp : p ∈ cuts n chunks) : n < p := by
  induction chunks generalizing n with
  | nil => cases hp
  | cons c chunks ih =>
    have hc := List.length_pos_iff.mpr (hne c List.mem_cons_self)
    rcases List.mem_cons.mp hp with rfl | hp
    · omega
    · have := ih (fun c hc => hne c (List.mem_cons_of_mem _ hc)) hp
      omega

theorem filter_cuts (hne : ∀ c ∈ chunks, c ≠ []) (h : m ≤ n) :
    (cuts n chunks).filter (m < ·) = cuts n chunks :=
  List.filter_eq_self.mpr fun p hp => by
    have := lt_of_mem_cuts hne hp
    simp
    omega

/-- Positions up to the start of the piece do not matter. -/
theorem within_filter (h : m ≤ n) :
    within (positions.filter (m < ·)) n length = within positions n length := by
  unfold within
  rw [List.filter_filter]
  refine List.filter_congr fun p _ => ?_
  simp
  omega

/-- A chunk that ends within the piece is one cut, the rest of the piece starts there. -/
theorem within_cuts_cons {c : List α} (hne : ∀ c' ∈ c :: chunks, c' ≠ [])
    (hlt : c.length < length) : within (cuts n (c :: chunks)) n length =
      (n + c.length) :: within (cuts (n + c.length) chunks) (n + c.length) (length - c.length) := by
  have hc := List.length_pos_iff.mpr (hne c List.mem_cons_self)
  unfold within
  rw [cuts, List.filter_cons_of_pos (by simp; omega)]
  congr 1
  refine List.filter_congr fun p hp => ?_
  have := lt_of_mem_cuts (fun c' hc' => hne c' (List.mem_cons_of_mem _ hc')) hp
  grind

theorem inside_cuts_cons {c : List α} (hne : ∀ c' ∈ c :: chunks, c' ≠ [])
    (hlt : c.length < length) : inside (cuts n (c :: chunks)) n length =
      inside (cuts (n + c.length) chunks) (n + c.length) (length - c.length) + 1 := by
  rw [← length_within, within_cuts_cons hne hlt, List.length_cons, length_within]

/-- A chunk that covers the piece leaves no cut in it. -/
theorem inside_cuts_of_le {c : List α} (hne : ∀ c' ∈ c :: chunks, c' ≠ [])
    (hle : length ≤ c.length) : inside (cuts n (c :: chunks)) n length = 0 := by
  refine List.countP_eq_zero.mpr fun p hp => ?_
  have : n + c.length ≤ p := by
    rcases List.mem_cons.mp hp with rfl | hp
    · rfl
    · exact (lt_of_mem_cuts (fun c' hc' => hne c' (List.mem_cons_of_mem _ hc')) hp).le
  simp
  omega

/-! ## The last two chunks -/

variable {t c : List α}

theorem lastTwo_filter (h : m ≤ n) :
    lastTwo (positions.filter (m < ·)) n t = lastTwo positions n t := by
  rw [lastTwo, within_filter h, lastTwo]

/-- They hold all of it exactly when it is cut at most once. -/
theorem lastTwo_eq_iff : lastTwo positions n t = t ↔ inside positions n t.length ≤ 1 := by
  rw [← length_within]
  unfold lastTwo
  cases hlast : (within positions n t.length).dropLast.getLast? with
  | none =>
    have hlength := congrArg List.length (List.getLast?_eq_none_iff.mp hlast)
    rw [List.length_dropLast, List.length_nil] at hlength
    simp only [Option.getD_none, Nat.sub_self, List.drop_zero, true_iff]
    omega
  | some p =>
    -- the last cut but one is behind the start
    have hmem := List.mem_of_getLast? hlast
    obtain ⟨-, hp⟩ := mem_within.mp (List.dropLast_subset _ hmem)
    have hpos := List.length_pos_of_mem hmem
    rw [List.length_dropLast] at hpos
    refine iff_of_false (fun heq => ?_) (by omega)
    have hlength := congrArg List.length heq
    rw [Option.getD_some, List.length_drop] at hlength
    omega

/-- A chunk in front of the piece `t` is kept if no further one ends in it. -/
theorem lastTwo_cons (hne : ∀ c' ∈ c :: chunks, c' ≠ []) (ht : t ≠ []) :
    lastTwo (cuts n (c :: chunks)) n (c ++ t) =
      (if inside (cuts (n + c.length) chunks) (n + c.length) t.length = 0 then c else []) ++
        lastTwo (cuts (n + c.length) chunks) (n + c.length) t := by
  have hpos := List.length_pos_iff.mpr ht
  have hwithin : within (cuts n (c :: chunks)) n (c ++ t).length =
      (n + c.length) :: within (cuts (n + c.length) chunks) (n + c.length) t.length := by
    rw [within_cuts_cons hne (by simp; omega), List.length_append, Nat.add_sub_cancel_left]
  rw [lastTwo, hwithin, ← length_within, lastTwo]
  cases hcuts : within (cuts (n + c.length) chunks) (n + c.length) t.length with
  | nil => simp
  | cons p rest =>
    rw [List.dropLast_cons_cons, List.getLast?_cons, Option.getD_some, if_neg (by simp),
      List.nil_append]
    generalize hlast : (p :: rest).dropLast.getLast?.getD (n + c.length) = q
    have hq : n + c.length ≤ q := by
      cases hnone : (p :: rest).dropLast.getLast? with
      | none => rw [← hlast, hnone, Option.getD_none]
      | some q' =>
        have hmem := List.dropLast_subset _ (List.mem_of_getLast? hnone)
        rw [← hcuts] at hmem
        obtain ⟨-, hlt⟩ := mem_within.mp hmem
        rw [← hlast, hnone, Option.getD_some]
        omega
    rw [show q - n = c.length + (q - (n + c.length)) by omega, List.drop_append,
      List.drop_of_length_le (Nat.le_add_right ..), Nat.add_sub_cancel_left, List.nil_append]

end Chunks
end LeaderlessDatastore
