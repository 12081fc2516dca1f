import Mathlib.Data.List.TakeWhile
import Mathlib.Tactic

/-!
# Matching with backtracking

Patterns that are sequences of literals and of runs of characters, matched against a
whole text.  A run tries its lengths from the longest (`greedy`) or from the shortest
on; the first match in this order gives the groups.
-/

namespace LeaderlessDatastore

inductive Item (α : Type*) where
  | lit (word : List α)
  /-- any number of characters that satisfy `p`; they are a group of the match if `group` -/
  | run (p : α → Bool) (greedy group : Bool)

abbrev Pattern (α : Type*) := List (Item α)

namespace Pattern

variable {α : Type*} {same : α → α → Bool}

/-- What is left of a text behind a literal, up to `same`. -/
def strip (same : α → α → Bool) : List α → List α → Option (List α)
  | [], s => some s
  | _ :: _, [] => none
  | a :: word, b :: s => if same a b then strip same word s else none

/-- The lengths that a run may have at the start of a text, in the order of the attempts. -/
def lengths (p : α → Bool) (greedy : Bool) (s : List α) : List ℕ :=
  if greedy then (List.range ((s.takeWhile p).length + 1)).reverse
  else List.range ((s.takeWhile p).length + 1)

/-- The groups of the first match of the whole text. -/
def exec (same : α → α → Bool) : Pattern α → List α → Option (List (List α))
  | [], s => if s.isEmpty then some [] else none
  | .lit word :: items, s => (strip same word s).bind (exec same items)
  | .run p greedy group :: items, s => (lengths p greedy s).findSome? fun n =>
    (exec same items (s.drop n)).map fun groups => if group then s.take n :: groups else groups

/-- The text can be cut as the pattern says, in whatever order that is found. -/
def Matches (same : α → α → Bool) : Pattern α → List α → List (List α) → Prop
  | [], s, groups => s = [] ∧ groups = []
  | .lit word :: items, s, groups => ∃ word' rest, s = word' ++ rest ∧
    List.Forall₂ (same · ·) word word' ∧ Matches same items rest groups
  | .run p _ group :: items, s, groups => ∃ run rest groups', s = run ++ rest ∧
    (∀ c ∈ run, p c) ∧ Matches same items rest groups' ∧
      groups = if group then run :: groups' else groups'

variable {p : α → Bool} {greedy group : Bool} {items items' : Pattern α}
  {word s front rest run : List α} {groups : List (List α)} {a : α} {n : ℕ}

/-! ## Literals and runs -/

theorem strip_append (hsame : ∀ a, same a a) (word s : List α) :
    strip same word (word ++ s) = some s := by
  induction word with
  | nil => rfl
  | cons a word ih => simp [strip, hsame, ih]

theorem strip_eq_some (h : strip same word s = some rest) :
    ∃ word', s = word' ++ rest ∧ List.Forall₂ (same · ·) word word' := by
  induction word generalizing s with
  | nil => exact ⟨[], by simpa [strip] using h, .nil⟩
  | cons a word ih =>
    cases s with
    | nil => simp [strip] at h
    | cons b s =>
      rw [strip] at h
      split_ifs at h with hab
      obtain ⟨word', rfl, hword⟩ := ih h
      exact ⟨b :: word', rfl, .cons hab hword⟩

theorem strip_of_forall₂ {word' : List α} (h : List.Forall₂ (same · ·) word word') :
    strip same word (word' ++ rest) = some rest := by
  induction h with
  | nil => rfl
  | cons hab _ ih => simp [strip, hab, ih]

theorem mem_lengths : n ∈ lengths p greedy s ↔ n ≤ (s.takeWhile p).length := by
  unfold lengths
  split_ifs <;> simp

theorem length_mem_lengths (h : ∀ c ∈ run, p c) : run.length ∈ lengths p greedy (run ++ rest) := by
  rw [mem_lengths, List.takeWhile_append_of_pos h]
  simp

/-- What is tried is a run. -/
theorem forall_take_of_mem_lengths (h : n ∈ lengths p greedy s) : ∀ c ∈ s.take n, p c := by
  intro c hc
  have hprefix := List.takeWhile_prefix (l := s) p
  obtain ⟨t, ht⟩ := hprefix
  rw [← ht, List.take_append_of_le_length (mem_lengths.mp h)] at hc
  exact List.mem_takeWhile_imp (List.mem_of_mem_take hc)

/-- An attempt that succeeds; shorter ones of a lazy run have failed. -/
theorem exec_run_some (h : exec same (.run p greedy group :: items) s = some groups) :
    ∃ run rest groups', s = run ++ rest ∧ (∀ c ∈ run, p c) ∧
      exec same items rest = some groups' ∧ groups = (if group then run :: groups' else groups') ∧
      (greedy = false → ∀ front rest', s = front ++ rest' → front.length < run.length →
        exec same items rest' = none) := by
  rw [exec] at h
  obtain ⟨before, n, after, hlengths, hn, hbefore⟩ := List.findSome?_eq_some_iff.mp h
  obtain ⟨groups', hgroups', rfl⟩ := Option.map_eq_some_iff.mp hn
  have hmem : n ∈ lengths p greedy s := by simp [hlengths]
  refine ⟨s.take n, s.drop n, groups', (List.take_append_drop n s).symm,
    forall_take_of_mem_lengths hmem, hgroups', rfl, ?_⟩
  rintro rfl front rest' rfl hlt
  have hfront : front.length < n := by
    rw [List.length_take] at hlt
    omega
  -- shorter lengths come before `n` in the order of the attempts
  have hmem' : front.length ∈ before ++ n :: after := by
    rw [← hlengths, mem_lengths]
    exact hfront.le.trans (mem_lengths.mp hmem)
  have hsorted : (before ++ n :: after).Pairwise (· < ·) := by
    rw [← hlengths]
    exact List.pairwise_lt_range
  have hfront' : front.length ∈ before := by
    rcases List.mem_append.mp hmem' with hb | ha
    · exact hb
    · rcases List.mem_cons.mp ha with he | ha
      · omega
      · have := (List.pairwise_cons.mp (List.pairwise_append.mp hsorted).2.1).1 _ ha
        omega
  simpa using hbefore front.length hfront'

theorem exec_lit_some (h : exec same (.lit word :: items) s = some groups) :
    ∃ word' rest, s = word' ++ rest ∧ List.Forall₂ (same · ·) word word' ∧
      exec same items rest = some groups := by
  obtain ⟨rest, hstrip, hrest⟩ := Option.bind_eq_some_iff.mp h
  obtain ⟨word', hs, hword⟩ := strip_eq_some hstrip
  exact ⟨word', rest, hs, hword, hrest⟩

theorem exec_lit (hsame : ∀ a, same a a) (word s : List α) :
    exec same (.lit word :: items) (word ++ s) = exec same items s := by
  rw [exec, strip_append hsame, Option.bind_some]

/-- A lazy run is no longer than an attempt that succeeds. -/
theorem exec_lazy_le (hrun : ∀ c ∈ run, p c) (hrest : exec same items rest = some groups) :
    ∃ run' rest' groups', run ++ rest = run' ++ rest' ∧ run'.length ≤ run.length ∧
      exec same items rest' = some groups' ∧
      exec same (.run p false group :: items) (run ++ rest) =
        some (if group then run' :: groups' else groups') := by
  cases hexec : exec same (.run p false group :: items) (run ++ rest) with
  | none =>
    rw [exec, List.findSome?_eq_none_iff] at hexec
    simpa [hrest] using hexec run.length (length_mem_lengths hrun)
  | some _ =>
    obtain ⟨run', rest', groups', heq, -, hrest', rfl, hfirst⟩ := exec_run_some hexec
    refine ⟨run', rest', groups', heq, ?_, hrest', rfl⟩
    by_contra hlonger
    rw [hfirst rfl run rest rfl (not_le.mp hlonger)] at hrest
    cases hrest

/-- A lazy run is as long as its first attempt that succeeds. -/
theorem exec_lazy (hrun : ∀ c ∈ run, p c) (hrest : exec same items rest = some groups)
    (hshorter : ∀ front middle, run = front ++ middle → middle ≠ [] →
      exec same items (middle ++ rest) = none) :
    exec same (.run p false group :: items) (run ++ rest) =
      some (if group then run :: groups else groups) := by
  obtain ⟨run', rest', groups', heq, hle, hrest', hexec⟩ := exec_lazy_le hrun hrest
  rcases hle.lt_or_eq with hlt | hlength
  · rcases List.append_eq_append_iff.mp heq with ⟨t, hrun', -⟩ | ⟨middle, hmiddle, rfl⟩
    · rw [hrun', List.length_append] at hlt
      omega
    · have hnonempty : middle ≠ [] := by
        rintro rfl
        simp [hmiddle] at hlt
      rw [hshorter run' middle hmiddle hnonempty] at hrest'
      cases hrest'
  · obtain ⟨rfl, rfl⟩ := List.append_inj heq hlength.symm
    obtain rfl := Option.some.inj (hrest.symm.trans hrest')
    exact hexec

/-- A greedy run that stops at the right place is tried first. -/
theorem exec_greedy (run : List α) (hrun : ∀ c ∈ run, p c) (hstop : ∀ c ∈ rest.head?, ¬ p c)
    (hrest : exec same items rest = some groups) :
    exec same (.run p true group :: items) (run ++ rest) =
      some (if group then run :: groups else groups) := by
  have htake : rest.takeWhile p = [] := by
    cases rest with
    | nil => rfl
    | cons c rest => exact List.takeWhile_cons_of_neg (hstop c rfl)
  have hlengths : lengths p true (run ++ rest) =
      run.length :: (List.range run.length).reverse := by
    rw [lengths, if_pos rfl, List.takeWhile_append_of_pos hrun, htake, List.append_nil,
      List.range_succ, List.reverse_concat]
  rw [exec, hlengths, List.findSome?_cons]
  simp [hrest]

/-! ## Matches -/

theorem matches_of_exec (h : exec same items s = some groups) : Matches same items s groups := by
  induction items generalizing s groups with
  | nil =>
    unfold exec at h
    split_ifs at h with hs
    cases h
    exact ⟨List.isEmpty_iff.mp hs, rfl⟩
  | cons item items ih =>
    cases item with
    | lit word =>
      obtain ⟨word', rest, hs, hword, hrest⟩ := exec_lit_some h
      exact ⟨word', rest, hs, hword, ih hrest⟩
    | run p greedy group =>
      obtain ⟨run, rest, groups', hs, hrun, hrest, hgroups, -⟩ := exec_run_some h
      exact ⟨run, rest, groups', hs, hrun, ih hrest, hgroups⟩

theorem exec_ne_none (h : Matches same items s groups) : exec same items s ≠ none := by
  induction items generalizing s groups with
  | nil => simp [exec, h.1]
  | cons item items ih =>
    cases item with
    | lit word =>
      obtain ⟨word', rest, rfl, hword, hrest⟩ := h
      rw [exec, strip_of_forall₂ hword, Option.bind_some]
      exact ih hrest
    | run p greedy group =>
      obtain ⟨run, rest, groups', rfl, hrun, hrest, -⟩ := h
      intro hnone
      rw [exec, List.findSome?_eq_none_iff] at hnone
      exact ih hrest (by simpa using hnone run.length (length_mem_lengths hrun))

/-- There is no match where the text cannot be cut as the pattern says. -/
theorem exec_eq_none (h : ∀ groups, ¬ Matches same items s groups) : exec same items s = none := by
  cases hexec : exec same items s with
  | none => rfl
  | some groups => exact absurd (matches_of_exec hexec) (h groups)

theorem matches_append : Matches same (items ++ items') s groups ↔
    ∃ front rest groups₁ groups₂, s = front ++ rest ∧ groups = groups₁ ++ groups₂ ∧
      Matches same items front groups₁ ∧ Matches same items' rest groups₂ := by
  induction items generalizing s groups with
  | nil =>
    constructor
    · intro h
      exact ⟨[], s, [], groups, rfl, rfl, ⟨rfl, rfl⟩, h⟩
    · rintro ⟨front, rest, groups₁, groups₂, rfl, rfl, ⟨rfl, rfl⟩, h⟩
      exact h
  | cons item items ih =>
    cases item with
    | lit word =>
      constructor
      · rintro ⟨word', rest, rfl, hword, h⟩
        obtain ⟨front, rest', groups₁, groups₂, rfl, rfl, h₁, h₂⟩ := ih.mp h
        exact ⟨word' ++ front, rest', groups₁, groups₂, (List.append_assoc ..).symm, rfl,
          ⟨word', front, rfl, hword, h₁⟩, h₂⟩
      · rintro ⟨_, rest, groups₁, groups₂, rfl, rfl, ⟨word', front, rfl, hword, h₁⟩, h₂⟩
        exact ⟨word', front ++ rest, List.append_assoc .., hword,
          ih.mpr ⟨front, rest, groups₁, groups₂, rfl, rfl, h₁, h₂⟩⟩
    | run p greedy group =>
      constructor
      · rintro ⟨run, rest, groups', rfl, hrun, h, rfl⟩
        obtain ⟨front, rest', groups₁, groups₂, rfl, rfl, h₁, h₂⟩ := ih.mp h
        refine ⟨run ++ front, rest', if group then run :: groups₁ else groups₁, groups₂,
          (List.append_assoc ..).symm, ?_, ⟨run, front, groups₁, rfl, hrun, h₁, rfl⟩, h₂⟩
        split_ifs <;> rfl
      · rintro ⟨_, rest, _, groups₂, rfl, rfl, ⟨run, front, groups₁, rfl, hrun, h₁, rfl⟩, h₂⟩
        refine ⟨run, front ++ rest, groups₁ ++ groups₂, List.append_assoc .., hrun,
          ih.mpr ⟨front, rest, groups₁, groups₂, rfl, rfl, h₁, h₂⟩, ?_⟩
        split_ifs <;> rfl

/-- What the characters of each group satisfy. -/
def groupPreds : Pattern α → List (α → Bool)
  | [] => []
  | .lit _ :: items => groupPreds items
  | .run p _ group :: items => if group then p :: groupPreds items else groupPreds items

theorem Matches.forall_groups (h : Matches same items s groups) :
    List.Forall₂ (fun p text => ∀ c ∈ text, p c) (groupPreds items) groups := by
  induction items generalizing s groups with
  | nil =>
    rw [h.2]
    exact .nil
  | cons item items ih =>
    cases item with
    | lit word =>
      obtain ⟨_, _, -, -, hrest⟩ := h
      exact ih hrest
    | run p greedy group =>
      obtain ⟨run, _, groups', -, hrun, hrest, rfl⟩ := h
      cases group with
      | true => exact .cons hrun (ih hrest)
      | false => exact ih hrest

/-- The number of characters in the literals. -/
def literalLength : Pattern α → ℕ
  | [] => 0
  | .lit word :: items => word.length + literalLength items
  | .run .. :: items => literalLength items

theorem Matches.literalLength_le (h : Matches same items s groups) :
    literalLength items ≤ s.length := by
  induction items generalizing s groups with
  | nil => exact Nat.zero_le _
  | cons item items ih =>
    cases item with
    | lit word =>
      obtain ⟨word', rest, rfl, hword, hrest⟩ := h
      have := ih hrest
      have := hword.length_eq
      simp only [literalLength, List.length_append]
      omega
    | run p greedy group =>
      obtain ⟨run, rest, groups', rfl, -, hrest, -⟩ := h
      have := ih hrest
      simp only [literalLength, List.length_append]
      omega

/-- A group is a part of the text outside the literals. -/
theorem Matches.length_le (h : Matches same items s groups) {text : List α}
    (hmem : text ∈ groups) : text.length + literalLength items ≤ s.length := by
  induction items generalizing s groups with
  | nil =>
    rw [h.2] at hmem
    cases hmem
  | cons item items ih =>
    cases item with
    | lit word =>
      obtain ⟨word', rest, rfl, hword, hrest⟩ := h
      have := ih hrest hmem
      have := hword.length_eq
      simp only [literalLength, List.length_append]
      omega
    | run p greedy group =>
      obtain ⟨run, rest, groups', rfl, -, hrest, rfl⟩ := h
      have hrun : text = run ∨ text ∈ groups' := by
        split_ifs at hmem
        · exact List.mem_cons.mp hmem
        · exact .inr hmem
      simp only [literalLength, List.length_append]
      rcases hrun with rfl | hmem
      · have := hrest.literalLength_le
        omega
      · have := ih hrest hmem
        omega

/-! ## Delimiters -/

/-- Only the character itself counts as `a`. -/
def Sharp (same : α → α → Bool) (a : α) : Prop := ∀ b, (same a b → b = a) ∧ (same b a → b = a)

theorem Sharp.cons {word' : List α} (hsharp : Sharp same a) (word : List α)
    (h : List.Forall₂ (same · ·) (a :: word) word') : ∃ rest, word' = a :: rest := by
  obtain ⟨b, rest, hab, -, rfl⟩ := List.forall₂_cons_left_iff.mp h
  exact ⟨rest, by rw [(hsharp b).1 hab]⟩

theorem Sharp.concat {word' : List α} (hsharp : Sharp same a) (word : List α)
    (h : List.Forall₂ (same · ·) (word ++ [a]) word') : ∃ front, word' = front ++ [a] := by
  rw [← List.forall₂_reverse_iff, List.reverse_concat] at h
  obtain ⟨rest, hrest⟩ := hsharp.cons _ h
  exact ⟨rest.reverse, by rw [← List.reverse_cons, ← hrest, List.reverse_reverse]⟩

/-- A literal of such characters stands for itself only. -/
theorem eq_of_sharp {word' : List α} (hsharp : ∀ a ∈ word, Sharp same a)
    (h : List.Forall₂ (same · ·) word word') : word' = word := by
  induction h with
  | nil => rfl
  | cons hab _ ih =>
    obtain ⟨ha, hword⟩ := List.forall_mem_cons.mp hsharp
    rw [ih hword, (ha _).1 hab]

section Count

variable [DecidableEq α]

/-- How often a character stands in the literals of a pattern. -/
def literalCount (a : α) : Pattern α → ℕ
  | [] => 0
  | .lit word :: items => word.count a + literalCount a items
  | .run .. :: items => literalCount a items

/-- No run of the pattern can hold the character. -/
def Excludes (a : α) : Pattern α → Prop
  | [] => True
  | .lit _ :: items => Excludes a items
  | .run p _ _ :: items => p a = false ∧ Excludes a items

theorem Sharp.count_eq {word' : List α} (hsharp : Sharp same a)
    (h : List.Forall₂ (same · ·) word word') : word'.count a = word.count a := by
  induction h with
  | nil => rfl
  | @cons b c word word' hbc _ ih =>
    have hiff : c = a ↔ b = a :=
      ⟨fun hc => (hsharp b).2 (hc ▸ hbc), fun hb => (hsharp c).1 (hb ▸ hbc)⟩
    simp [List.count_cons, ih, hiff]

/-- A character that no run can hold occurs as often as in the literals. -/
theorem Matches.count_eq (hsharp : Sharp same a) (hexcludes : Excludes a items)
    (h : Matches same items s groups) : s.count a = literalCount a items := by
  induction items generalizing s groups with
  | nil => simp [h.1, literalCount]
  | cons item items ih =>
    cases item with
    | lit word =>
      obtain ⟨word', rest, rfl, hword, hrest⟩ := h
      rw [List.count_append, hsharp.count_eq hword, ih hexcludes hrest, literalCount]
    | run p greedy group =>
      obtain ⟨run, rest, groups', rfl, hrun, hrest, -⟩ := h
      have hzero : run.count a = 0 := List.count_eq_zero.mpr fun hmem => by
        have := hexcludes.1
        rw [hrun a hmem] at this
        cases this
      rw [List.count_append, hzero, ih hexcludes.2 hrest, literalCount, Nat.zero_add]

/-- A lazy run in front of a delimiter ends at the last occurrence of the delimiter. -/
theorem exec_lazy_last {tail : Pattern α} (hsharp : Sharp same a)
    (hexcludes : Excludes a tail) (htail : tail = .lit (a :: word) :: items)
    (hcount : literalCount a tail = 1) (hrun : ∀ c ∈ run, p c)
    (hrest : exec same tail rest = some groups) :
    exec same (.run p false group :: tail) (run ++ rest) =
      some (if group then run :: groups else groups) := by
  refine exec_lazy hrun hrest fun front middle _ hmiddle => exec_eq_none fun groups' hmatch => ?_
  -- the text behind a shorter run has the delimiter twice
  have hrest' := (matches_of_exec hrest).count_eq hsharp hexcludes
  have hfront := hmatch.count_eq hsharp hexcludes
  have hhead : a ∈ middle := by
    rw [htail] at hmatch
    obtain ⟨word', rest'', heq', hword, -⟩ := hmatch
    cases hword with
    | cons hab _ =>
      cases middle with
      | nil => exact absurd rfl hmiddle
      | cons b middle =>
        obtain ⟨rfl, -⟩ := List.cons.inj heq'
        rw [(hsharp b).1 hab]
        exact List.mem_cons_self
  have := List.count_pos_iff.mpr hhead
  rw [List.count_append] at hfront
  omega

end Count

end Pattern
end LeaderlessDatastore
