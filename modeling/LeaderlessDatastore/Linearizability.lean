import Mathlib.Tactic

/-!
# Linearizability of a register

A history says which calls of a register took effect in a concurrent execution and
which of them returned before which others began.  It is linearizable if the calls
can be put into one order that a register could have executed, one call at a time.
Versions that grow with the order of the calls are enough for that.
-/

namespace LeaderlessDatastore
namespace Register

variable {ι Value Version Time : Type*}

inductive Call (Value : Type*) where
  | write (value : Value)
  /-- `none` is read before the first write. -/
  | read (result : Option Value)
  deriving DecidableEq

def Call.isRead : Call Value → Bool
  | .write _ => false
  | .read _ => true

/-- A register that holds `state` can execute the calls, one after the other. -/
def Legal : Option Value → List (Call Value) → Prop
  | _, [] => True
  | _, .write value :: calls => Legal (some value) calls
  | state, .read result :: calls => result = state ∧ Legal state calls

/-- Once something has been written, no read finds the register empty. -/
theorem Legal.read_none_not_mem {value : Value} {calls : List (Call Value)}
    (h : Legal (some value) calls) : .read none ∉ calls := by
  induction calls generalizing value with
  | nil => exact List.not_mem_nil
  | cons call calls ih =>
    cases call with
    | write value' =>
      have hrest : Legal (some value') calls := h
      simpa using ih hrest
    | read result =>
      obtain ⟨rfl, hrest⟩ := h
      simpa using ih hrest

theorem Legal.of_append {state : Option Value} {front calls : List (Call Value)}
    (h : Legal state (front ++ calls)) : ∃ state', Legal state' calls := by
  induction front generalizing state with
  | nil => exact ⟨state, h⟩
  | cons call front ih =>
    cases call with
    | write value =>
      have hrest : Legal (some value) (front ++ calls) := h
      exact ih hrest
    | read result => exact ih h.2

structure History (ι Value : Type*) where
  /-- `none` for what took no effect -/
  call : ι → Option (Call Value)
  /-- the first returned before the second began -/
  before : ι → ι → Prop

namespace History

/-- The calls that took effect have an order that respects `before` and is legal from the
empty register. -/
def Linearizable (h : History ι Value) : Prop :=
  ∃ order : List ι, order.Nodup ∧ (∀ i, i ∈ order ↔ (h.call i).isSome) ∧
    order.Pairwise (fun i j => ¬ h.before j i) ∧ Legal none (order.filterMap h.call)

/-- A write that has returned is not lost. -/
theorem Linearizable.not_lost {h : History ι Value} (hlin : h.Linearizable) {i j : ι}
    {value : Value} (hwrite : h.call i = some (.write value)) (hbefore : h.before i j) :
    h.call j ≠ some (.read none) := by
  intro hread
  obtain ⟨order, -, hmem, hrespects, hlegal⟩ := hlin
  obtain ⟨front, rest, rfl⟩ := List.append_of_mem ((hmem i).mpr (by simp [hwrite]))
  rw [List.filterMap_append, List.filterMap_cons_some hwrite] at hlegal
  obtain ⟨state, hlegal⟩ := hlegal.of_append
  have hj := (hmem j).mpr (by simp [hread])
  rcases List.mem_append.mp hj with hfront | hj
  · exact (List.pairwise_append.mp hrespects).2.2 j hfront i List.mem_cons_self hbefore
  · rcases List.mem_cons.mp hj with rfl | hj
    · simp [hread] at hwrite
    · have hrest : Legal (some value) (rest.filterMap h.call) := hlegal
      exact hrest.read_none_not_mem (List.mem_filterMap.mpr ⟨j, hj, hread⟩)

variable [LinearOrder Version] [LinearOrder Time]

/-- Versions that agree with the order of the calls: each write has its own, and a read has
that of the write it returns. -/
structure Versioned (h : History ι Value) (initial : Version) (version : ι → Version)
    (start : ι → Time) : Prop where
  finite : {i | (h.call i).isSome}.Finite
  start_lt : ∀ i j, (h.call i).isSome → (h.call j).isSome → h.before i j → start i < start j
  version_le : ∀ i j, (h.call i).isSome → (h.call j).isSome → h.before i j →
    version i ≤ version j
  write_lt : ∀ i j value, (h.call i).isSome → h.call j = some (.write value) → h.before i j →
    version i < version j
  write_inj : ∀ i j value value', h.call i = some (.write value) →
    h.call j = some (.write value') → version i = version j → i = j
  initial_lt : ∀ i value, h.call i = some (.write value) → initial < version i
  read_none : ∀ i, h.call i = some (.read none) → version i = initial
  read_some : ∀ i value, h.call i = some (.read (some value)) →
    ∃ j, h.call j = some (.write value) ∧ version j = version i

def reads (h : History ι Value) (i : ι) : Bool := (h.call i).any Call.isRead

/-- By version, a write before its reads, and these in the order in which they began. -/
def rank (h : History ι Value) (version : ι → Version) (start : ι → Time) (i : ι) :
    Version ×ₗ (Bool ×ₗ Time) :=
  toLex (version i, toLex (h.reads i, start i))

variable {h : History ι Value} {initial : Version} {version : ι → Version} {start : ι → Time}
  {i j : ι}

theorem version_le_of_rank (hle : h.rank version start i ≤ h.rank version start j) :
    version i ≤ version j := by
  rcases Prod.Lex.toLex_le_toLex.mp hle with hlt | ⟨heq, -⟩
  · exact hlt.le
  · exact heq.le

/-- A write is not ranked behind a read of its version. -/
theorem version_lt_of_rank (hle : h.rank version start i ≤ h.rank version start j)
    (hi : h.reads i = true) (hj : h.reads j = false) : version i < version j := by
  rcases Prod.Lex.toLex_le_toLex.mp hle with hlt | ⟨-, hle'⟩
  · exact hlt
  · rcases Prod.Lex.toLex_le_toLex.mp hle' with hlt | ⟨heq, -⟩
    · rw [hj] at hlt
      exact absurd hlt (Bool.false_le (h.reads i)).not_gt
    · simp [hi, hj] at heq

theorem reads_of_write {value : Value} (hi : h.call i = some (.write value)) :
    h.reads i = false := by
  simp [reads, hi, Call.isRead]

theorem reads_of_read {result : Option Value} (hi : h.call i = some (.read result)) :
    h.reads i = true := by
  simp [reads, hi, Call.isRead]

theorem exists_write (hcall : (h.call i).isSome) (hwrites : h.reads i = false) :
    ∃ value, h.call i = some (.write value) := by
  obtain ⟨call, hc⟩ := Option.isSome_iff_exists.mp hcall
  cases call with
  | write value => exact ⟨value, hc⟩
  | read result => simp [reads, hc, Call.isRead] at hwrites

/-- A read is still to come behind the write that it returns, or it returns the state and
there is no more write up to its version. -/
def Served (h : History ι Value) (version : ι → Version) (state : Option Value)
    (order : List ι) (i : ι) (result : Option Value) : Prop :=
  (∃ j ∈ order, ∃ value, h.call j = some (.write value) ∧ version j = version i ∧
    result = some value) ∨
  result = state ∧ ∀ j ∈ order, h.reads j = false → version i < version j

namespace Versioned

variable (hv : h.Versioned initial version start)

include hv

/-- The ranks respect the order of the calls. -/
theorem not_before (hi : (h.call i).isSome) (hj : (h.call j).isSome)
    (hle : h.rank version start i ≤ h.rank version start j) : ¬ h.before j i := by
  intro hbefore
  have heq : version i = version j :=
    le_antisymm (version_le_of_rank hle) (hv.version_le j i hj hi hbefore)
  by_cases hread : h.reads i = true
  · rcases Prod.Lex.toLex_le_toLex.mp hle with hlt | ⟨-, hle'⟩
    · exact hlt.ne heq
    · rcases Prod.Lex.toLex_le_toLex.mp hle' with hlt | ⟨-, hstart⟩
      · rw [hread] at hlt
        exact absurd (Bool.le_true (h.reads j)) hlt.not_ge
      · exact absurd (hv.start_lt j i hj hi hbefore) hstart.not_gt
  · obtain ⟨value, hwrite⟩ := exists_write hi (by simpa using hread)
    exact (hv.write_lt j i value hj hwrite hbefore).ne' heq

/-- The calls in the order of their ranks can be executed. -/
theorem legal {order : List ι} (hcall : ∀ i ∈ order, (h.call i).isSome) (hnodup : order.Nodup)
    (hsorted : order.Pairwise fun i j => h.rank version start i ≤ h.rank version start j)
    {state : Option Value} (hserved : ∀ i ∈ order, ∀ result, h.call i = some (.read result) →
      Served h version state order i result) : Legal state (order.filterMap h.call) := by
  induction order generalizing state with
  | nil => trivial
  | cons i order ih =>
    obtain ⟨hi, hsorted⟩ := List.pairwise_cons.mp hsorted
    obtain ⟨hnew, hnodup⟩ := List.nodup_cons.mp hnodup
    have hrest := fun j hj => hcall j (List.mem_cons_of_mem _ hj)
    obtain ⟨call, hc⟩ := Option.isSome_iff_exists.mp (hcall i List.mem_cons_self)
    rw [List.filterMap_cons_some hc]
    cases call with
    | write value =>
      refine ih hrest hnodup hsorted fun j hj result hread => ?_
      rcases hserved j (List.mem_cons_of_mem _ hj) result hread with
        ⟨k, hk, written, hwrite, hversion, rfl⟩ | ⟨-, hlt⟩
      · rcases List.mem_cons.mp hk with rfl | hk
        · -- the write is the one that comes first, and the writes after it are newer
          obtain rfl : value = written := by simpa [hc] using hwrite
          refine .inr ⟨rfl, fun l hl hwrites => ?_⟩
          refine (hversion ▸ version_le_of_rank (hi l hl)).lt_of_ne fun heq => hnew ?_
          obtain ⟨newer, hnewer⟩ := exists_write (hrest l hl) hwrites
          rwa [hv.write_inj k l _ _ hc hnewer (hversion.trans heq)]
        · exact .inl ⟨k, hk, written, hwrite, hversion, rfl⟩
      · -- a read that is not behind its write would have a version below this one
        have := hlt i List.mem_cons_self (reads_of_write hc)
        exact absurd this (version_le_of_rank (hi j hj)).not_gt
    | read result =>
      refine ⟨?_, ih hrest hnodup hsorted fun j hj result' hread => ?_⟩
      · rcases hserved i List.mem_cons_self result hc with
          ⟨k, hk, written, hwrite, hversion, rfl⟩ | ⟨heq, -⟩
        · rcases List.mem_cons.mp hk with rfl | hk
          · simp [hc] at hwrite
          · have := version_lt_of_rank (hi k hk) (reads_of_read hc) (reads_of_write hwrite)
            exact absurd hversion this.ne'
        · exact heq
      · rcases hserved j (List.mem_cons_of_mem _ hj) result' hread with
          ⟨k, hk, written, hwrite, hversion, rfl⟩ | ⟨heq, hlt⟩
        · rcases List.mem_cons.mp hk with rfl | hk
          · simp [hc] at hwrite
          · exact .inl ⟨k, hk, written, hwrite, hversion, rfl⟩
        · exact .inr ⟨heq, fun k hk => hlt k (List.mem_cons_of_mem _ hk)⟩

/-- Versions put the calls in an order. -/
theorem order : h.Linearizable := by
  let le : ι → ι → Bool := fun i j => decide (h.rank version start i ≤ h.rank version start j)
  let order := hv.finite.toFinset.toList.mergeSort le
  have hperm : order.Perm hv.finite.toFinset.toList := List.mergeSort_perm _ _
  have hmem : ∀ i, i ∈ order ↔ (h.call i).isSome := fun i => by
    rw [hperm.mem_iff, Finset.mem_toList, Set.Finite.mem_toFinset]
    rfl
  have hnodup : order.Nodup := hperm.nodup_iff.mpr (Finset.nodup_toList _)
  have hsorted : order.Pairwise fun i j => h.rank version start i ≤ h.rank version start j := by
    have htrans : ∀ i j k, le i j → le j k → le i k := fun i j k hij hjk => by
      simpa [le] using (of_decide_eq_true hij).trans (of_decide_eq_true hjk)
    have htotal : ∀ i j, le i j || le j i := fun i j => by simpa [le] using le_total _ _
    exact (List.pairwise_mergeSort htrans htotal _).imp fun hij => of_decide_eq_true hij
  refine ⟨order, hnodup, hmem, ?_, hv.legal (fun i => (hmem i).mp) hnodup hsorted ?_⟩
  · refine hsorted.imp_of_mem fun hi hj hle => ?_
    exact hv.not_before ((hmem _).mp hi) ((hmem _).mp hj) hle
  · intro i hi result hread
    cases result with
    | none =>
      -- read before the first write
      refine .inr ⟨rfl, fun j hj hwrites => ?_⟩
      obtain ⟨value, hwrite⟩ := exists_write ((hmem j).mp hj) hwrites
      exact hv.read_none i hread ▸ hv.initial_lt j value hwrite
    | some value =>
      obtain ⟨j, hwrite, hversion⟩ := hv.read_some i value hread
      exact .inl ⟨j, (hmem j).mpr (by simp [hwrite]), value, hwrite, hversion, rfl⟩

end Versioned
end History
end Register
end LeaderlessDatastore
