import LeaderlessDatastore.DatastoreManager
import Mathlib.Data.List.MinMax

/-!
# Convergence of one store

Read repair, start-up synchronisation and two-phase commits reach a replica in
any order, as calls of `commit` and `tryUpdate`.  This module says which entry a
sequence of such calls leaves behind and when it is the one of highest version.
-/

namespace LeaderlessDatastore

open Function

/-- The two operations of `DatastoreManager` that write entries. -/
inductive Writer
  | commit
  | tryUpdate
  deriving DecidableEq

structure StoreCall (Key Value : Type) where
  writer : Writer
  key : Key
  value : Value
  version : ℤ

namespace StoreCall

variable {Key Value : Type} [DecidableEq Key]

def entry (c : StoreCall Key Value) : Value × ℤ := (c.value, c.version)

def run (ds : DatastoreManager Key Value) (c : StoreCall Key Value) :
    DatastoreManager Key Value :=
  match c.writer with
  | .commit => ds.commit c.key c.value c.version
  | .tryUpdate => ds.tryUpdate c.key c.value c.version

def runAll (ds : DatastoreManager Key Value) (calls : List (StoreCall Key Value)) :
    DatastoreManager Key Value := calls.foldl run ds

def callsOn (key : Key) (calls : List (StoreCall Key Value)) : List (StoreCall Key Value) :=
  calls.filter (·.key = key)

/-- What one call does to the entry of its own key. -/
def step (e : Option (Value × ℤ)) (c : StoreCall Key Value) : Option (Value × ℤ) :=
  match c.writer, e with
  | .commit, some e => if e.2 < c.version then some c.entry else some e
  | .commit, none => some c.entry
  | .tryUpdate, e => some (e.getD c.entry)

theorem run_datastore (ds : DatastoreManager Key Value) (c : StoreCall Key Value) :
    (c.run ds).datastore = update ds.datastore c.key (step (ds.datastore c.key) c) := by
  cases hw : c.writer with
  | tryUpdate => simp only [run, step, hw, DatastoreManager.tryUpdate_datastore, entry]
  | commit =>
    simp only [run, step, hw, DatastoreManager.commit_datastore]
    cases hd : ds.datastore c.key with
    | none => rfl
    | some e =>
      by_cases hlt : e.2 < c.version
      · simp [hlt, entry]
      · simp [hlt, ← hd]

/-- The calls on other keys do not matter for the entry of a key. -/
theorem runAll_datastore (ds : DatastoreManager Key Value) (calls : List (StoreCall Key Value))
    (key : Key) : (runAll ds calls).datastore key =
      (callsOn key calls).foldl step (ds.datastore key) := by
  induction calls generalizing ds with
  | nil => rfl
  | cons c calls ih =>
    change (runAll (c.run ds) calls).datastore key = _
    rw [ih, run_datastore]
    by_cases hk : c.key = key
    · subst hk
      simp [callsOn]
    · simp [callsOn, hk, update_of_ne (Ne.symm hk)]

/-- The calls that can set the entry of a key: the first one and the commits. -/
def effective : List (StoreCall Key Value) → List (StoreCall Key Value)
  | [] => []
  | c :: rest => c :: rest.filter (·.writer = .commit)

omit [DecidableEq Key] in
/-- A present entry is only replaced by commits, and by these last version wins. -/
theorem foldl_step_some (first : StoreCall Key Value) (rest : List (StoreCall Key Value)) :
    rest.foldl step (some first.entry) =
      ((first :: rest.filter (·.writer = .commit)).map entry).argmax Prod.snd := by
  induction rest using List.reverseRecOn with
  | nil => simp
  | append_singleton rest c ih =>
    rw [List.foldl_append, ih, List.filter_append]
    cases hw : c.writer with
    | tryUpdate =>
      obtain ⟨e, he⟩ : ∃ e, ((first :: rest.filter (·.writer = .commit)).map entry).argmax
          Prod.snd = some e := Option.ne_none_iff_exists'.mp (by simp [List.argmax_eq_none])
      have htry : [c].filter (·.writer = .commit) = [] := by simp [hw]
      rw [htry, List.append_nil, he, List.foldl_cons, List.foldl_nil]
      simp [step, hw]
    | commit =>
      have hc : List.map entry (first :: (rest.filter (·.writer = .commit) ++
          [c].filter (·.writer = .commit))) =
          List.map entry (first :: rest.filter (·.writer = .commit)) ++ [c.entry] := by
        simp [hw]
      rw [hc, List.argmax_concat]
      cases ((first :: rest.filter (·.writer = .commit)).map entry).argmax Prod.snd with
      | none => simp [step, hw]
      | some e =>
        by_cases hlt : e.2 < c.version
        · simp [step, hw, entry, hlt]
        · simp [step, hw, entry, hlt]

/-- The entry left behind is the highest among the first call and the commits on the key. -/
theorem runAll_empty (calls : List (StoreCall Key Value)) (key : Key) :
    (runAll .empty calls).datastore key =
      ((effective (callsOn key calls)).map entry).argmax Prod.snd := by
  rw [runAll_datastore]
  cases h : callsOn key calls with
  | nil => rfl
  | cons first rest =>
    rw [List.foldl_cons, effective, ← foldl_step_some]
    have hfirst : step ((DatastoreManager.empty : DatastoreManager Key Value).datastore key)
        first = some first.entry := by
      cases hw : first.writer <;> simp [step, hw, DatastoreManager.empty, DatastoreManager.loaded]
    rw [hfirst]

/-! ## Highest-versioned calls -/

/-- `c` is a call on its key that no other call on that key exceeds in version. -/
def IsHighest (calls : List (StoreCall Key Value)) (c : StoreCall Key Value) : Prop :=
  c ∈ calls ∧ ∀ d ∈ calls, d.key = c.key → d.version ≤ c.version

/-- Every key touched holds the value and version of a highest-versioned call. -/
def HoldsHighest (calls : List (StoreCall Key Value)) : Prop :=
  ∀ c ∈ calls, ∃ d, IsHighest calls d ∧ d.key = c.key ∧
    (runAll .empty calls).datastore c.key = some d.entry

/-- Every reordering yields the same datastore. -/
def OrderIrrelevant (calls : List (StoreCall Key Value)) : Prop :=
  ∀ calls', calls'.Perm calls →
    (runAll .empty calls').datastore = (runAll .empty calls).datastore

/-- Calls with the same key and version carry the same value. -/
def Consistent (calls : List (StoreCall Key Value)) : Prop :=
  ∀ c ∈ calls, ∀ d ∈ calls, c.key = d.key → c.version = d.version → c.value = d.value

theorem mem_callsOn {calls : List (StoreCall Key Value)} {key : Key} {c : StoreCall Key Value} :
    c ∈ callsOn key calls ↔ c ∈ calls ∧ c.key = key := by simp [callsOn]

omit [DecidableEq Key] in
theorem effective_subset (calls : List (StoreCall Key Value)) : effective calls ⊆ calls := by
  cases calls with
  | nil => exact List.Subset.refl _
  | cons c rest => exact List.cons_subset_cons _ (List.filter_subset_self _)

omit [DecidableEq Key] in
theorem mem_effective_of_commit {calls : List (StoreCall Key Value)} {c : StoreCall Key Value}
    (hc : c ∈ calls) (hw : c.writer = .commit) : c ∈ effective calls := by
  cases calls with
  | nil => exact hc
  | cons d rest =>
    rcases List.mem_cons.mp hc with rfl | hc
    · exact List.mem_cons_self
    · exact List.mem_cons_of_mem _ (List.mem_filter.mpr ⟨hc, by simpa using hw⟩)

/-- The entry of a touched key is the one of an effective call, and none of these is higher. -/
theorem exists_effective {calls : List (StoreCall Key Value)} {c : StoreCall Key Value}
    (hc : c ∈ calls) : ∃ d ∈ effective (callsOn c.key calls),
      (runAll .empty calls).datastore c.key = some d.entry ∧
        ∀ d' ∈ effective (callsOn c.key calls), d'.version ≤ d.version := by
  have hne : effective (callsOn c.key calls) ≠ [] := by
    have hmem : c ∈ callsOn c.key calls := mem_callsOn.mpr ⟨hc, rfl⟩
    cases h : callsOn c.key calls with
    | nil => simp [h] at hmem
    | cons => simp [effective]
  rw [runAll_empty]
  obtain ⟨e, he⟩ : ∃ e, ((effective (callsOn c.key calls)).map entry).argmax Prod.snd = some e :=
    Option.ne_none_iff_exists'.mp (by simpa [List.argmax_eq_none] using hne)
  obtain ⟨d, hd, rfl⟩ := List.mem_map.mp (List.argmax_mem he)
  exact ⟨d, hd, he, fun d' hd' => List.le_of_mem_argmax (f := Prod.snd)
    (List.mem_map_of_mem hd') he⟩

/-- The highest version of every key is carried by a call that the store does not ignore. -/
def HighestEffective (calls : List (StoreCall Key Value)) : Prop :=
  ∀ c ∈ calls, ∃ d ∈ effective (callsOn c.key calls), IsHighest calls d

theorem holdsHighest_iff (calls : List (StoreCall Key Value)) :
    HoldsHighest calls ↔ HighestEffective calls := by
  constructor
  · intro h c hc
    obtain ⟨d, hd, hdk, he⟩ := h c hc
    obtain ⟨f, hf, hfe, -⟩ := exists_effective hc
    have hfc := mem_callsOn.mp (effective_subset _ hf)
    refine ⟨f, hf, hfc.1, fun g hg hgk => ?_⟩
    have hv : f.version = d.version := congrArg Prod.snd (Option.some.inj (hfe.symm.trans he))
    exact hv ▸ hd.2 g hg (by rw [hgk, hfc.2, hdk])
  · intro h c hc
    obtain ⟨d, hd, hdmax⟩ := h c hc
    obtain ⟨f, hf, hfe, hfmax⟩ := exists_effective hc
    have hfc := mem_callsOn.mp (effective_subset _ hf)
    have hdc := mem_callsOn.mp (effective_subset _ hd)
    exact ⟨f, ⟨hfc.1, fun g hg hgk => (hdmax.2 g hg (by rw [hgk, hfc.2, hdc.2])).trans
      (hfmax d hd)⟩, hfc.2, hfe⟩

/-- The highest version of every key is carried by a commit, or all calls on the key have it. -/
def CommitHighestOrConstant (calls : List (StoreCall Key Value)) : Prop :=
  ∀ c ∈ calls, (∃ d, IsHighest calls d ∧ d.key = c.key ∧ d.writer = .commit) ∨
    ∀ d ∈ calls, d.key = c.key → d.version = c.version

theorem HoldsHighest.eq_of_perm {calls calls' : List (StoreCall Key Value)}
    (hcons : Consistent calls) (hperm : calls'.Perm calls) (h : HoldsHighest calls)
    (h' : HoldsHighest calls') :
    (runAll .empty calls').datastore = (runAll .empty calls).datastore := by
  funext key
  by_cases hk : ∃ c ∈ calls, c.key = key
  · obtain ⟨c, hc, rfl⟩ := hk
    obtain ⟨d, hd, hdk, he⟩ := h c hc
    obtain ⟨d', hd', hdk', he'⟩ := h' c (hperm.mem_iff.mpr hc)
    have hmem' : d' ∈ calls := hperm.mem_iff.mp hd'.1
    have hv : d'.version = d.version := le_antisymm (hd.2 d' hmem' (hdk'.trans hdk.symm))
      (hd'.2 d (hperm.mem_iff.mpr hd.1) (hdk.trans hdk'.symm))
    have hval := hcons d' hmem' d hd.1 (hdk'.trans hdk.symm) hv
    rw [he, he', entry, entry, hv, hval]
  · have hnil : ∀ l : List (StoreCall Key Value), (∀ c ∈ l, c ∈ calls) → callsOn key l = [] :=
      fun l hl => List.eq_nil_iff_forall_not_mem.mpr fun c hc =>
        hk ⟨c, hl c (mem_callsOn.mp hc).1, (mem_callsOn.mp hc).2⟩
    rw [runAll_empty, runAll_empty, hnil calls fun _ => id, hnil calls' fun _ => hperm.mem_iff.mp]

omit [DecidableEq Key] in
theorem IsHighest.of_perm {calls calls' : List (StoreCall Key Value)} {c : StoreCall Key Value}
    (hperm : calls'.Perm calls) (h : IsHighest calls c) : IsHighest calls' c :=
  ⟨hperm.mem_iff.mpr h.1, fun d hd => h.2 d (hperm.mem_iff.mp hd)⟩

theorem highestEffective_of_commitHighest {calls calls' : List (StoreCall Key Value)}
    (h : CommitHighestOrConstant calls) (hperm : calls'.Perm calls) : HighestEffective calls' := by
  intro c hc
  rcases h c (hperm.mem_iff.mp hc) with ⟨d, hd, hdk, hw⟩ | hconst
  · have hd' := hd.of_perm hperm
    exact ⟨d, mem_effective_of_commit (mem_callsOn.mpr ⟨hd'.1, hdk⟩) hw, hd'⟩
  · -- all calls on the key have one version, so the one that is effective has it
    obtain ⟨d, hd, -⟩ := exists_effective hc
    have hdc := mem_callsOn.mp (effective_subset _ hd)
    refine ⟨d, hd, hdc.1, fun f hf hfk => le_of_eq ?_⟩
    rw [hconst f (hperm.mem_iff.mp hf) (hfk.trans hdc.2),
      hconst d (hperm.mem_iff.mp hdc.1) hdc.2]

theorem commitHighest_of_converges {calls : List (StoreCall Key Value)}
    (h : HoldsHighest calls) (hord : OrderIrrelevant calls) : CommitHighestOrConstant calls := by
  intro c hc
  by_contra hcon
  push Not at hcon
  obtain ⟨hcommit, d, hd, hdk, hne⟩ := hcon
  obtain ⟨top, htop, htopk, he⟩ := h c hc
  -- a call that is put first sets the entry, and no commit reaches the highest version
  have hfirst : ∀ f ∈ calls, f.key = c.key → f.version = top.version := by
    intro f hf hfk
    obtain ⟨l, r, rfl⟩ := List.append_of_mem hf
    have hperm : (f :: (l ++ r)).Perm (l ++ f :: r) := List.perm_middle.symm
    have hentry := congrFun (hord _ hperm) c.key
    rw [he] at hentry
    obtain ⟨g, hg, hge, -⟩ := exists_effective (hperm.mem_iff.mpr hc)
    have hgv : g.version = top.version :=
      congrArg Prod.snd (Option.some.inj (hge.symm.trans hentry))
    have hgc := mem_callsOn.mp (effective_subset _ hg)
    have hgtop : IsHighest (l ++ f :: r) g := ⟨hperm.mem_iff.mp hgc.1, fun x hx hxk =>
      hgv ▸ htop.2 x hx (by rw [hxk, hgc.2, htopk])⟩
    rw [callsOn, List.filter_cons_of_pos (by simpa using hfk), effective] at hg
    rcases List.mem_cons.mp hg with rfl | hg
    · exact hgv
    · exact absurd (by simpa using (List.mem_filter.mp hg).2) (hcommit g hgtop hgc.2)
  exact hne ((hfirst d hd hdk).trans (hfirst c hc rfl).symm)

/-- A sequence leaves every key at its highest-versioned call exactly when no ignored
`tryUpdate` carries that version, and does so in every order exactly when a commit carries it
or all calls on the key do. -/
theorem convergence {calls : List (StoreCall Key Value)} (hcons : Consistent calls) :
    (HoldsHighest calls ↔ HighestEffective calls) ∧
      (HoldsHighest calls ∧ OrderIrrelevant calls ↔ CommitHighestOrConstant calls) := by
  refine ⟨holdsHighest_iff calls, fun h => commitHighest_of_converges h.1 h.2, fun h => ?_⟩
  have hall : ∀ calls', calls'.Perm calls → HoldsHighest calls' := fun calls' hperm =>
    (holdsHighest_iff calls').mpr (highestEffective_of_commitHighest h hperm)
  exact ⟨hall calls (.refl _), fun calls' hperm =>
    (hall calls (.refl _)).eq_of_perm hcons hperm (hall calls' hperm)⟩

/-- A commit of version 1 followed by the read repair of version 2. -/
def staleRepair : List (StoreCall (List Char) (List Char)) :=
  [⟨.commit, ['k'], ['a'], 1⟩, ⟨.tryUpdate, ['k'], ['b'], 2⟩]

theorem staleRepair_convergence :
    (HoldsHighest staleRepair ↔ HighestEffective staleRepair) ∧
      (HoldsHighest staleRepair ∧ OrderIrrelevant staleRepair ↔
        CommitHighestOrConstant staleRepair) := by
  apply convergence
  simp [Consistent, staleRepair]

/-- The repair is ignored: version 1 stays although version 2 was handed over. -/
theorem staleRepair_diverges :
    (∀ c ∈ staleRepair, 1 ≤ c.version) ∧ Consistent staleRepair ∧
      (runAll .empty staleRepair).datastore ['k'] = some (['a'], 1) ∧
      ¬ HoldsHighest staleRepair ∧ ¬ OrderIrrelevant staleRepair := by
  have hrun : (runAll .empty staleRepair).datastore ['k'] = some (['a'], 1) := by rfl
  refine ⟨by simp [staleRepair], by simp [Consistent, staleRepair], hrun, fun h => ?_, fun h => ?_⟩
  · obtain ⟨d, hd, hdk, he⟩ := h ⟨.commit, ['k'], ['a'], 1⟩ (by simp [staleRepair])
    have hv : d.version = 1 := congrArg Prod.snd (Option.some.inj (he.symm.trans hrun))
    have h2 : (2 : ℤ) ≤ d.version :=
      hd.2 ⟨.tryUpdate, ['k'], ['b'], 2⟩ (by simp [staleRepair]) hdk.symm
    omega
  · have hswap := congrFun (h staleRepair.reverse (List.reverse_perm _)) ['k']
    rw [hrun] at hswap
    exact absurd hswap (by decide)

end StoreCall
end LeaderlessDatastore
