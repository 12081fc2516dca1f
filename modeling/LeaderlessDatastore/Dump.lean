import LeaderlessDatastore.Convergence
import LeaderlessDatastore.Text
import LeaderlessDatastore.Transition

/-!
# The dump thread

`DatastoreManager::dump` beside calls of `commit` and `tryUpdate`, from the start of the
thread to the end of `close`.  A step is one load or store of an atomic, or one operation on
a mutex together with the accesses to the maps that follow it.
-/

namespace LeaderlessDatastore

open Function

/-- `std::shared_mutex` -/
inductive SharedMutex where
  | exclusive (t : ℕ)
  | shared (readers : ℕ)

/-- Where a call of `commit` or `tryUpdate` stands. -/
inductive CallPc where
  | lockPending
  | lockDatastore
  | storePending
  | unlockDatastore
  | unlockPending
  deriving DecidableEq

/-- Where the dump thread stands. -/
inductive DumpPc where
  | lockPending
  | loadStop
  /-- before `localPending = pending` -/
  | loadPending
  /-- before `if (pending)` -/
  | testPending
  | lockDatastore
  | storePending
  | unlockDatastore
  | unlockPending
  /-- before `if (localPending)` -/
  | write
  | ended
  deriving DecidableEq

inductive DumpThread where
  | dump
  | call (t : ℕ)
  deriving DecidableEq

namespace StoreCall

variable {Key Value : Type}

/-- `commit` does not take `pendingMutex`. -/
def start (c : StoreCall Key Value) : CallPc :=
  match c.writer with
  | .commit => .lockDatastore
  | .tryUpdate => .lockPending

variable [DecidableEq Key]

/-- The changes a call makes to the entries, and whether it comes to `pending = true`. -/
def modify (ds : DatastoreManager Key Value) (c : StoreCall Key Value) :
    DatastoreManager Key Value × Bool :=
  let entry := match c.writer with
    | .commit => ds.find c.key
    | .tryUpdate => DatastoreManager.Iterator.default
  let after := { ds with pending := false }.writeOrEmplace entry c.key c.value c.version
  ({ after with pending := ds.pending }, after.pending)

/-- What is left to do before the locks are released. -/
def finish (ds : DatastoreManager Key Value) (c : StoreCall Key Value) :
    DatastoreManager Key Value :=
  match c.writer with
  | .commit => { ds with owner2pc := update ds.owner2pc c.key none }
  | .tryUpdate => ds

@[simp] theorem modify_pending (ds : DatastoreManager Key Value) (c : StoreCall Key Value) :
    (c.modify ds).1.pending = ds.pending := rfl

/-- The entries stay as they are where `pending` is not stored. -/
theorem modify_datastore {ds : DatastoreManager Key Value} {c : StoreCall Key Value}
    (h : (c.modify ds).2 = false) : (c.modify ds).1.datastore = ds.datastore := by
  unfold modify DatastoreManager.writeOrEmplace at *
  dsimp only at *
  split at h
  · split at h
    · split_ifs at h with hlt
      simp [*]
    · simp [*]
  · cases h

@[simp] theorem finish_datastore (ds : DatastoreManager Key Value) (c : StoreCall Key Value) :
    (c.finish ds).datastore = ds.datastore := by
  unfold finish
  split <;> rfl

@[simp] theorem finish_pending (ds : DatastoreManager Key Value) (c : StoreCall Key Value) :
    (c.finish ds).pending = ds.pending := by
  unfold finish
  split <;> rfl

/-- The pieces of a call make up the call. -/
theorem finish_modify (ds : DatastoreManager Key Value) (c : StoreCall Key Value) :
    c.finish { (c.modify ds).1 with pending := (c.modify ds).2 || ds.pending } = c.run ds := by
  cases hw : c.writer with
  | tryUpdate => simp [finish, modify, run, hw, DatastoreManager.tryUpdate,
      DatastoreManager.writeOrEmplace, DatastoreManager.Iterator.default]
  | commit =>
    simp only [finish, modify, run, hw, DatastoreManager.commit, DatastoreManager.writeOrEmplace]
    cases hf : ds.find c.key with
    | none => simp
    | some location =>
      cases hd : ds.datastore location with
      | none => simp [hd]
      | some entry =>
        simp only [hd]
        split_ifs <;> simp

end StoreCall

structure Dumping (Key Value : Type) where
  manager : DatastoreManager Key Value
  stop : Bool
  datastoreMutex : SharedMutex
  pendingMutex : Option DumpThread
  /-- the calls that have not returned -/
  call : ℕ → Option (StoreCall Key Value × CallPc)
  pc : DumpPc
  localStop : Bool
  localPending : Bool
  localDatastore : Key → Option (Value × ℤ)
  /-- the contents last written to the file -/
  file : Option (Key → Option (Value × ℤ))

namespace Dumping

variable {Key Value : Type}

/-- After `initialize` and `load`. -/
def initial (contents : Key → Option (Value × ℤ)) : Dumping Key Value where
  manager := .loaded contents
  stop := false
  datastoreMutex := .shared 0
  pendingMutex := none
  call := fun _ => none
  pc := .lockPending
  localStop := false
  localPending := false
  localDatastore := fun _ => none
  file := none

def setPending (s : Dumping Key Value) (pending : Bool) : Dumping Key Value :=
  { s with manager := { s.manager with pending := pending } }

def setCall (s : Dumping Key Value) (t : ℕ) (call : Option (StoreCall Key Value × CallPc)) :
    Dumping Key Value := { s with call := update s.call t call }

/-- The next step of the dump thread; `none` where it waits for a mutex or has ended. -/
def runDump (s : Dumping Key Value) : Option (Dumping Key Value) :=
  match s.pc with
  | .lockPending =>
    if s.pendingMutex.isNone then
      some { s with pendingMutex := some .dump, pc := .loadStop }
    else none
  | .loadStop => some { s with localStop := s.stop, pc := .loadPending }
  | .loadPending => some { s with localPending := s.manager.pending, pc := .testPending }
  -- the second load of `pending`
  | .testPending =>
    some { s with pc := if s.manager.pending then .lockDatastore else .unlockPending }
  | .lockDatastore =>
    match s.datastoreMutex with
    | .shared readers =>
      some { s with
        datastoreMutex := .shared (readers + 1)
        localDatastore := s.manager.datastore
        pc := .storePending }
    | .exclusive _ => none
  -- cleared whether or not this iteration is going to write
  | .storePending => some { s.setPending false with pc := .unlockDatastore }
  | .unlockDatastore =>
    match s.datastoreMutex with
    | .shared (readers + 1) =>
      some { s with datastoreMutex := .shared readers, pc := .unlockPending }
    | _ => none
  | .unlockPending => some { s with pendingMutex := none, pc := .write }
  | .write =>
    let next : DumpPc := if s.localStop then .ended else .lockPending
    if s.localPending then
      some { s with file := some s.localDatastore, localDatastore := fun _ => none, pc := next }
    else some { s with pc := next }
  | .ended => none

section Calls

variable [DecidableEq Key]

/-- The next step of call `t`. -/
def runCall (s : Dumping Key Value) (t : ℕ) : Option (Dumping Key Value) :=
  match s.call t with
  | none => none
  | some (c, .lockPending) =>
    if s.pendingMutex.isNone then
      some { s.setCall t (some (c, .lockDatastore)) with pendingMutex := some (.call t) }
    else none
  | some (c, .lockDatastore) =>
    match s.datastoreMutex with
    | .shared 0 =>
      let next : CallPc := if (c.modify s.manager).2 then .storePending else .unlockDatastore
      some { s.setCall t (some (c, next)) with
        datastoreMutex := .exclusive t
        manager := (c.modify s.manager).1 }
    | _ => none
  | some (c, .storePending) =>
    some ((s.setCall t (some (c, .unlockDatastore))).setPending true)
  | some (c, .unlockDatastore) =>
    let next := match c.writer with
      -- returns, since it holds no other mutex
      | .commit => none
      | .tryUpdate => some (c, .unlockPending)
    some { s.setCall t next with datastoreMutex := .shared 0, manager := c.finish s.manager }
  | some (_, .unlockPending) => some { s.setCall t none with pendingMutex := none }

inductive Event (Key Value : Type) where
  | dump
  | call (t : ℕ) (c : StoreCall Key Value)
  | run (t : ℕ)
  /-- `close` stores `stop` -/
  | stop
  /-- the `join` of `close` returns -/
  | join

def step (s : Dumping Key Value) : Event Key Value → Option (Dumping Key Value)
  | .dump => s.runDump
  | .call t c => if (s.call t).isNone then some (s.setCall t (some (c, c.start))) else none
  | .run t => s.runCall t
  | .stop => some { s with stop := true }
  | .join => if s.stop ∧ s.pc = .ended then some s else none

/-- A call whose steps nobody comes between is the call of the sequential model. -/
theorem exists_run_alone {s : Dumping Key Value} {t : ℕ} {c : StoreCall Key Value}
    (hcall : s.call t = some (c, .lockDatastore)) (hfree : s.datastoreMutex = .shared 0) :
    ∃ s', Transition.Run step (fun _ e => e = .run t) s s' ∧ s'.manager = c.run s.manager ∧
      s'.datastoreMutex = .shared 0 := by
  have hunlock : ∀ {s : Dumping Key Value}, s.call t = some (c, .unlockDatastore) →
      ∃ s', step s (.run t) = some s' ∧ s'.manager = c.finish s.manager ∧
        s'.datastoreMutex = .shared 0 := by
    intro s hs
    simp only [step, runCall, hs]
    exact ⟨_, rfl, rfl, rfl⟩
  have hsingle : ∀ {s s' : Dumping Key Value}, step s (.run t) = some s' →
      Transition.Run step (fun _ e => e = .run t) s s' := fun h => .single rfl h
  rw [← StoreCall.finish_modify]
  obtain ⟨s₁, hlock, hmanager, hcall₁⟩ : ∃ s₁, step s (.run t) = some s₁ ∧
      s₁.manager = (c.modify s.manager).1 ∧ s₁.call t = some (c,
        if (c.modify s.manager).2 then .storePending else .unlockDatastore) := by
    simp only [step, runCall, hcall, hfree]
    exact ⟨_, rfl, rfl, by simp [setCall]⟩
  by_cases hchanged : (c.modify s.manager).2
  · rw [if_pos hchanged] at hcall₁
    obtain ⟨s₂, hstore, hmanager₂, hcall₂⟩ : ∃ s₂, step s₁ (.run t) = some s₂ ∧
        s₂.manager = { s₁.manager with pending := true } ∧
        s₂.call t = some (c, .unlockDatastore) := by
      simp only [step, runCall, hcall₁]
      exact ⟨_, rfl, rfl, by simp [setCall, setPending]⟩
    obtain ⟨s₃, hlast, hmanager₃, hfree₃⟩ := hunlock hcall₂
    refine ⟨s₃, ((hsingle hlock).trans (hsingle hstore)).trans (hsingle hlast), ?_, hfree₃⟩
    rw [hmanager₃, hmanager₂, hmanager, hchanged, Bool.true_or]
  · rw [if_neg hchanged] at hcall₁
    obtain ⟨s₂, hlast, hmanager₂, hfree₂⟩ := hunlock hcall₁
    refine ⟨s₂, (hsingle hlock).trans (hsingle hlast), ?_, hfree₂⟩
    rw [hmanager₂, hmanager, Bool.eq_false_of_not_eq_true hchanged, Bool.false_or]
    rfl

/-- All calls return before `close` is called. -/
def Orderly (s : Dumping Key Value) : Event Key Value → Prop
  | .call _ _ => s.stop = false
  | .stop => ∀ t, s.call t = none
  | _ => True

/-- A commit stores `pending` after the first load of an iteration has read false and before
the second load. -/
def Overtaken (s : Dumping Key Value) (e : Event Key Value) : Prop :=
  ∃ t c, e = .run t ∧ s.call t = some (c, .storePending) ∧ c.writer = .commit ∧
    s.pc = .testPending ∧ s.localPending = false

end Calls

/-! ## The mutexes and the flag -/

variable {s s' : Dumping Key Value} {t : ℕ}

/-- What a call holds where it stands. -/
def Standing (s : Dumping Key Value) (t : ℕ) : Option (StoreCall Key Value × CallPc) → Prop
  | none => True
  | some (c, pc) => s.stop = false ∧
    (pc = .storePending ∨ pc = .unlockDatastore → s.datastoreMutex = .exclusive t) ∧
    (c.writer = .tryUpdate ∧ pc ≠ .lockPending ∨ pc = .unlockPending →
      s.pendingMutex = some (.call t))

/-- What the dump thread knows where it stands. -/
def Seen (s : Dumping Key Value) : DumpPc → Prop
  | .lockPending | .loadStop | .loadPending => True
  | .testPending => s.localPending = s.manager.pending
  | .lockDatastore => s.localPending
  | .storePending => (∃ readers, s.datastoreMutex = .shared (readers + 1)) ∧
    s.localPending ∧ s.localDatastore = s.manager.datastore
  | .unlockDatastore => ((∃ readers, s.datastoreMutex = .shared (readers + 1)) ∧
    s.localPending ∧ s.localDatastore = s.manager.datastore) ∧
    (s.localStop → s.manager.pending = false)
  | .unlockPending | .write => s.localStop → s.manager.pending = false
  | .ended => s.localStop ∧ s.manager.pending = false

structure Ok (s : Dumping Key Value) : Prop where
  standing : ∀ t, s.Standing t (s.call t)
  seen : s.Seen s.pc
  pendingMutex_eq : s.pc ≠ .lockPending → s.pc ≠ .write → s.pc ≠ .ended →
    s.pendingMutex = some .dump
  stop_of_localStop : s.localStop → s.stop

theorem Ok.of_initial (contents : Key → Option (Value × ℤ)) : (initial contents).Ok := by
  constructor <;> simp [initial, Standing, Seen]

theorem Standing.congr {call : Option (StoreCall Key Value × CallPc)} (h : s.Standing t call)
    (hstop : s'.stop = s.stop)
    (hdatastore : s.datastoreMutex = .exclusive t → s'.datastoreMutex = .exclusive t)
    (hpending : s.pendingMutex = some (.call t) → s'.pendingMutex = some (.call t)) :
    s'.Standing t call := by
  rcases call with - | ⟨c, pc⟩
  · trivial
  · obtain ⟨hrunning, hexclusive, hcall⟩ := h
    exact ⟨hstop.trans hrunning, fun hpc => hdatastore (hexclusive hpc),
      fun hpc => hpending (hcall hpc)⟩

theorem Ok.call_eq_none (h : s.Ok) (hstop : s.stop) (t : ℕ) : s.call t = none := by
  have hstanding := h.standing t
  cases hcall : s.call t with
  | none => rfl
  | some entry =>
    rw [hcall] at hstanding
    rw [hstanding.1] at hstop
    cases hstop

/-- Every step of the dump thread. -/
theorem Ok.dumped (h : s.Ok) (hstep : s.runDump = some s') : s'.Ok := by
  have hseen := h.seen
  have hmutex := h.pendingMutex_eq
  cases hpc : s.pc <;> rw [hpc] at hseen hmutex <;> simp only [runDump, hpc] at hstep
  case lockPending =>
    split_ifs at hstep with hfree
    cases hstep
    exact { h with
      standing := fun t => (h.standing t).congr rfl id (by simp_all)
      seen := trivial
      pendingMutex_eq := fun _ _ _ => rfl }
  case loadStop =>
    cases hstep
    exact { h with
      seen := trivial
      pendingMutex_eq := fun _ _ _ => hmutex nofun nofun nofun
      stop_of_localStop := id }
  case loadPending =>
    cases hstep
    exact { h with
      seen := rfl
      pendingMutex_eq := fun _ _ _ => hmutex nofun nofun nofun }
  case testPending =>
    cases hstep
    refine { h with
      seen := ?_
      pendingMutex_eq := fun _ _ _ => hmutex nofun nofun nofun }
    dsimp only
    split_ifs with hpending
    · exact hseen.trans hpending
    · exact fun _ => by simpa using hpending
  case lockDatastore =>
    split at hstep <;> cases hstep
    next readers hshared =>
    exact { h with
      standing := fun t => (h.standing t).congr rfl (by simp [hshared]) id
      seen := ⟨⟨readers, rfl⟩, hseen, rfl⟩
      pendingMutex_eq := fun _ _ _ => hmutex nofun nofun nofun }
  case storePending =>
    cases hstep
    exact { h with
      seen := ⟨hseen, fun _ => rfl⟩
      pendingMutex_eq := fun _ _ _ => hmutex nofun nofun nofun }
  case unlockDatastore =>
    split at hstep <;> cases hstep
    next readers hshared =>
    exact { h with
      standing := fun t => (h.standing t).congr rfl (by simp [hshared]) id
      seen := hseen.2
      pendingMutex_eq := fun _ _ _ => hmutex nofun nofun nofun }
  case unlockPending =>
    cases hstep
    exact { h with
      standing := fun t => (h.standing t).congr rfl id (by simp [hmutex nofun nofun nofun])
      seen := hseen
      pendingMutex_eq := fun _ hwrite => absurd rfl hwrite }
  case write =>
    obtain ⟨file, localDatastore, rfl⟩ : ∃ file localDatastore, s' = { s with
        file := file
        localDatastore := localDatastore
        pc := if s.localStop then .ended else .lockPending } := by
      by_cases hwritten : s.localPending
      · rw [if_pos hwritten] at hstep
        cases hstep
        exact ⟨_, _, rfl⟩
      · rw [if_neg hwritten] at hstep
        cases hstep
        exact ⟨_, _, rfl⟩
    refine { h with seen := ?_, pendingMutex_eq := ?_ } <;> dsimp only <;> split_ifs with hstop
    · exact ⟨hstop, hseen hstop⟩
    · trivial
    · exact fun _ _ hended => absurd rfl hended
    · exact fun hlock => absurd rfl hlock
  case ended => cases hstep

/-- What the dump thread knows stays true where it does not read and `pending` is not stored. -/
theorem Seen.congr {pc : DumpPc} (h : s.Seen pc) (hstop : s'.localStop = s.localStop)
    (hlocal : s'.localPending = s.localPending)
    (hpending : s'.manager.pending = s.manager.pending)
    (hreading : ∀ readers, s.datastoreMutex ≠ .shared (readers + 1)) : s'.Seen pc := by
  cases pc with
  | lockPending | loadStop | loadPending => trivial
  | testPending => exact hlocal.trans (h.trans hpending.symm)
  | lockDatastore => exact hlocal.trans h
  | storePending => exact absurd h.1.choose_spec (hreading _)
  | unlockDatastore => exact absurd h.1.1.choose_spec (hreading _)
  | unlockPending | write => exact fun hs => hpending.trans (h (hstop ▸ hs))
  | ended => exact ⟨hstop.trans h.1, hpending.trans h.2⟩

/-- A store of `pending` that does not come between two loads of the dump thread that differ. -/
theorem Seen.stored {pc : DumpPc} (h : s.Seen pc) (hstop : s.localStop = false)
    (htest : pc = .testPending → s.localPending) : (s.setPending true).Seen pc := by
  have hnever : ∀ {P : Prop}, s.localStop → P := fun hs => by simp [hstop] at hs
  cases pc with
  | lockPending | loadStop | loadPending => trivial
  | testPending => exact htest rfl
  | lockDatastore | storePending => exact h
  | unlockDatastore => exact ⟨h.1, hnever⟩
  | unlockPending | write => exact hnever
  | ended => exact hnever h.1

/-- The mutexes change hands. -/
theorem standing_update (h : ∀ t, s.Standing t (s.call t))
    {call : Option (StoreCall Key Value × CallPc)} (hcall : s'.call = update s.call t call)
    (hself : s'.Standing t call) (hstop : s'.stop = s.stop)
    (hdatastore : ∀ t' ≠ t, s.datastoreMutex = .exclusive t' → s'.datastoreMutex = .exclusive t')
    (hpending : ∀ t' ≠ t, s.pendingMutex = some (.call t') → s'.pendingMutex = some (.call t')) :
    ∀ t, s'.Standing t (s'.call t) := by
  rw [hcall, forall_update_iff s.call fun t call => s'.Standing t call]
  exact ⟨hself, fun t' ht' => (h t').congr hstop (hdatastore t' ht') (hpending t' ht')⟩

/-! ## What the file still has to get -/

/-- The contents of the file once the dump thread has written what it has copied. -/
def coming (s : Dumping Key Value) : Option (Key → Option (Value × ℤ)) :=
  if s.pc ∈ [.unlockDatastore, .unlockPending, .write] ∧ s.localPending then
    some s.localDatastore
  else s.file

/-- The entries are in the file or on the way to it. -/
def Saved (s : Dumping Key Value) : Prop :=
  s.manager.pending ∨ (∃ t c, s.call t = some (c, .storePending)) ∨
    s.coming = some s.manager.datastore

theorem Saved.congr (h : s.Saved) (hmanager : s'.manager = s.manager) (hcall : s'.call = s.call)
    (hcoming : s'.coming = s.coming) : s'.Saved := by
  rwa [Saved, hmanager, hcall, hcoming]

theorem Saved.dumped (h : s.Saved) (hok : s.Ok) (hstep : s.runDump = some s') : s'.Saved := by
  have hseen := hok.seen
  cases hpc : s.pc <;> rw [hpc] at hseen <;> simp only [runDump, hpc] at hstep
  case lockPending =>
    split_ifs at hstep
    cases hstep
    exact h.congr rfl rfl (by simp [coming, hpc])
  case loadStop | loadPending =>
    cases hstep
    exact h.congr rfl rfl (by simp [coming, hpc])
  case testPending =>
    cases hstep
    -- without the flag the two loads agree, and nothing will be copied
    by_cases hpending : s.manager.pending
    · exact .inl hpending
    · exact h.congr rfl rfl (by simp [coming, hpc, hpending, hseen.trans (by simpa using hpending)])
  case lockDatastore =>
    split at hstep <;> cases hstep
    exact h.congr rfl rfl (by simp [coming, hpc])
  case storePending =>
    cases hstep
    obtain ⟨-, hlocal, hcopy⟩ := hseen
    exact .inr (.inr (by simp [coming, setPending, hlocal, hcopy]))
  case unlockDatastore =>
    split at hstep <;> cases hstep
    exact h.congr rfl rfl (by simp [coming, hpc])
  case unlockPending =>
    cases hstep
    exact h.congr rfl rfl (by simp [coming, hpc])
  case write =>
    -- what was coming is now in the file
    by_cases hwritten : s.localPending
    · rw [if_pos hwritten] at hstep
      cases hstep
      exact h.congr rfl rfl (by cases s.localStop <;> simp [coming, hpc, hwritten])
    · rw [if_neg hwritten] at hstep
      cases hstep
      exact h.congr rfl rfl (by simp [coming, hpc, hwritten])
  case ended => cases hstep

/-- When the dump thread has ended there is nothing left to write. -/
theorem Saved.file_eq (h : s.Saved) (hok : s.Ok) (hended : s.pc = .ended) :
    s.file = some s.manager.datastore := by
  have hseen := hok.seen
  rw [hended] at hseen
  rcases h with hpending | ⟨t, c, hcall⟩ | hcoming
  · rw [hseen.2] at hpending
    cases hpending
  · rw [hok.call_eq_none (hok.stop_of_localStop hseen.1)] at hcall
    cases hcall
  · simpa [coming, hended] using hcoming

theorem runDump_datastore (hstep : s.runDump = some s') :
    s'.manager.datastore = s.manager.datastore := by
  cases hpc : s.pc <;> simp only [runDump, hpc] at hstep
  case lockPending | write => split_ifs at hstep <;> cases hstep <;> rfl
  case lockDatastore | unlockDatastore =>
    split at hstep <;> cases hstep
    rfl
  case ended => cases hstep
  all_goals
    cases hstep
    rfl

section Calls

variable [DecidableEq Key]

theorem exists_call (hstep : s.runCall t = some s') : ∃ c pc, s.call t = some (c, pc) := by
  cases hcall : s.call t with
  | none => simp [runCall, hcall] at hstep
  | some entry => exact ⟨entry.1, entry.2, rfl⟩

/-- Every step of a call that does not come between the two loads of the dump thread. -/
theorem Ok.called (h : s.Ok) (hstep : s.runCall t = some s') (hseen : ¬ s.Overtaken (.run t)) :
    s'.Ok := by
  have ht := h.standing t
  obtain ⟨c, pc, hcall⟩ := exists_call hstep
  rw [hcall] at ht
  cases pc <;> simp only [runCall, hcall] at hstep
  case lockPending =>
    split_ifs at hstep with hfree
    cases hstep
    exact { h with
      standing := standing_update h.standing rfl ⟨ht.1, by simp, fun _ => rfl⟩ rfl
        (fun _ _ => id) (by simp_all)
      pendingMutex_eq := fun hlock hwrite hended => by
        rw [h.pendingMutex_eq hlock hwrite hended] at hfree
        cases hfree }
  case lockDatastore =>
    split at hstep <;> cases hstep
    next hshared =>
    refine { h with
      standing := standing_update h.standing rfl ⟨ht.1, fun _ => rfl, fun hpc => ?_⟩ rfl
        (by simp [hshared]) fun _ _ => id
      seen := h.seen.congr rfl rfl (StoreCall.modify_pending ..) (by simp [hshared]) }
    rcases hpc with hpc | hpc
    · exact ht.2.2 (.inl ⟨hpc.1, nofun⟩)
    · split_ifs at hpc
  case storePending =>
    cases hstep
    refine { h with
      standing := standing_update h.standing rfl
        ⟨ht.1, fun _ => ht.2.1 (.inl rfl), fun hpc => ht.2.2 (.inl ⟨?_, nofun⟩)⟩ rfl
        (fun _ _ => id) fun _ _ => id
      seen := h.seen.stored ?_ fun htest => ?_ }
    · simpa using hpc
    · by_contra hlocal
      have hstop := h.stop_of_localStop (by simpa using hlocal)
      rw [ht.1] at hstop
      cases hstop
    · -- a `tryUpdate` has the mutex that the dump thread has between its two loads
      cases hw : c.writer with
      | commit => by_contra hlocal; exact hseen ⟨t, c, rfl, hcall, hw, htest, by simpa using hlocal⟩
      | tryUpdate =>
        have hdump := h.pendingMutex_eq (by simp [htest]) (by simp [htest]) (by simp [htest])
        rw [ht.2.2 (.inl ⟨hw, nofun⟩)] at hdump
        cases hdump
  case unlockDatastore =>
    cases hstep
    have hexclusive := ht.2.1 (.inr rfl)
    refine { h with
      standing := standing_update h.standing rfl ?_ rfl (fun t' ht' ht'' => ?_) fun _ _ => id
      seen := h.seen.congr rfl rfl (StoreCall.finish_pending ..) (by simp [hexclusive]) }
    · cases hw : c.writer with
      | commit => trivial
      | tryUpdate => exact ⟨ht.1, by simp, fun _ => ht.2.2 (.inl ⟨hw, nofun⟩)⟩
    · rw [hexclusive] at ht''
      cases ht''
      exact absurd rfl ht'
  case unlockPending =>
    cases hstep
    have hpending := ht.2.2 (.inr rfl)
    refine { h with
      standing := standing_update h.standing rfl trivial rfl (fun _ _ => id)
        fun t' ht' ht'' => ?_
      pendingMutex_eq := fun hlock hwrite hended => ?_ }
    · rw [hpending] at ht''
      cases ht''
      exact absurd rfl ht'
    · rw [h.pendingMutex_eq hlock hwrite hended] at hpending
      cases hpending

theorem Ok.stepped {e : Event Key Value} (h : s.Ok) (horderly : s.Orderly e)
    (hseen : ¬ s.Overtaken e) (hstep : step s e = some s') : s'.Ok := by
  cases e with
  | dump => exact h.dumped hstep
  | call t c =>
    simp only [step] at hstep
    split_ifs at hstep
    cases hstep
    refine { h with
      standing := standing_update h.standing rfl ⟨horderly, ?_, ?_⟩ rfl (fun _ _ => id)
        fun _ _ => id }
    · unfold StoreCall.start
      split <;> simp
    · unfold StoreCall.start
      split <;> simp_all
  | run t => exact h.called hstep hseen
  | stop =>
    cases hstep
    exact { h with
      standing := fun t => by rw [horderly t]; trivial
      stop_of_localStop := fun _ => rfl }
  | join =>
    simp only [step] at hstep
    split_ifs at hstep
    cases hstep
    exact h

theorem Saved.called (h : s.Saved) (hstep : s.runCall t = some s') : s'.Saved := by
  have hmoved : ∀ {c : StoreCall Key Value} {pc : CallPc} {call}, s.call t = some (c, pc) →
      pc ≠ .storePending → s'.manager.pending = s.manager.pending →
      s'.manager.datastore = s.manager.datastore → s'.call = update s.call t call →
      s'.coming = s.coming → s'.Saved := by
    intro c pc call hcall hpc hpending hdatastore hcall' hcoming
    rw [Saved, hpending, hdatastore, hcall', hcoming]
    refine h.imp_right (Or.imp_left ?_)
    rintro ⟨t', c', ht'⟩
    have hne : t' ≠ t := by
      rintro rfl
      rw [hcall] at ht'
      cases ht'
      exact hpc rfl
    exact ⟨t', c', by rwa [update_of_ne hne]⟩
  obtain ⟨c, pc, hcall⟩ := exists_call hstep
  cases pc <;> simp only [runCall, hcall] at hstep
  case lockPending =>
    split_ifs at hstep
    cases hstep
    exact hmoved hcall nofun rfl rfl rfl rfl
  case lockDatastore =>
    split at hstep <;> cases hstep
    by_cases hchanged : (c.modify s.manager).2
    · exact .inr (.inl ⟨t, c, by simp [setCall, hchanged]⟩)
    · exact hmoved hcall nofun (StoreCall.modify_pending ..)
        (StoreCall.modify_datastore (by simpa using hchanged)) rfl rfl
  case storePending =>
    cases hstep
    exact .inl rfl
  case unlockDatastore =>
    cases hstep
    exact hmoved hcall nofun (StoreCall.finish_pending ..) (StoreCall.finish_datastore ..) rfl rfl
  case unlockPending =>
    cases hstep
    exact hmoved hcall nofun rfl rfl rfl rfl

theorem Saved.stepped {e : Event Key Value} (h : s.Saved) (hok : s.Ok)
    (hstep : step s e = some s') : s'.Saved := by
  cases e with
  | dump => exact h.dumped hok hstep
  | call t c =>
    simp only [step] at hstep
    split_ifs at hstep with hnone
    cases hstep
    refine h.imp_right (Or.imp_left ?_)
    rintro ⟨t', c', ht'⟩
    have hne : t' ≠ t := by
      rintro rfl
      simp [ht'] at hnone
    exact ⟨t', c', (update_of_ne hne ..).trans ht'⟩
  | run t => exact h.called hstep
  | stop =>
    cases hstep
    exact h
  | join =>
    simp only [step] at hstep
    split_ifs at hstep
    cases hstep
    exact h

/-! ## Runs -/

/-- Calls and `close` are in order and no commit comes between two loads. -/
def Undisturbed (s : Dumping Key Value) (e : Event Key Value) : Prop :=
  s.Orderly e ∧ ¬ s.Overtaken e

theorem Ok.of_run (h : Transition.Run step Undisturbed s s') (hok : s.Ok) : s'.Ok :=
  h.preserves (fun _ _ _ hs ha hstep => hs.stepped ha.1 ha.2 hstep) hok

theorem Saved.of_run (h : Transition.Run step Undisturbed s s') (hok : s.Ok)
    (hsaved : s.Saved) : s'.Saved :=
  (h.preserves (P := fun s => s.Ok ∧ s.Saved)
    (fun _ _ _ hs ha hstep => ⟨hs.1.stepped ha.1 ha.2 hstep, hs.2.stepped hs.1 hstep⟩)
    ⟨hok, hsaved⟩).2

/-- The step that changes the entries goes on to store `pending`. -/
theorem Saved.of_changed {e : Event Key Value} (hstep : step s e = some s')
    (hchanged : s'.manager.datastore ≠ s.manager.datastore) : s'.Saved := by
  cases e with
  | dump => exact absurd (runDump_datastore hstep) hchanged
  | run t =>
    obtain ⟨c, pc, hcall⟩ := exists_call hstep
    cases pc <;> simp only [step, runCall, hcall] at hstep
    case lockPending =>
      split_ifs at hstep
      cases hstep
      exact absurd rfl hchanged
    case lockDatastore =>
      split at hstep <;> cases hstep
      have hstore : (c.modify s.manager).2 := by
        by_contra hstore
        exact hchanged (StoreCall.modify_datastore (by simpa using hstore))
      exact .inr (.inl ⟨t, c, by simp [setCall, hstore]⟩)
    case storePending =>
      cases hstep
      exact .inl rfl
    case unlockDatastore =>
      cases hstep
      exact absurd (StoreCall.finish_datastore ..) hchanged
    case unlockPending =>
      cases hstep
      exact absurd rfl hchanged
  | call t c =>
    simp only [step] at hstep
    split_ifs at hstep
    cases hstep
    exact absurd rfl hchanged
  | stop =>
    cases hstep
    exact absurd rfl hchanged
  | join =>
    simp only [step] at hstep
    split_ifs at hstep
    cases hstep
    exact absurd rfl hchanged

/-- Whatever was changed before, the file holds the entries when `close` returns. -/
theorem file_eq_of_join {contents : Key → Option (Value × ℤ)} {s t u v : Dumping Key Value}
    {e : Event Key Value} (hbefore : Transition.Run step Undisturbed (initial contents) s)
    (hallowed : s.Undisturbed e) (hstep : step s e = some t)
    (hchanged : t.manager.datastore ≠ s.manager.datastore)
    (hafter : Transition.Run step Undisturbed t u) (hjoin : step u .join = some v) :
    v.file = some v.manager.datastore := by
  have hok : t.Ok := (Ok.of_run hbefore (.of_initial contents)).stepped hallowed.1 hallowed.2 hstep
  have hsaved : u.Saved := .of_run hafter hok (.of_changed hstep hchanged)
  simp only [step] at hjoin
  split_ifs at hjoin with hended
  cases hjoin
  exact hsaved.file_eq (hok.of_run hafter) hended.2

/-! ## A commit that is written and one that is not -/

def firstCommit : StoreCall Text Text := ⟨.commit, ['k'], ['v'], 1⟩

/-- Events that keep the calls and `close` in order, whatever the dump thread does. -/
def ordered (s : Dumping Text Text) : Event Text Text → Bool
  | .call _ _ => !s.stop
  | .stop => false
  | _ => true

/-- And events that do not come between two loads. -/
def undisturbed (s : Dumping Text Text) : Event Text Text → Bool
  | .run _ => s.pc ≠ .testPending
  | e => s.ordered e

theorem orderly_of_ordered {s : Dumping Text Text} {e : Event Text Text} (h : s.ordered e) :
    s.Orderly e := by
  cases e with
  | call t c => simpa [ordered, Orderly] using h
  | stop => cases h
  | _ => trivial

theorem undisturbed_of_check {s : Dumping Text Text} {e : Event Text Text}
    (h : s.undisturbed e) : s.Undisturbed e := by
  refine ⟨orderly_of_ordered ?_, ?_⟩
  · cases e <;> first | exact h | rfl
  · rintro ⟨t, c, rfl, -, -, hpc, -⟩
    simp [undisturbed, hpc] at h

theorem file_eq_of_join_committed : ∃ v : Dumping Text Text,
    v.manager.datastore ['k'] = some (['v'], 1) ∧ v.file = some v.manager.datastore := by
  have hrun {es s s'} (h : Transition.exec step undisturbed es s = some s') :
      Transition.Run step Undisturbed s s' :=
    Transition.run_of_exec (fun _ _ => undisturbed_of_check) h
  obtain ⟨s, hs⟩ : ∃ s, Transition.exec step undisturbed [.call 0 firstCommit]
    (initial fun _ => none) = some s := ⟨_, rfl⟩
  obtain ⟨t, ht, hallowed, hold, hnew⟩ : ∃ t, step s (.run 0) = some t ∧
      s.undisturbed (.run 0) ∧ s.manager.datastore ['k'] = none ∧
      t.manager.datastore ['k'] = some (['v'], 1) := by
    cases hs
    exact ⟨_, rfl, rfl, rfl, rfl⟩
  obtain ⟨w, hw, hidle⟩ : ∃ w, Transition.exec step undisturbed [.run 0, .run 0] t = some w ∧
      ∀ x, w.call x = none := by
    cases hs
    cases ht
    exact ⟨_, rfl, fun x => by rcases x with - | x <;> rfl⟩
  have hstop : w.Undisturbed .stop := ⟨hidle, by rintro ⟨_, _, h, -⟩; cases h⟩
  obtain ⟨u, hu, hjoin, hkept⟩ : ∃ u, Transition.exec step undisturbed
      (List.replicate 9 .dump) { w with stop := true } = some u ∧ step u .join = some u ∧
      u.manager.datastore ['k'] = some (['v'], 1) := by
    cases hs
    cases ht
    cases hw
    exact ⟨_, rfl, rfl, rfl⟩
  refine ⟨u, hkept, file_eq_of_join (hrun hs) (undisturbed_of_check hallowed) ht ?_
    (((hrun hw).tail hstop rfl).trans (hrun hu)) hjoin⟩
  intro h
  rw [h, hold] at hnew
  cases hnew

/-- The commit stores `pending` between the two loads of the first iteration: the entries are
copied, the flag is cleared and nothing is written. -/
theorem commit_lost : ∃ s t u : Dumping Text Text,
    Transition.Run step Orderly (initial fun _ => none) s ∧ s.Orderly (.run 0) ∧
      step s (.run 0) = some t ∧ t.manager.datastore ≠ s.manager.datastore ∧
      Transition.Run step Orderly t u ∧ step u .join = some u ∧
      u.file ≠ some u.manager.datastore := by
  have hrun {es s s'} (h : Transition.exec step ordered es s = some s') :
      Transition.Run step Orderly s s' :=
    Transition.run_of_exec (fun _ _ => orderly_of_ordered) h
  obtain ⟨s, hs⟩ : ∃ s, Transition.exec step ordered
    [.call 0 firstCommit, .dump, .dump, .dump] (initial fun _ => none) = some s := ⟨_, rfl⟩
  obtain ⟨t, ht, hold, hnew⟩ : ∃ t, step s (.run 0) = some t ∧
      s.manager.datastore ['k'] = none ∧ t.manager.datastore ['k'] = some (['v'], 1) := by
    cases hs
    exact ⟨_, rfl, rfl, rfl⟩
  obtain ⟨w, hw, hidle⟩ : ∃ w, Transition.exec step ordered
      ([.run 0, .run 0] ++ List.replicate 6 .dump) t = some w ∧ ∀ x, w.call x = none := by
    cases hs
    cases ht
    exact ⟨_, rfl, fun x => by rcases x with - | x <;> rfl⟩
  obtain ⟨u, hu, hjoin, hfile⟩ : ∃ u, Transition.exec step ordered (List.replicate 6 .dump)
      { w with stop := true } = some u ∧ step u .join = some u ∧ u.file = none := by
    cases hs
    cases ht
    cases hw
    exact ⟨_, rfl, rfl, rfl⟩
  refine ⟨s, t, u, hrun hs, trivial, ht, ?_,
    ((hrun hw).tail (show w.Orderly .stop from hidle) rfl).trans (hrun hu), hjoin,
    by simp [hfile]⟩
  intro h
  rw [h, hold] at hnew
  cases hnew

end Calls

end Dumping
end LeaderlessDatastore
