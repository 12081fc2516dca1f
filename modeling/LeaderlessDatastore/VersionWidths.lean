import LeaderlessDatastore.Connections
import LeaderlessDatastore.Exceptions
import LeaderlessDatastore.Replica

/-!
# The widths of a version

A version is a 64-bit number in the datastore and in `VOTE_COMMIT`, an `int` in
`GLOBAL_COMMIT`, and is read back with `stoi` from both.
-/

namespace LeaderlessDatastore

open ServerMessage

/-! ## Numbers that come out of a message -/

section Decoded

variable {s digits key value : Text} {uid timestamp n : ℤ}

theorem int_of_number (hdigits : ∀ c ∈ digits, c.isDigit)
    (h : number (Text.stoi digits) = .ok n) : 0 ≤ n ∧ n < 2 ^ 31 := by
  rw [Text.stoi, Text.toSigned_of_digits hdigits] at h
  split_ifs at h with hempty hlt
  · cases h
  · obtain rfl := Except.ok.inj h
    exact ⟨Int.natCast_nonneg _, hlt⟩
  · cases h

theorem eq_ok_of_bind {α β ε : Type} {x : Except ε α} {next : α → Except ε β} {b : β}
    (h : x >>= next = .ok b) : ∃ a, x = .ok a ∧ next a = .ok b := by
  cases x with
  | ok a => exact ⟨a, rfl, h⟩
  | error thrown => cases h

theorem int_of_voteCommit (h : toMessage s = .ok (.voteCommit uid key timestamp)) :
    (0 ≤ uid ∧ uid < 2 ^ 31) ∧ 0 ≤ timestamp ∧ timestamp < 2 ^ 31 := by
  obtain ⟨name, body, -, -, hvote⟩ := toMessageOf_of_toMessage h (by simp [Message.getType])
  change VoteCommit.toMessage s.dropLast = _ at hvote
  unfold VoteCommit.toMessage at hvote
  split at hvote
  · next hmatch =>
    obtain ⟨uid', huid, hvote⟩ := eq_ok_of_bind hvote
    obtain ⟨timestamp', htimestamp, hvote⟩ := eq_ok_of_bind hvote
    cases hvote
    exact ⟨int_of_number (isDigit_of_match (n := 0) hmatch rfl rfl) huid,
      int_of_number (isDigit_of_match (n := 2) hmatch rfl rfl) htimestamp⟩
  · cases hvote

theorem int_of_globalCommit (h : toMessage s = .ok (.globalCommit uid key value timestamp)) :
    (0 ≤ uid ∧ uid < 2 ^ 31) ∧ 0 ≤ timestamp ∧ timestamp < 2 ^ 31 := by
  obtain ⟨name, body, -, -, hcommit⟩ := toMessageOf_of_toMessage h (by simp [Message.getType])
  change GlobalCommit.toMessage s.dropLast = _ at hcommit
  unfold GlobalCommit.toMessage at hcommit
  split at hcommit
  · next hmatch =>
    obtain ⟨uid', huid, hcommit⟩ := eq_ok_of_bind hcommit
    obtain ⟨timestamp', htimestamp, hcommit⟩ := eq_ok_of_bind hcommit
    cases hcommit
    exact ⟨int_of_number (isDigit_of_match (n := 0) hmatch rfl rfl) huid,
      int_of_number (isDigit_of_match (n := 3) hmatch rfl rfl) htimestamp⟩
  · cases hcommit

end Decoded

/-! ## A put that is committed -/

namespace Attempt

variable {settings : Settings Text} {env : Surroundings} {key value : Text} {a a' : Attempt}

/-- The `GLOBAL_COMMIT` that `put` constructs after the commit of `version`. -/
def commitMessage (uid : ℤ) (key value : Text) (version : ℤ) : Message Text Text :=
  .globalCommit uid key value (castInt version)

/-- The versions that are voted: the one `prepare` gives here and those of the `VOTE_COMMIT`s. -/
def Voted (env : Surroundings) (key : Text) (a : Attempt) (version : ℤ) : Prop :=
  version = a.datastore.storedVersion key ∨
    ∃ uid key', .voteCommit uid key' version ∈ env.answers

theorem hear_version (a : Attempt) (m : Message Text Text) :
    a.version ≤ (a.hear m).version ∧
      (∀ uid key' n, m = .voteCommit uid key' n → n ≤ (a.hear m).version) ∧
      ((a.hear m).version = a.version ∨
        ∃ uid key', m = .voteCommit uid key' (a.hear m).version) := by
  cases m with
  | voteCommit uid key' timestamp =>
    simp only [hear]
    split_ifs with hlt
    · exact ⟨hlt.le, fun _ _ _ h => by cases h; exact le_rfl, .inr ⟨uid, key', rfl⟩⟩
    · exact ⟨le_rfl, fun _ _ _ h => by cases h; exact not_lt.mp hlt, .inl rfl⟩
  | fetchedValue key' entry => cases entry <;> exact ⟨le_rfl, by simp, .inl rfl⟩
  | _ => exact ⟨le_rfl, by simp, .inl rfl⟩

/-- Answers never lower the version, and it is the start value or one that was voted. -/
theorem isGreatest_foldl_hear (answers : List (Message Text Text)) (a : Attempt) :
    IsGreatest {n | n = a.version ∨ ∃ uid key', .voteCommit uid key' n ∈ answers}
      (answers.foldl hear a).version := by
  induction answers generalizing a with
  | nil => exact ⟨.inl rfl, by simp⟩
  | cons m answers ih =>
    obtain ⟨hmem, hle⟩ := ih (a.hear m)
    rw [mem_upperBounds] at hle
    obtain ⟨hown, hvote, hnow⟩ := hear_version a m
    refine ⟨?_, mem_upperBounds.mpr ?_⟩
    · rcases hmem with hmem | ⟨uid, key', hmem⟩
      · rw [List.foldl_cons, hmem]
        rcases hnow with hnow | ⟨uid, key', hnow⟩
        · exact .inl hnow
        · exact .inr ⟨uid, key', hnow ▸ List.mem_cons_self⟩
      · exact .inr ⟨uid, key', List.mem_cons_of_mem _ hmem⟩
    · rintro n (rfl | ⟨uid, key', hmem⟩)
      · exact hown.trans (hle _ (.inl rfl))
      · rcases List.mem_cons.mp hmem with rfl | hmem
        · exact (hvote uid key' n rfl).trans (hle _ (.inl rfl))
        · exact hle n (.inr ⟨uid, key', hmem⟩)

/-- What a `put` that returns has done last. -/
theorem putTo_eq_ok (h : a.putTo settings env key value = (.ok (), a')) :
    ∃ (version : ℤ) (datastore : DatastoreManager Text Text) (quorum : List Outgoing),
      version = (env.answers.foldl hear a).version + 1 ∧ a'.version = version ∧
      a'.datastore = datastore.commit key value version ∧
      a'.quorum = quorum.map fun c =>
        (c.send (commitMessage a.uid key value version)).close := by
  have huid : (a.exchange env (.prepare a.uid key value)).uid = a.uid := by
    obtain ⟨version, hversion⟩ := exists_exchange env (.prepare a.uid key value) a
    rw [hversion]
  unfold putTo at h
  dsimp only at h
  split_ifs at h
  · exact absurd h abortWith_ne_ok
  · exact absurd h abortWith_ne_ok
  · cases h
    refine ⟨_, (a.exchange env (.prepare a.uid key value)).datastore,
      (a.exchange env (.prepare a.uid key value)).quorum, rfl, rfl, rfl, ?_⟩
    simp only [closeConnections, answer, sendToReplicas, List.map_map, huid]
    rfl

theorem connectToQuorum_eq_ok {b : Attempt} {quorum : ℤ} {safe : Bool}
    (h : a.connectToQuorum env quorum safe = (.ok (), b)) :
    b.version = a.version ∧ b.uid = a.uid := by
  unfold connectToQuorum at h
  split at h
  · cases h
  · split_ifs at h <;> cases h <;> exact ⟨rfl, rfl⟩

theorem put_eq_ok (h : a.put settings env key value = (.ok (), a')) :
    ∃ (n : ℤ) (datastore : DatastoreManager Text Text) (quorum : List Outgoing),
      IsGreatest {n | Voted env key a n} n ∧ a'.version = n + 1 ∧
      a'.datastore = datastore.commit key value (n + 1) ∧
      a'.quorum = quorum.map fun c =>
        (c.send (commitMessage a.uid key value (n + 1))).close := by
  unfold put at h
  dsimp only at h
  cases hprepare : a.datastore.prepare key a.uid with
  | none =>
    rw [hprepare] at h
    cases h
  | some prepared =>
    obtain ⟨datastore, version⟩ := prepared
    obtain ⟨-, -, rfl, -⟩ := DatastoreManager.prepare_eq_some hprepare
    simp only [hprepare] at h
    split at h
    · cases h
    · next b hconnect =>
      obtain ⟨hversion, huid⟩ := connectToQuorum_eq_ok hconnect
      split_ifs at h
      · exact absurd h abortWith_ne_ok
      · obtain ⟨_, datastore', quorum, rfl, hnext, hcommit, hsent⟩ := putTo_eq_ok h
        have hgreatest := isGreatest_foldl_hear env.answers b
        rw [hversion] at hgreatest
        rw [huid] at hsent
        exact ⟨_, datastore', quorum, hgreatest, hnext, hcommit, hsent⟩

/-! ## Whether the participants commit that version -/

/-- A participant that waits for the decision on `key` takes `version` from the text. -/
def Obtains (key : Text) (version : ℤ) (text : Text) : Prop :=
  ∃ uid' key' value' timestamp,
    toMessage (text ++ [escape]) = .ok (.globalCommit uid' key' value' timestamp) ∧
    ∀ {Peer : Type} [DecidableEq Peer] (r : Replica Peer Text Text) (conn : Peer × ℕ)
      (p : Participant Text Text), r.handler conn = .deciding p → p.key = key →
      r.participants key = some conn →
      ∃ r', r.deliver conn (.globalCommit uid' key' value' timestamp) = some r' ∧
        r'.handler conn = .decided { p with timestamp := version }

/-- The highest vote arrives as it was sent, and the version of the local commit is the one
that every participant obtains. -/
def SameVersion (uid : ℤ) (key value : Text) (n : ℤ) : Prop :=
  toMessage ((Message.voteCommit uid key n).toString ++ [escape]) =
      .ok (.voteCommit uid key n) ∧
    Obtains key (n + 1) (commitMessage uid key value (n + 1)).toString

theorem deliver_globalCommit {Peer : Type} [DecidableEq Peer] {r : Replica Peer Text Text}
    {conn : Peer × ℕ} {p : Participant Text Text} (value : Text) (uid timestamp : ℤ)
    (hdeciding : r.handler conn = .deciding p) (hregistered : r.participants key = some conn) :
    ∃ r', r.deliver conn (.globalCommit uid key value timestamp) = some r' ∧
      r'.handler conn = .decided { p with timestamp := timestamp } := by
  simp [Replica.deliver, hdeciding, Replica.globalCommit, hregistered, Replica.wake,
    Replica.setHandler, Handler.mapParticipant]

/-- A replica with one participant, which waits for the decision on `key`. -/
def waiting (key value : Text) (uid : ℤ) : Replica Unit Text Text :=
  { Replica.started (fun _ => none) 0 with
    participants := fun k => if k = key then some ((), 0) else none
    handler := fun _ => .deciding { uid := uid, key := key, value := value } }

theorem Obtains.eq {version : ℤ} {text : Text} (h : Obtains key version text) :
    ∃ uid' key' value', toMessage (text ++ [escape]) =
      .ok (.globalCommit uid' key' value' version) := by
  obtain ⟨uid', key', value', timestamp, htext, hobtains⟩ := h
  refine ⟨uid', key', value', ?_⟩
  obtain ⟨r', hdeliver, hr'⟩ := hobtains (waiting key value' uid') ((), 0)
    { uid := uid', key := key, value := value' } rfl rfl (by simp [waiting])
  by_cases hkey : key' = key
  · subst hkey
    obtain ⟨r'', hdeliver', hr''⟩ := deliver_globalCommit value' uid' timestamp
      (show (waiting key' value' uid').handler ((), 0) =
        .deciding { uid := uid', key := key', value := value' } from rfl)
      (show (waiting key' value' uid').participants key' = some ((), 0) by simp [waiting])
    rw [hdeliver] at hdeliver'
    cases hdeliver'
    rw [hr'] at hr''
    cases hr''
    exact htext
  · simp [Replica.deliver, waiting, Replica.globalCommit, hkey] at hdeliver

theorem sameVersion_iff {s : Text} {uid n : ℤ} (hput : toMessage s = .ok (.put key value))
    (h0 : 0 ≤ n) (hlt : n < 2 ^ 63 - 1) :
    SameVersion uid key value n ↔ (0 ≤ uid ∧ uid < 2 ^ 31) ∧ n + 1 < 2 ^ 31 := by
  constructor
  · rintro ⟨hvote, hobtains⟩
    obtain ⟨uid', key', value', hcommit⟩ := hobtains.eq
    exact ⟨(int_of_voteCommit hvote).1, (int_of_globalCommit hcommit).2.2⟩
  · rintro ⟨huid, hn⟩
    obtain ⟨hkey, hvalue⟩ := keyable_of_toMessage hput
    refine ⟨toMessage_voteCommit hkey huid ⟨h0, by omega⟩, uid, key, value, n + 1, ?_, ?_⟩
    · rw [commitMessage, castInt_of_lt (by omega) hn]
      exact toMessage_globalCommit hkey hvalue huid ⟨by omega, hn⟩
    · intro Peer _ r conn p hdeciding _ hregistered
      exact deliver_globalCommit _ _ _ hdeciding hregistered

/-- A put commits one above the highest vote, and the participants do the same exactly while
that number and the transaction id fit an `int`. -/
theorem commit_version_iff {s : Text} {n : ℤ} (hput : toMessage s = .ok (.put key value))
    (h : a.put settings env key value = (.ok (), a'))
    (hn : IsGreatest {n | Voted env key a n} n) (h0 : 0 ≤ n) (hlt : n < 2 ^ 63 - 1) :
    (∃ (datastore : DatastoreManager Text Text) (quorum : List Outgoing),
      a'.version = n + 1 ∧ a'.datastore = datastore.commit key value (n + 1) ∧
      a'.quorum = quorum.map fun c =>
        (c.send (commitMessage a.uid key value (n + 1))).close) ∧
    (SameVersion a.uid key value n ↔ (0 ≤ a.uid ∧ a.uid < 2 ^ 31) ∧ n + 1 < 2 ^ 31) := by
  obtain ⟨n', datastore, quorum, hn', hversion, hcommit, hsent⟩ := put_eq_ok h
  obtain rfl := hn'.unique hn
  exact ⟨⟨datastore, quorum, hversion, hcommit, hsent⟩, sameVersion_iff hput h0 hlt⟩

/-! ## Two replicas -/

/-- The own datastore has `k` with the given version, the other replica votes 4. -/
def storing (version : ℤ) : Attempt where
  datastore := .loaded fun key => if key = "k".toList then some ("v".toList, version) else none
  uid := 3

theorem commit_version_iff_five : ∃ a',
    (storing 2).put pair (reached [.voteCommit 3 "k".toList 4]) "k".toList "w".toList =
      (.ok (), a') ∧ a'.version = 5 ∧ SameVersion 3 "k".toList "w".toList 4 := by
  obtain ⟨a', hrun⟩ : ∃ a', (storing 2).put pair (reached [.voteCommit 3 "k".toList 4])
    "k".toList "w".toList = (.ok (), a') := ⟨_, rfl⟩
  have hput : toMessage "PUT; k:\"k\", v:\"w\"\x1b".toList =
      .ok (.put "k".toList "w".toList) := by decide +kernel
  have hgreatest : IsGreatest {n | Voted (reached [.voteCommit 3 "k".toList 4]) "k".toList
      (storing 2) n} 4 := by
    refine ⟨.inr ⟨3, "k".toList, List.mem_cons_self⟩, ?_⟩
    rintro n (rfl | ⟨uid, key, h⟩)
    · decide
    · obtain ⟨-, -, rfl⟩ := Message.voteCommit.inj (List.mem_singleton.mp h)
      exact le_rfl
  obtain ⟨⟨-, -, hversion, -⟩, hiff⟩ := commit_version_iff hput hrun hgreatest (by decide)
    (by decide)
  exact ⟨a', hrun, hversion, hiff.mpr ⟨⟨by decide, by decide⟩, by decide⟩⟩

/-- The commit of the first version that does not fit an `int`. -/
theorem put_versions_differ : ∃ a',
    (storing (2 ^ 31 - 1)).put pair (reached [.voteCommit 3 "k".toList 4]) "k".toList
      "w".toList = (.ok (), a') ∧ a'.version = 2 ^ 31 ∧
    commitMessage 3 "k".toList "w".toList a'.version =
      .globalCommit 3 "k".toList "w".toList (-2 ^ 31) ∧
    toMessage ((commitMessage 3 "k".toList "w".toList a'.version).toString ++ [escape]) =
      mismatch "GlobalCommit" ∧
    ¬ SameVersion 3 "k".toList "w".toList (2 ^ 31 - 1) := by
  refine ⟨_, rfl, rfl, by decide, by decide +kernel, ?_⟩
  rintro ⟨-, hobtains⟩
  obtain ⟨uid', key', value', htext⟩ := hobtains.eq
  have := (int_of_globalCommit htext).2.2
  omega

end Attempt
end LeaderlessDatastore
