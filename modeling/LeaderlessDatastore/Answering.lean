import LeaderlessDatastore.Attempt
import LeaderlessDatastore.Configuration
import LeaderlessDatastore.Receiving

/-!
# When everybody answers

One attempt of `Coordinator::get` or `put` for which every other replica is reached and every
message is answered.  An answer is a text in chunks, and it counts as a reply if `receive` can
read what arrives of it.
-/

namespace LeaderlessDatastore

open Connection (Brings InTwo brings_frame inTwo_frame)

namespace Attempt

/-- A message to the coordinator of the key. -/
def isFor (key : Text) : Message Text Text → Bool
  | .fetchedValue key' _ | .voteCommit _ key' _ | .voteAbort _ key' => key' = key
  | _ => false

/-- The first `receive` on a connection that brings these chunks, with the messages for which
`manage` throws. -/
def received (fails : Message Text Text → Bool) (incoming : List Text) : Received where
  returned := !(Connection.receive { incoming := incoming }).2.threw fails
  closed := !(Connection.receive { incoming := incoming }).1.connectionOpen

/-- What a `receive` tells the coordinator of the key. -/
def told (key : Text) (incoming : List Text) : Option (Message Text Text) :=
  match Connection.read incoming with
  | some (.ok message) => if isFor key message then some message else none
  | _ => none

/-- The number of replicas that a call contacts. -/
def contacted (quorum : ℤ) : ℕ := Coordinator.toSize (quorum - 1)

/-- Every other replica is reached, and those that are contacted answer as expected. -/
structure Answered (settings : Settings Text) (env : Surroundings) (quorum : ℤ) (key : Text)
    (expected : Message Text Text → Prop) (fails : Message Text Text → Bool)
    (incoming : ℕ → List Text) : Prop where
  shuffled : env.shuffled.Perm settings.replicaAddresses
  connected : ∀ n, env.connectTo n = .connected
  answered : ∀ n < contacted quorum, ∃ m, expected m ∧ Brings m.toString (incoming n)
  received : ∀ n < contacted quorum, env.receive n = received fails (incoming n)
  /-- no other request on the key runs -/
  answers : env.answers.Perm
    ((List.range (contacted quorum)).filterMap fun n => told key (incoming n))
  /-- the coordinator of the key is registered -/
  manages : ∀ m, isFor key m → fails m = false

/-- Every `receive` returns. -/
def AllRead (quorum : ℤ) (fails : Message Text Text → Bool) (incoming : ℕ → List Text) : Prop :=
  ∀ n < contacted quorum, (Connection.receive { incoming := incoming n }).2.threw fails = false

/-- `manage` throws, or the message is a `VOTE_ABORT` for the key. -/
def rejects (key : Text) (fails : Message Text Text → Bool) (m : Message Text Text) : Bool :=
  fails m || (isFor key m && isVoteAbort m)

theorem threw_of_read {fails : Message Text Text → Bool} {incoming : List Text}
    {result : Except Thrown (Message Text Text)} (h : Connection.read incoming = some result) :
    (Connection.receive { incoming := incoming }).2.threw fails =
      match result with
      | .ok m => fails m
      | .error _ => true := by
  unfold Connection.read at h
  split at h
  · next hreceive =>
    rw [hreceive, Reception.threw, Option.some.inj h]
    cases result <;> rfl
  · cases h

theorem threw_rejects_iff {key : Text} {fails : Message Text Text → Bool} {incoming : List Text} :
    (Connection.receive { incoming := incoming }).2.threw (rejects key fails) = false ↔
      (Connection.receive { incoming := incoming }).2.threw fails = false ∧
        ¬ ∃ m, Connection.read incoming = some (.ok m) ∧ isFor key m ∧ isVoteAbort m := by
  unfold Connection.read
  cases (Connection.receive { incoming := incoming }).2 with
  | interrupted => simp [Reception.threw]
  | nothing => simp [Reception.threw]
  | message msgString =>
    cases hread : ServerMessage.toMessage msgString <;> simp [Reception.threw, rejects, hread]

theorem told_eq_some {key : Text} {incoming : List Text} {m : Message Text Text} :
    told key incoming = some m ↔ Connection.read incoming = some (.ok m) ∧ isFor key m := by
  unfold told
  split
  · next message hread =>
    rw [hread]
    split_ifs with hfor
    · constructor
      · rintro ⟨⟩
        exact ⟨rfl, hfor⟩
      · rintro ⟨⟨⟩, -⟩
        rfl
    · refine iff_of_false nofun ?_
      rintro ⟨⟨⟩, hm⟩
      exact hfor hm
  · next hnone => exact iff_of_false nofun fun ⟨hm, _⟩ => hnone m hm

variable {settings : Settings Text} {env : Surroundings} {expected : Message Text Text → Prop}
  {fails : Message Text Text → Bool} {incoming : ℕ → List Text} {key value : Text} {quorum : ℤ}

theorem contacted_eq (hpos : 1 ≤ quorum) (hint : quorum < 2 ^ 31) :
    (contacted quorum : ℤ) = quorum - 1 := by
  unfold contacted Coordinator.toSize
  omega

theorem Answered.obtained
    (h : Answered settings env quorum key expected fails incoming) (hpos : 1 ≤ quorum)
    (hle : quorum ≤ settings.replicaAddresses.length + 1) (hint : quorum < 2 ^ 31) :
    ∃ connections, obtained env quorum = .ok connections ∧
      connections.length = contacted quorum := by
  have hcontacted := contacted_eq hpos hint
  refine ⟨_, connectLoop_connected h.connected (Nat.zero_le _), ?_⟩
  have hlength := h.shuffled.length_eq
  change _ = contacted quorum
  simp only [List.nil_append, List.length_map, List.length_take, List.length_reverse,
    List.length_nil, Nat.sub_zero]
  change min (contacted quorum) _ = _
  omega

theorem Answered.connectToQuorum
    (h : Answered settings env quorum key expected fails incoming) (hpos : 1 ≤ quorum)
    (hle : quorum ≤ settings.replicaAddresses.length + 1) (hint : quorum < 2 ^ 31) (a : Attempt) :
    ∃ connections : List Outgoing, connections.length = contacted quorum ∧
      connections.isEmpty = decide (quorum = 1) ∧
      a.connectToQuorum env quorum true = (.ok (), { a with quorum := connections }) := by
  obtain ⟨connections, hobtained, hlength⟩ := h.obtained hpos hle hint
  have hcontacted := contacted_eq hpos hint
  refine ⟨connections, hlength, ?_, ?_⟩
  · rw [Bool.eq_iff_iff, List.isEmpty_iff_length_eq_zero, decide_eq_true_eq]
    omega
  · rw [Attempt.connectToQuorum, hobtained]
    exact if_neg fun hfew => hfew.2 hlength

/-- All replies are there exactly when all answers are read. -/
theorem Answered.replies_iff (h : Answered settings env quorum key expected fails incoming)
    (hpos : 1 ≤ quorum) (hint : quorum < 2 ^ 31) (message : Message Text Text) {a : Attempt}
    (hown : a.replies = 1) (hlength : a.quorum.length = contacted quorum) :
    (a.exchange env message).replies = quorum ↔ AllRead quorum fails incoming := by
  obtain ⟨version, hversion⟩ := exists_exchange env message a
  have hcontacted := contacted_eq hpos hint
  have hall : AllRead quorum fails incoming ↔
      (List.range (contacted quorum)).countP (fun n => (env.receive n).returned) =
        contacted quorum := by
    have hcount := List.countP_eq_length (p := fun n => (env.receive n).returned)
      (l := List.range (contacted quorum))
    rw [List.length_range] at hcount
    rw [hcount]
    refine forall_congr' fun n => ?_
    rw [List.mem_range]
    exact forall_congr' fun hn => by
      rw [h.received n hn, Attempt.received, Bool.not_eq_true']
  rw [hversion, hall]
  simp only [hown, hlength]
  omega

/-- A `VOTE_ABORT` for the key reaches the coordinator if it is read. -/
theorem Answered.any_isVoteAbort
    (h : Answered settings env quorum key expected fails incoming) :
    env.answers.any isVoteAbort ↔ ∃ n < contacted quorum, ∃ m,
      Connection.read (incoming n) = some (.ok m) ∧ isFor key m ∧ isVoteAbort m := by
  rw [List.any_eq_true]
  constructor
  · rintro ⟨m, hm, habort⟩
    obtain ⟨n, hn, htold⟩ := List.mem_filterMap.mp (h.answers.mem_iff.mp hm)
    obtain ⟨hread, hfor⟩ := told_eq_some.mp htold
    exact ⟨n, List.mem_range.mp hn, m, hread, hfor, habort⟩
  · rintro ⟨n, hn, m, hread, hfor, habort⟩
    refine ⟨m, h.answers.mem_iff.mpr (List.mem_filterMap.mpr ?_), habort⟩
    exact ⟨n, List.mem_range.mpr hn, told_eq_some.mpr ⟨hread, hfor⟩⟩

theorem allRead_rejects_iff : AllRead quorum (rejects key fails) incoming ↔
    AllRead quorum fails incoming ∧ ¬ ∃ n < contacted quorum, ∃ m,
      Connection.read (incoming n) = some (.ok m) ∧ isFor key m ∧ isVoteAbort m := by
  constructor
  · intro h
    refine ⟨fun n hn => (threw_rejects_iff.mp (h n hn)).1, ?_⟩
    rintro ⟨n, hn, habort⟩
    exact (threw_rejects_iff.mp (h n hn)).2 habort
  · rintro ⟨h, hnone⟩ n hn
    exact threw_rejects_iff.mpr ⟨h n hn, fun habort => hnone ⟨n, hn, habort⟩⟩

/-! ## The two requests -/

def GetSucceeds (settings : Settings Text) (env : Surroundings) (key : Text) (a : Attempt) :
    Prop :=
  ∃ a' value, a.get settings env key = some (.ok (), a') ∧
    a'.client = a.client ++ [.value value]

def PutSucceeds (settings : Settings Text) (env : Surroundings) (key value : Text)
    (a : Attempt) : Prop :=
  ∃ a' info, a.put settings env key value = (.ok (), a') ∧ a'.client = a.client ++ [.ack info]

/-- A read quorum of one wants no connection, and no connection counts as a failure. -/
theorem get_of_one (h : Answered settings env settings.readQuorum key expected fails incoming)
    (hquorum : settings.readQuorum = 1) {a a' : Attempt} {result : Except Failure Unit}
    (hget : a.get settings env key = some (result, a')) :
    result = .error (.runtimeError "Couldn't connect to quorum") := by
  obtain ⟨entry, -, hresult⟩ := Option.map_eq_some_iff.mp hget
  obtain ⟨connections, -, hempty, hconnect⟩ :=
    h.connectToQuorum hquorum.ge (by omega) (by omega) (a.read entry)
  have hnone : connections.isEmpty = true := hempty.trans (decide_eq_true hquorum)
  simp only [hconnect, hnone, if_true] at hresult
  cases hresult
  rfl

theorem getFrom_iff (a : Attempt) :
    (∃ a' value, a.getFrom settings env key = (.ok (), a') ∧
      a'.client = a.client ++ [.value value]) ↔
        (a.exchange env (.fetch key)).replies = settings.readQuorum := by
  have hclient : (a.exchange env (.fetch key)).client = a.client := by
    obtain ⟨version, hversion⟩ := exists_exchange env (.fetch key) a
    rw [hversion]
  unfold getFrom
  by_cases hreplies : (a.exchange env (.fetch key)).replies = settings.readQuorum
  · simp only [hreplies, ne_eq, not_true_eq_false, if_false, iff_true]
    split
    · exact ⟨_, none, rfl, congrArg (fun client => client ++ [_]) hclient⟩
    · next value _ _ =>
      exact ⟨_, some value, rfl, congrArg (fun client => client ++ [_]) hclient⟩
  · simp only [hreplies, ne_eq, not_false_eq_true, if_true, iff_false]
    rintro ⟨a', value, ⟨⟩, -⟩

theorem putTo_iff (a : Attempt) :
    (∃ a' info, a.putTo settings env key value = (.ok (), a') ∧
      a'.client = a.client ++ [.ack info]) ↔
        (a.exchange env (.prepare a.uid key value)).replies = settings.writeQuorum ∧
          (a.exchange env (.prepare a.uid key value)).abort = false := by
  have hclient : (a.exchange env (.prepare a.uid key value)).client = a.client := by
    obtain ⟨version, hversion⟩ := exists_exchange env (.prepare a.uid key value) a
    rw [hversion]
  unfold putTo
  dsimp only
  split_ifs with hreplies habort
  · exact iff_of_false (fun ⟨_, _, h, _⟩ => abortWith_ne_ok h) fun h => hreplies h.1
  · refine iff_of_false (fun ⟨_, _, h, _⟩ => abortWith_ne_ok h) fun h => ?_
    rw [h.2] at habort
    cases habort
  · rw [not_not] at hreplies
    exact iff_of_true ⟨_, _, rfl, congrArg (fun client => client ++ [_]) hclient⟩
      ⟨hreplies, Bool.eq_false_iff.mpr habort⟩

/-- A get succeeds if it contacts anybody and reads all answers. -/
theorem getSucceeds_iff
    (h : Answered settings env settings.readQuorum key expected fails incoming)
    (hpos : 1 ≤ settings.readQuorum)
    (hle : settings.readQuorum ≤ settings.replicaAddresses.length + 1)
    (hint : settings.readQuorum < 2 ^ 31) {a : Attempt} (hfree : a.datastore.owner2pc key = none) :
    GetSucceeds settings env key a ↔
      settings.readQuorum ≠ 1 ∧ AllRead settings.readQuorum fails incoming := by
  by_cases hone : settings.readQuorum = 1
  · refine iff_of_false ?_ fun hne => hne.1 hone
    rintro ⟨a', value, hget, -⟩
    cases get_of_one h hone hget
  · obtain ⟨entry, hentry⟩ :=
      Option.ne_none_iff_exists'.mp (DatastoreManager.get_ne_none hfree (([], 0) : Text × ℤ))
    obtain ⟨connections, hlength, hempty, hconnect⟩ :=
      h.connectToQuorum hpos hle hint (a.read entry)
    have hcall : a.get settings env key =
        some (getFrom settings env key { a.read entry with quorum := connections }) := by
      rw [get, hentry, Option.map_some]
      simp only [hconnect, hempty, hone, decide_false, Bool.false_eq_true, if_false]
    have hfrom := @getFrom_iff settings env key { a.read entry with quorum := connections }
    rw [h.replies_iff hpos hint (.fetch key) rfl hlength] at hfrom
    rw [GetSucceeds, hcall, and_iff_right hone, ← hfrom]
    simp only [Option.some.injEq]
    rfl

/-- A put succeeds if it reads all votes and none of them is an abort. -/
theorem putSucceeds_iff
    (h : Answered settings env settings.writeQuorum key expected fails incoming)
    (hpos : 1 < settings.writeQuorum)
    (hle : settings.writeQuorum ≤ settings.replicaAddresses.length + 1)
    (hint : settings.writeQuorum < 2 ^ 31) {a : Attempt}
    (hfree : a.datastore.owner2pc key = none) :
    PutSucceeds settings env key value a ↔
      AllRead settings.writeQuorum (rejects key fails) incoming := by
  obtain ⟨⟨datastore, version⟩, hprepare⟩ :=
    Option.ne_none_iff_exists'.mp (show a.datastore.prepare key a.uid ≠ none from
      DatastoreManager.prepare_ne_none hfree)
  obtain ⟨connections, hlength, hempty, hconnect⟩ :=
    h.connectToQuorum hpos.le hle hint ({ a with abort := false }.vote datastore version)
  have hcall : a.put settings env key value = putTo settings env key value
      { { a with abort := false }.vote datastore version with quorum := connections } := by
    rw [put]
    simp only [hprepare, hconnect, hempty, hpos.ne', decide_false, Bool.false_eq_true, if_false]
  have hto := @putTo_iff settings env key value
    { { a with abort := false }.vote datastore version with quorum := connections }
  have habort : ({ { a with abort := false }.vote datastore version with
      quorum := connections }.exchange env (.prepare a.uid key value)).abort =
        env.answers.any isVoteAbort := by
    obtain ⟨version', hversion⟩ := exists_exchange env (.prepare a.uid key value)
      { { a with abort := false }.vote datastore version with quorum := connections }
    rw [hversion]
    rfl
  rw [h.replies_iff hpos.le hint _ rfl hlength] at hto
  rw [PutSucceeds, hcall, allRead_rejects_iff, ← h.any_isVoteAbort, Bool.not_eq_true, ← habort]
  exact hto

/-! ## Answers that are read -/

/-- The answers come in at most two chunks and hold nothing that could be misread. -/
def Whole (quorum : ℤ) (expected : Message Text Text → Prop) (incoming : ℕ → List Text) : Prop :=
  ∀ n < contacted quorum, InTwo (incoming n) ∧
    ∃ m, expected m ∧ m.Fits SendableKey SendableValue ∧ Brings m.toString (incoming n)

theorem Answered.allRead (h : Answered settings env quorum key expected fails incoming)
    (hexpected : ∀ m, expected m → isFor key m ∧ isVoteAbort m = false)
    (hwhole : Whole quorum expected incoming) : AllRead quorum (rejects key fails) incoming := by
  intro n hn
  obtain ⟨htwo, m, hm, hfits, hbrings⟩ := hwhole n hn
  obtain ⟨hfor, habort⟩ := hexpected m hm
  obtain ⟨hwellFormed, hdecode⟩ := hfits.readable
  have hread := hbrings.read hwellFormed htwo
  rw [hdecode] at hread
  rw [threw_of_read hread]
  simp [rejects, h.manages m hfor, habort]

end Attempt

/-- What the handler of the connections takes from an accepted configuration. -/
def ServerConfig.settings (config : ServerConfig) : Settings Text :=
  ⟨config.replicas, config.readQuorum, config.writeQuorum, config.getReplicasAmount⟩

namespace Attempt

/-- Where everybody answers, one attempt is enough for both requests exactly when the read
quorum is not the own replica alone and all answers are read.  They are read if they come in at
most two chunks and hold nothing that could be misread. -/
theorem succeed_iff {fuel : ℕ} {file : TokenStream} {replicaId : ℤ} {config : ServerConfig}
    (h : ServerConfig.initialise fuel file replicaId = .value config)
    (hint : config.replicas.length + 1 < 2 ^ 31) {a : Attempt} {key value : Text}
    (hfree : a.datastore.owner2pc key = none) {fetching preparing : Surroundings}
    {fails fails' : Message Text Text → Bool} {fetched voted : ℕ → List Text}
    (hget : Answered config.settings fetching config.readQuorum key
      (fun m => ∃ entry, m = .fetchedValue key entry) fails fetched)
    (hput : Answered config.settings preparing config.writeQuorum key
      (fun m => ∃ timestamp, m = .voteCommit a.uid key timestamp) fails' voted) :
    (GetSucceeds config.settings fetching key a ∧
        PutSucceeds config.settings preparing key value a ↔
      config.readQuorum ≠ 1 ∧ AllRead config.readQuorum fails fetched ∧
        AllRead config.writeQuorum (rejects key fails') voted) ∧
    (Whole config.readQuorum (fun m => ∃ entry, m = .fetchedValue key entry) fetched →
      Whole config.writeQuorum (fun m => ∃ timestamp, m = .voteCommit a.uid key timestamp) voted →
        AllRead config.readQuorum fails fetched ∧
          AllRead config.writeQuorum (rejects key fails') voted) := by
  obtain ⟨read, rest, -, hvalidate⟩ := ServerConfig.initialise_eq_value.mp h
  obtain ⟨hwrite, hquorum⟩ := ServerConfig.validate_quorums hvalidate
  have hok := ServerConfig.normalise_ok read.readQuorum read.writeQuorum
    (Int.natCast_nonneg config.replicas.length)
  rw [← hwrite, ← hquorum] at hok
  obtain ⟨hpos, hle, hwle, hmajority, -⟩ := hok
  have hlisted := ServerConfig.validate_listed hvalidate
  constructor
  · have hgets : GetSucceeds config.settings fetching key a ↔ _ :=
      getSucceeds_iff hget hpos hle (show config.readQuorum < 2 ^ 31 by omega) hfree
    have hputs : PutSucceeds config.settings preparing key value a ↔ _ :=
      putSucceeds_iff hput (show 1 < config.writeQuorum by omega) hwle
        (show config.writeQuorum < 2 ^ 31 by omega) hfree
    rw [hgets, hputs, and_assoc]
    rfl
  · intro hfetched hvoted
    refine ⟨(allRead_rejects_iff.mp (hget.allRead ?_ hfetched)).1, hput.allRead ?_ hvoted⟩
    · rintro m ⟨entry, rfl⟩
      simp [isFor, isVoteAbort]
    · rintro m ⟨timestamp, rfl⟩
      simp [isFor, isVoteAbort]

/-! ## Two replicas -/

/-- Everybody is reached and answers in these chunks. -/
def everybody (config : ServerConfig) (quorum : ℤ) (key : Text) (incoming : ℕ → List Text) :
    Surroundings where
  shuffled := config.replicas
  connectTo := fun _ => .connected
  receive n := received (fun _ => false) (incoming n)
  answers := (List.range (contacted quorum)).filterMap fun n => told key (incoming n)

theorem answered_everybody {quorum : ℤ} (config : ServerConfig)
    (h : ∀ n < contacted quorum, ∃ m, expected m ∧ Brings m.toString (incoming n)) :
    Answered config.settings (everybody config quorum key incoming) quorum key expected
      (fun _ => false) incoming :=
  ⟨.refl _, fun _ => rfl, h, fun _ _ => rfl, .refl _, fun _ _ => rfl⟩

/-- The file with two servers and a write quorum of two, as replica 0 reads it. -/
def readByFirst (read : String) : Outcome ServerConfig :=
  ServerConfig.initialise 3 (ServerConfig.shippedFile read.toList "2".toList
    (List.replicate 2 "h:1".toList) true) 0

/-- One chunk for each answer. -/
def inOne (m : Message Text Text) (_ : ℕ) : List Text := [frame m.toString]

theorem succeed_iff_two : ∃ config, readByFirst "2" = .value config ∧
    GetSucceeds config.settings (everybody config config.readQuorum "k".toList
      (inOne (.fetchedValue "k".toList (some ("v".toList, 1))))) "k".toList
      { datastore := .empty, uid := 0 } ∧
    PutSucceeds config.settings (everybody config config.writeQuorum "k".toList
      (inOne (.voteCommit 0 "k".toList 1))) "k".toList "w".toList
      { datastore := .empty, uid := 0 } := by
  obtain ⟨config, hconfig, hquorum, hlisted⟩ : ∃ config, readByFirst "2" = .value config ∧
    config.readQuorum = 2 ∧ config.replicas.length = 1 := ⟨_, rfl, rfl, rfl⟩
  have hvalue : Brings (Message.fetchedValue "k".toList (some ("v".toList, 1))).toString
      (inOne (.fetchedValue "k".toList (some ("v".toList, 1))) 0) :=
    brings_frame (by decide +kernel)
  have hvote : Brings (Message.voteCommit 0 "k".toList 1).toString
      (inOne (.voteCommit 0 "k".toList 1) 0) := brings_frame (by decide +kernel)
  have hkey : SendableKey "k".toList :=
    ⟨keyable_of_not_mem (by decide) (List.all_eq_true.mp (by decide)), by decide⟩
  have hentry : SendableValue "v".toList := ⟨List.all_eq_true.mp (by decide), by decide⟩
  obtain ⟨hiff, hread⟩ := @succeed_iff _ _ _ _ hconfig (by omega)
    { datastore := .empty, uid := 0 } "k".toList "w".toList rfl _ _ _ _ _ _
    (answered_everybody config fun _ _ => ⟨_, ⟨_, rfl⟩, hvalue⟩)
    (answered_everybody config fun _ _ => ⟨_, ⟨_, rfl⟩, hvote⟩)
  refine ⟨config, hconfig, hiff.mpr ⟨by omega, hread (fun _ _ => ?_) fun _ _ => ?_⟩⟩
  · refine ⟨inTwo_frame _, _, ⟨_, rfl⟩, ⟨hkey, ?_⟩, hvalue⟩
    rintro _ ⟨⟩
    exact ⟨hentry, by simp [IsInt]⟩
  · exact ⟨inTwo_frame _, _, ⟨_, rfl⟩, ⟨by simp [IsInt], hkey, by simp [IsInt]⟩, hvote⟩

/-- The `FETCHED_VALUE` with a version that `stoi` does not read. -/
def largeVersion : Message Text Text := .fetchedValue "k".toList (some ("v".toList, 2 ^ 31))

/-- A get of a free key fails although it is answered. -/
def Unserved (config : ServerConfig) (incoming : ℕ → List Text) : Prop :=
  ∃ env, Answered config.settings env config.readQuorum "k".toList
      (fun m => ∃ entry, m = .fetchedValue "k".toList entry) (fun _ => false) incoming ∧
    ¬ GetSucceeds config.settings env "k".toList { datastore := .empty, uid := 0 }

/-- With a read quorum of one the get fails, and so it does with a read quorum of two if the
version in the answer is too large. -/
theorem get_throws_of_one :
    (∃ config, readByFirst "1" = .value config ∧ ∀ incoming, Unserved config incoming) ∧
    ∃ config, readByFirst "2" = .value config ∧ Unserved config (inOne largeVersion) := by
  have hbrings : Brings largeVersion.toString (inOne largeVersion 0) :=
    brings_frame (by decide +kernel)
  constructor
  · obtain ⟨config, hconfig, hquorum⟩ : ∃ config, readByFirst "1" = .value config ∧
      config.readQuorum = 1 := ⟨_, rfl, rfl⟩
    refine ⟨config, hconfig, fun incoming => ?_⟩
    have hnone : contacted config.readQuorum = 0 := by rw [hquorum]; rfl
    have hanswered := @answered_everybody (fun m => ∃ entry, m = .fetchedValue "k".toList entry)
      incoming "k".toList config.readQuorum config fun n hn => by omega
    refine ⟨_, hanswered, ?_⟩
    rintro ⟨a', value, hget, -⟩
    cases get_of_one hanswered hquorum hget
  · obtain ⟨config, hconfig, hquorum, hlisted⟩ : ∃ config, readByFirst "2" = .value config ∧
      config.settings.readQuorum = 2 ∧ config.settings.replicaAddresses.length = 1 :=
      ⟨_, rfl, rfl, rfl⟩
    have hanswered := @answered_everybody (fun m => ∃ entry, m = .fetchedValue "k".toList entry)
      (inOne largeVersion) "k".toList config.settings.readQuorum config
      fun _ _ => ⟨_, ⟨_, rfl⟩, hbrings⟩
    refine ⟨config, hconfig, _, hanswered, fun hget => ?_⟩
    have hunread : ServerMessage.toMessage (largeVersion.toString ++ [escape]) =
        .error (.conversion .outOfRange) := by decide +kernel
    have hread := hbrings.read (by decide +kernel) (inTwo_frame _)
    rw [hunread] at hread
    have hall := ((getSucceeds_iff hanswered (by omega) (by omega) (by omega) rfl).mp hget).2
    cases (threw_of_read hread).symm.trans (hall 0 (by rw [hquorum]; decide))

end Attempt
end LeaderlessDatastore
