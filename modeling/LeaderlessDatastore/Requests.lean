import LeaderlessDatastore.Connections

/-!
# `Get::manage` and `Put::manage`

Both serve a request with one coordinator.  A round that throws is followed by another one, and
what the coordinator has collected stays.
-/

namespace LeaderlessDatastore

/-- A round of the loop: what other threads have done to the datastore before it, and what
surrounds its call. -/
structure Round where
  before : DatastoreManager Text Text → DatastoreManager Text Text := id
  env : Surroundings

namespace Attempt

/-- The call begins with no connection of the round before. -/
def begin (round : Round) (a : Attempt) : Attempt :=
  { a with
    datastore := round.before a.datastore
    quorum := []
    dropped := a.dropped ++ a.quorum }

/-- The loop of both functions, with `done`. -/
def manage (call : Surroundings → Attempt → Option (Except Failure Unit × Attempt)) :
    List Round → Attempt → Bool × Attempt
  | [], a => (false, a)
  | round :: rounds, a =>
    match call round.env (a.begin round) with
    | some (.ok (), a') => (true, a')
    | some (.error _, a') => manage call rounds a'
    -- asleep in `get`
    | none => manage call rounds (a.begin round)

def manageGet (settings : Settings Text) (key : Text) : List Round → Attempt → Bool × Attempt :=
  manage fun env a => a.get settings env key

def managePut (settings : Settings Text) (key value : Text) :
    List Round → Attempt → Bool × Attempt :=
  manage fun env a => some (a.put settings env key value)

/-! ## The loop -/

section Manage

variable {call : Surroundings → Attempt → Option (Except Failure Unit × Attempt)}
  {rounds later : List Round} {a : Attempt}

/-- What failed calls preserve holds as long as the loop goes on, and what the call that returns
makes of it holds at the end. -/
theorem manage_rule (Going Served : Attempt → Prop) (rounds : List Round)
    (hbegin : ∀ round a, Going a → Going (a.begin round))
    (herror : ∀ env a failure a', Going a → call env a = some (.error failure, a') → Going a')
    (hok : ∀ env a a', Going a → call env a = some (.ok (), a') → Served a') (h : Going a) :
    if (manage call rounds a).1 then Served (manage call rounds a).2
    else Going (manage call rounds a).2 := by
  induction rounds generalizing a with
  | nil => exact h
  | cons round rounds ih =>
    have hstart := hbegin round a h
    rw [manage]
    cases hcall : call round.env (a.begin round) with
    | none => exact ih hstart
    | some p =>
      rcases p with ⟨_ | ⟨⟩, a'⟩
      · exact ih (herror _ _ _ _ hstart hcall)
      · exact hok _ _ _ hstart hcall

/-- Later rounds find the coordinator as it was left, or are not begun. -/
theorem manage_append : manage call (rounds ++ later) a =
    if (manage call rounds a).1 then manage call rounds a
    else manage call later (manage call rounds a).2 := by
  induction rounds generalizing a with
  | nil => rfl
  | cons round rounds ih =>
    rw [List.cons_append, manage, manage]
    cases call round.env (a.begin round) with
    | none => exact ih
    | some p =>
      rcases p with ⟨_ | ⟨⟩, a'⟩
      · exact ih
      · rfl

end Manage

/-! ## One call -/

section Call

variable {settings : Settings Text} {env : Surroundings} {key value : Text} {quorum : ℤ}
  {safe : Bool} {a a' : Attempt} {result : Except Failure Unit}

/-- The text of the `ACK` of `put`. -/
def inserted (key value : Text) : Text :=
  "Value \"".toList ++ value ++ "\" effectively inserted for key \"".toList ++ key ++ "\"".toList

/-- What `get` sends for the values it has collected. -/
def latest (values : List (Text × ℤ)) : Message Text Text :=
  .value ((Coordinator.getLatestValue values).map Prod.fst)

/-- What the call has collected and what it has sent to the client, with `m` if it returns. -/
structure Answers (m : Message Text Text) (a a' : Attempt) (result : Except Failure Unit) :
    Prop where
  values : a.values <+: a'.values
  ok : result = .ok () → a'.client = a.client ++ [m]
  error : result ≠ .ok () → a'.client = a.client

theorem connectToQuorum_eq (h : a.connectToQuorum env quorum safe = (result, a')) :
    ∃ quorum dropped, a' = { a with quorum := quorum, dropped := dropped } := by
  unfold connectToQuorum at h
  split at h
  · cases h
    exact ⟨a.quorum, _, rfl⟩
  · split_ifs at h <;> cases h
    · exact ⟨_, _, rfl⟩
    · exact ⟨_, a.dropped, rfl⟩

theorem getFrom_answers (h : a.getFrom settings env key = (result, a')) :
    Answers (latest a'.values) a a' result := by
  obtain ⟨version, hversion⟩ := exists_exchange env (.fetch key) a
  unfold getFrom at h
  rw [hversion] at h
  dsimp only at h
  split_ifs at h
  · cases h
    exact ⟨List.prefix_append _ _, nofun, fun _ => rfl⟩
  · split at h
    · next hnone =>
      cases h
      refine ⟨List.prefix_append _ _, fun _ => ?_, fun hne => absurd rfl hne⟩
      change a.client ++ [.value none] = a.client ++ [latest (a.values ++ _)]
      rw [latest, hnone]
      rfl
    · next found version' hsome =>
      cases h
      refine ⟨List.prefix_append _ _, fun _ => ?_, fun hne => absurd rfl hne⟩
      change a.client ++ [.value (some found)] = a.client ++ [latest (a.values ++ _)]
      rw [latest, hsome]
      rfl

theorem get_answers (h : a.get settings env key = some (result, a')) :
    Answers (latest a'.values) a a' result := by
  obtain ⟨entry, -, hcall⟩ := Option.map_eq_some_iff.mp h
  have hread : a.values <+: (a.read entry).values := by
    unfold read
    split_ifs
    · exact List.prefix_append _ _
    · exact List.prefix_rfl
  rcases hconnect : (a.read entry).connectToQuorum env settings.readQuorum true with ⟨outcome, a₁⟩
  obtain ⟨quorum, dropped, rfl⟩ := connectToQuorum_eq hconnect
  rw [hconnect] at hcall
  cases outcome with
  | error failure =>
    cases hcall
    exact ⟨hread, nofun, fun _ => rfl⟩
  | ok _ =>
    dsimp only at hcall
    split_ifs at hcall
    · cases hcall
      exact ⟨hread, nofun, fun _ => rfl⟩
    · obtain ⟨hvalues, hok, herror⟩ := getFrom_answers hcall
      exact ⟨hread.trans hvalues, hok, herror⟩

theorem abortWith_answers {failure : Failure} (m : Message Text Text)
    (h : a.abortWith key failure = (result, a')) : Answers m a a' result := by
  unfold abortWith at h
  split at h <;> cases h <;> exact ⟨List.prefix_rfl, nofun, fun _ => rfl⟩

/-- A part of the call before which nothing is sent to the client. -/
theorem Answers.trans {m : Message Text Text} {a₁ : Attempt} (h : Answers m a₁ a' result)
    (hvalues : a.values <+: a₁.values) (hclient : a₁.client = a.client) :
    Answers m a a' result where
  values := hvalues.trans h.values
  ok hok := hclient ▸ h.ok hok
  error herror := (h.error herror).trans hclient

theorem putTo_answers (h : a.putTo settings env key value = (result, a')) :
    Answers (.ack (inserted key value)) a a' result := by
  obtain ⟨version, hversion⟩ := exists_exchange env (.prepare a.uid key value) a
  unfold putTo at h
  rw [hversion] at h
  dsimp only at h
  split_ifs at h
  · exact (abortWith_answers _ h).trans (List.prefix_append _ _) rfl
  · exact (abortWith_answers _ h).trans (List.prefix_append _ _) rfl
  · cases h
    exact ⟨List.prefix_append _ _, fun _ => rfl, fun hne => absurd rfl hne⟩

theorem put_answers (h : a.put settings env key value = (result, a')) :
    Answers (.ack (inserted key value)) a a' result := by
  unfold put at h
  dsimp only at h
  split at h
  · cases h
    exact ⟨List.prefix_rfl, nofun, fun _ => rfl⟩
  · next datastore version hprepare =>
    rcases hconnect : ({ a with abort := false }.vote datastore version).connectToQuorum env
      settings.writeQuorum true with ⟨outcome, a₁⟩
    obtain ⟨quorum, dropped, rfl⟩ := connectToQuorum_eq hconnect
    rw [hconnect] at h
    cases outcome with
    | error failure =>
      cases h
      exact ⟨List.prefix_rfl, nofun, fun _ => rfl⟩
    | ok _ =>
      dsimp only at h
      split_ifs at h
      · exact (abortWith_answers _ h).trans List.prefix_rfl rfl
      · exact (putTo_answers h).trans List.prefix_rfl rfl

end Call

/-! ## One answer for a request -/

section Answer

variable {settings : Settings Text} {key value : Text} {rounds later : List Round} {a : Attempt}

/-- Through all rounds nothing is sent to the client, and then the answer, once. -/
theorem managePut_client : (managePut settings key value rounds a).2.client =
    if (managePut settings key value rounds a).1 then a.client ++ [.ack (inserted key value)]
    else a.client := by
  have hrule : if (managePut settings key value rounds a).1
      then (managePut settings key value rounds a).2.client =
        a.client ++ [.ack (inserted key value)]
      else (managePut settings key value rounds a).2.client = a.client := by
    refine manage_rule (fun a' => a'.client = a.client)
      (fun a' => a'.client = a.client ++ [.ack (inserted key value)]) rounds (fun _ _ h => h)
      (fun env a₁ failure a' h hcall => ?_) (fun env a₁ a' h hcall => ?_) rfl
    · exact ((put_answers (Option.some.inj hcall)).error nofun).trans h
    · exact h ▸ (put_answers (Option.some.inj hcall)).ok rfl
  split_ifs at hrule ⊢ <;> exact hrule

theorem manageGet_client : a.values <+: (manageGet settings key rounds a).2.values ∧
    (manageGet settings key rounds a).2.client =
      if (manageGet settings key rounds a).1 then
        a.client ++ [latest (manageGet settings key rounds a).2.values]
      else a.client := by
  have hrule : if (manageGet settings key rounds a).1
      then a.values <+: (manageGet settings key rounds a).2.values ∧
        (manageGet settings key rounds a).2.client =
          a.client ++ [latest (manageGet settings key rounds a).2.values]
      else a.values <+: (manageGet settings key rounds a).2.values ∧
        (manageGet settings key rounds a).2.client = a.client := by
    refine manage_rule (fun a' => a.values <+: a'.values ∧ a'.client = a.client)
      (fun a' => a.values <+: a'.values ∧ a'.client = a.client ++ [latest a'.values])
      rounds (fun _ _ h => h) (fun env a₁ failure a' h hcall => ?_)
      (fun env a₁ a' h hcall => ?_) ⟨List.prefix_rfl, rfl⟩
    · exact ⟨h.1.trans (get_answers hcall).values, ((get_answers hcall).error nofun).trans h.2⟩
    · exact ⟨h.1.trans (get_answers hcall).values, h.2 ▸ (get_answers hcall).ok rfl⟩
  split_ifs at hrule ⊢ <;> exact hrule

/-- What an earlier round has collected is not lost. -/
theorem manageGet_values : (manageGet settings key rounds a).2.values <+:
    (manageGet settings key (rounds ++ later) a).2.values := by
  rw [manageGet, manage_append]
  split_ifs
  · exact List.prefix_rfl
  · exact manageGet_client.1

/-- Whatever the rounds meet, a request is answered once it is done, and once only: a `put` with
its key and value, a `get` with the latest value of those that it has collected.  That is at least
as new as all that any of its rounds has collected, the failed ones included. -/
theorem answered_once :
    ((managePut settings key value rounds a).2.client =
      if (managePut settings key value rounds a).1 then a.client ++ [.ack (inserted key value)]
      else a.client) ∧
    ((manageGet settings key rounds a).2.client =
      if (manageGet settings key rounds a).1 then
        a.client ++ [latest (manageGet settings key rounds a).2.values]
      else a.client) ∧
    ∀ entry ∈ (manageGet settings key rounds a).2.values, 0 < entry.2 →
      ∃ found version, entry.2 ≤ version ∧
        (found, version) ∈ (manageGet settings key (rounds ++ later) a).2.values ∧
        ((manageGet settings key (rounds ++ later) a).1 →
          (manageGet settings key (rounds ++ later) a).2.client =
            a.client ++ [.value (some found)]) := by
  refine ⟨managePut_client, manageGet_client.2, fun entry hentry hpos => ?_⟩
  obtain ⟨⟨found, version⟩, hlatest, hle⟩ :=
    Coordinator.le_getLatestValue (manageGet_values.mem hentry) hpos
  refine ⟨found, version, hle, Coordinator.getLatestValue_mem hlatest, fun hdone => ?_⟩
  rw [(@manageGet_client settings key (rounds ++ later) a).2, if_pos hdone, latest, hlatest]
  rfl

/-- A round in which the two other replicas are reached. -/
def toBoth (receive : ℕ → Received) (answers : List (Message Text Text)) : Round where
  env := {
    shuffled := ["a:1".toList, "b:1".toList]
    connectTo := fun _ => .connected
    receive := receive
    answers := answers }

/-- One of the two does not reply. -/
def failing : Round :=
  toBoth (fun n => { returned := n = 0 }) [.fetchedValue "k".toList (some ("new".toList, 5))]

def succeeding : Round :=
  toBoth (fun _ => {})
    [.fetchedValue "k".toList (some ("old".toList, 3)), .fetchedValue "k".toList none]

/-- The round that succeeds hears of version 3 only, and the answer is version 5, of which the
failed one has heard. -/
theorem answered_once_retried : ∃ (found : Text) (version : ℤ),
    (manageGet ⟨["a:1".toList, "b:1".toList], 3, 2, 3⟩ "k".toList ([failing] ++ [succeeding])
      { datastore := .empty, uid := 0 }).2.client = [] ++ [.value (some found)] ∧
    5 ≤ version ∧ (found, version) ≠ ("old".toList, 3) := by
  obtain ⟨-, -, hanswered⟩ := @answered_once ⟨["a:1".toList, "b:1".toList], 3, 2, 3⟩ "k".toList []
    [failing] [succeeding] { datastore := .empty, uid := 0 }
  obtain ⟨found, version, hle, -, hclient⟩ := hanswered ("new".toList, 5) (by decide) (by decide)
  refine ⟨found, version, hclient (by decide), hle, ?_⟩
  rintro ⟨⟩
  exact absurd hle (by decide)

end Answer
end Attempt
end LeaderlessDatastore
