import LeaderlessDatastore.Session

/-!
# The client

`ClientConnectionHandler::connectToReplica`, the requests of `Client` and the loop of `main`.
The replica that serves a command is the first one in a shuffle of the addresses that can be
reached.
-/

namespace LeaderlessDatastore

open Pattern Regex

/-- What one command meets: the shuffle of the addresses, the network, and what `recv` returns on
the connection before it fails. -/
structure Trip where
  shuffled : List Text
  gethostbyname : Text → Bool
  connect : Text → Bool
  incoming : List Text

namespace Trip

/-- `substr(0, find(':'))` -/
def addrString (replicaName : Text) : Text := replicaName.takeWhile (· ≠ ':')

/-- `substr(find(':') + 1, …)`, where `npos + 1` is zero -/
def portString (replicaName : Text) : Text :=
  if ':' ∈ replicaName then (replicaName.dropWhile (· ≠ ':')).tail else replicaName

/-- The `try` block of `connectToReplica`.  `false` is the `runtime_error` that closes the socket,
an error one of `stoi`, which is not caught. -/
def tryReplica (trip : Trip) (replicaName : Text) : Except Text.ConversionError Bool :=
  if trip.gethostbyname (addrString replicaName) then
    (Text.stoi (portString replicaName)).map fun _ => trip.connect replicaName
  else .ok false

/-- The loop, with the addresses it tries; each of them is tried on a socket of its own. -/
def connectLoop (trip : Trip) : List Text → List Text × Except Text.ConversionError (Option Text)
  | [] => ([], .ok none)
  | replicaName :: rest =>
    match trip.tryReplica replicaName with
    | .error e => ([replicaName], .error e)
    | .ok true => ([replicaName], .ok (some replicaName))
    | .ok false => (replicaName :: (trip.connectLoop rest).1, (trip.connectLoop rest).2)

/-- The addresses are taken off the back. -/
def connectToReplica (trip : Trip) : List Text × Except Text.ConversionError (Option Text) :=
  trip.connectLoop trip.shuffled.reverse

def reaches (trip : Trip) (replicaName : Text) : Bool :=
  trip.gethostbyname (addrString replicaName) && trip.connect replicaName

def NumericPorts (replicaAddresses : List Text) : Prop :=
  ∀ replicaName ∈ replicaAddresses, ∃ port, Text.stoi (portString replicaName) = .ok port

variable {trip : Trip} {replicaAddresses : List Text} {replicaName : Text}

theorem tryReplica_eq {port : ℤ} (h : Text.stoi (portString replicaName) = .ok port) :
    trip.tryReplica replicaName = .ok (trip.reaches replicaName) := by
  unfold tryReplica reaches
  cases trip.gethostbyname (addrString replicaName)
  · rfl
  · simp [h, Except.map]

/-- The addresses up to the first that can be reached are tried, and no others. -/
theorem connectLoop_eq (hports : NumericPorts replicaAddresses) :
    trip.connectLoop replicaAddresses =
      (replicaAddresses.takeWhile (fun replicaName => !trip.reaches replicaName) ++
          (replicaAddresses.find? trip.reaches).toList,
        .ok (replicaAddresses.find? trip.reaches)) := by
  induction replicaAddresses with
  | nil => rfl
  | cons replicaName rest ih =>
    obtain ⟨port, hport⟩ := hports replicaName List.mem_cons_self
    have hrest := ih fun name hname => hports name (List.mem_cons_of_mem _ hname)
    rw [connectLoop, tryReplica_eq hport]
    cases hreaches : trip.reaches replicaName with
    | true => simp [hreaches]
    | false => simp [hreaches, hrest]

theorem connectToReplica_eq (hports : NumericPorts trip.shuffled) :
    trip.connectToReplica.2 = .ok (trip.shuffled.reverse.find? trip.reaches) := by
  have hreverse : NumericPorts trip.shuffled.reverse := fun name hname =>
    hports name (List.mem_reverse.mp hname)
  rw [connectToReplica, connectLoop_eq hreverse]

end Trip

/-! ## Requests -/

/-- What a command writes on the screen. -/
inductive Shown where
  | unreachable
  | interrupted
  | unexpected
  | info (text : Text)
  | found (value : Text)
  | notFound
  | unrecognised
  deriving DecidableEq

def Shown.text : Shown → Text
  | .unreachable => ("It wasn't possible to establish a connection with the server.\n" ++
      "Please, try again later.\n").toList
  | .interrupted => ("Something went wrong while waiting for a reply from the server.\n" ++
      "Please, try again later.\n").toList
  | .unexpected => ("An unexpected error occurred while communicating with the server. " ++
      "Please, try again later.\n").toList
  | .info text => text ++ ['\n']
  | .found value => "The retrieved value is:\n".toList ++ value ++ ['\n']
  | .notFound => "The searched key wasn't found.\n".toList
  | .unrecognised => "Unrecognised operation, please try again.\n".toList

/-- `manage` of the messages that `Message::toMessage` makes. -/
def Message.manage : Message Text Text → Shown
  | .ack info | .nack info => .info info
  | .value (some v) => .found v
  | .value none => .notFound
  -- not made by the decoder of the client
  | _ => .unexpected

/-- What `receive` shows, with the `catch` of `Client::get` and `Client::put`. -/
def Reception.shown : Reception → Option Shown
  | .interrupted => some .interrupted
  | .nothing => none
  | .message msgString =>
    match Message.toMessage msgString with
    | .ok msg => some msg.manage
    | .error _ => some .unexpected

/-! ## What is read -/

section Read

variable {info body : Text}

/-- Text that the decoders take as it is: one line that neither begins nor ends with a blank. -/
structure Trimmed (body : Text) : Prop where
  isDot : ∀ c ∈ body, isDot c
  head : ∀ c ∈ body.head?, ¬ Text.isSpace c
  last : ∃ front c, body = front ++ [c] ∧ Text.isSpace c = false

/-- Whatever stands behind `VALUE; ` is taken for the value. -/
theorem toMessage_value (h : Trimmed body) (hnull : body ≠ "null".toList) :
    Message.toMessage ("VALUE; ".toList ++ body ++ [escape]) = .ok (.value (some body)) := by
  obtain ⟨front, c, rfl, hc⟩ := h.last
  have hs : "VALUE; ".toList ++ (front ++ [c]) =
      "VALUE".toList ++ ';' :: ' ' :: (front ++ [c]) := by simp
  have hmatch : regexMatch ("VALUE; ".toList ++ (front ++ [c])) Regex.value =
      some [front ++ [c]] := by
    rw [hs]
    exact regexMatch_of_exec (by simp) (by simp) h.head (exec_trimmed h.isDot hc)
  rw [toMessage_eq_valueToMessage hs h.head h.isDot]
  simp only [Message.Value.toMessage, hmatch, if_neg hnull]

end Read

/-! ## Exchanges -/

namespace ClientConnectionHandler

/-- `connectToReplica`, `receive` and `disconnect`; without a reception if no replica could be
reached, and `none` if an exception of `stoi` ends the program. -/
def exchange (c : ClientConnectionHandler) (trip : Trip) :
    Option (ClientConnectionHandler × Option (Text × Reception)) :=
  match trip.connectToReplica.2 with
  | .error _ => none
  | .ok none => some (c, none)
  | .ok (some replicaName) =>
    let (c', reception) := receive ⟨{ c.toReceiver with incoming := trip.incoming }⟩
    -- what has not been received is lost with the connection
    some (⟨{ c'.toReceiver with incoming := [] }⟩, some (replicaName, reception))

/-- Exchanges one after the other, with what each of them has received. -/
def session (c : ClientConnectionHandler) :
    List Trip → Option (ClientConnectionHandler × List (Option (Text × Reception)))
  | [] => some (c, [])
  | trip :: trips => do
    let (c', received) ← c.exchange trip
    let (c'', rest) ← c'.session trips
    some (c'', received :: rest)

theorem session_append (c : ClientConnectionHandler) (trips trips' : List Trip) :
    c.session (trips ++ trips') =
      (c.session trips).bind fun (c', received) =>
        (c'.session trips').map fun (c'', received') => (c'', received ++ received') := by
  induction trips generalizing c with
  | nil => cases h : c.session trips' <;> simp [session, h]
  | cons trip trips ih =>
    rw [List.cons_append, session, session]
    cases c.exchange trip with
    | none => rfl
    | some p =>
      simp only [Option.bind_eq_bind, Option.bind_some, ih]
      cases p.1.session trips with
      | none => rfl
      | some q =>
        simp only [Option.bind_some]
        cases q.1.session trips' <;> rfl

def new : ClientConnectionHandler := ⟨{ incoming := [] }⟩

/-- Nothing but a part of a reply is kept from one connection to the next. -/
def keeping (left : Text) : ClientConnectionHandler :=
  ⟨{ partialMsg := left, incoming := [] }⟩

end ClientConnectionHandler

/-! ## What is left of the replies -/

/-- A trip with the reply that the replica sends. -/
structure Replied where
  trip : Trip
  reply : Text

namespace Replied

open ClientConnectionHandler

/-- The ports are numbers, and the connection brings the reply or the beginning of it. -/
structure Ok (x : Replied) : Prop where
  ports : Trip.NumericPorts x.trip.shuffled
  delivers : Delivers x.reply x.trip.incoming

def reached (x : Replied) : Option Text := x.trip.shuffled.reverse.find? x.trip.reaches

/-- What is left in `partialMsg`. -/
def leftover (left : Text) (x : Replied) : Text :=
  if x.reached.isNone then left
  else if Arrived x.reply x.trip.incoming then []
  else x.trip.incoming.getLast?.getD left

variable {x : Replied} {left replicaName : Text} {xs : List Replied}

theorem exchange_eq (left : Text) (hx : x.Ok) : (keeping left).exchange x.trip =
    some (keeping (x.leftover left), x.reached.map fun replicaName =>
      (replicaName, (Receiver.await ⟨[], left, x.trip.incoming⟩).2)) := by
  unfold exchange leftover
  rw [x.trip.connectToReplica_eq hx.ports]
  change (match (Except.ok x.reached : Except Text.ConversionError (Option Text)) with
    | .error _ => none
    | .ok none => _
    | .ok (some replicaName) => _) = _
  cases x.reached with
  | none => rfl
  | some replicaName =>
    by_cases harrived : Arrived x.reply x.trip.incoming
    · obtain ⟨rest, msgString, hawait, -⟩ :=
        Receiver.await_message left hx.delivers harrived
      simp [keeping, receive, hawait, harrived]
    · have hawait := Receiver.await_interrupted left hx.delivers harrived
      simp [keeping, receive, hawait, harrived]

theorem session_eq (left : Text) (hxs : ∀ x ∈ xs, x.Ok) :
    ∃ received, (keeping left).session (xs.map trip) =
      some (keeping (xs.foldl leftover left), received) := by
  induction xs generalizing left with
  | nil => exact ⟨[], rfl⟩
  | cons x xs ih =>
    obtain ⟨received, hrest⟩ := ih (x.leftover left) fun y hy =>
      hxs y (List.mem_cons_of_mem _ hy)
    have hfirst := exchange_eq left (hxs x List.mem_cons_self)
    simp [session, hfirst, hrest]

/-- The exchange has brought a part of its reply, or all of it. -/
def heard (x : Replied) : Bool := x.reached.isSome && !x.trip.incoming.isEmpty

theorem leftover_of_not_heard (h : ¬ x.heard) : x.leftover left = left := by
  unfold leftover
  cases hreached : x.reached with
  | none => rfl
  | some replicaName =>
    have hempty : x.trip.incoming = [] := by simpa [heard, hreached] using h
    simp [hempty, Arrived]

theorem leftover_of_heard (hx : x.Ok) (h : x.heard) :
    x.leftover left = [] ↔ Arrived x.reply x.trip.incoming := by
  obtain ⟨hreached, hne⟩ : x.reached.isSome ∧ x.trip.incoming ≠ [] := by
    simpa [heard] using h
  have hreached' : ¬ x.reached.isNone := by simp [← Option.not_isSome, hreached]
  unfold leftover
  rw [if_neg hreached']
  by_cases harrived : Arrived x.reply x.trip.incoming
  · exact iff_of_true (if_pos harrived) harrived
  · refine iff_of_false ?_ harrived
    rw [if_neg harrived, List.getLast?_eq_some_getLast hne, Option.getD_some]
    exact hx.delivers.clean.ne_nil _ (List.getLast_mem hne)

/-- Something is left exactly when the last reply of which anything came was cut off. -/
theorem foldl_leftover_eq_nil_iff (hxs : ∀ x ∈ xs, x.Ok) :
    xs.foldl leftover [] = [] ↔
      ∀ y ∈ (xs.filter heard).getLast?, Arrived y.reply y.trip.incoming := by
  induction xs using List.reverseRecOn with
  | nil => simp
  | append_singleton xs x ih =>
    have hx : x.Ok := hxs x (List.mem_append_right _ List.mem_cons_self)
    have hinit := ih fun y hy => hxs y (List.mem_append_left _ hy)
    rw [List.foldl_append, List.foldl_cons, List.foldl_nil, List.filter_append]
    by_cases hheard : x.heard
    · rw [leftover_of_heard hx hheard]
      simp [hheard]
    · rw [leftover_of_not_heard hheard, hinit]
      simp [hheard]

/-- After any exchanges a reply is handed over by itself exactly when it comes in at most two
chunks and, if it comes in one, nothing has been left of the replies before.  What has been left
of a `VALUE` makes any reply, an `ACK` as well, a part of the value that is shown. -/
theorem session_own_reply_iff (hxs : ∀ y ∈ xs, y.Ok) (hx : x.Ok)
    (hreached : x.reached = some replicaName) (harrived : Arrived x.reply x.trip.incoming) :
    ∃ c received msgString,
      new.session ((xs ++ [x]).map trip) =
        some (c, received ++ [some (replicaName, .message msgString)]) ∧
      (msgString = x.reply ++ [escape] ↔
        Arrived x.reply (x.trip.incoming.take 2) ∧
          (Arrived x.reply (x.trip.incoming.take 1) →
            ∀ y ∈ (xs.filter heard).getLast?, Arrived y.reply y.trip.incoming)) ∧
      ∀ body, xs.foldl leftover [] = "VALUE; ".toList ++ body →
        Arrived x.reply (x.trip.incoming.take 1) → Trimmed (body ++ x.reply) →
        body ++ x.reply ≠ "null".toList →
        (Reception.message msgString).shown = some (.found (body ++ x.reply)) := by
  obtain ⟨received, hsession⟩ := session_eq [] hxs
  have hexchange := exchange_eq (xs.foldl leftover []) hx
  have hnil := foldl_leftover_eq_nil_iff hxs
  set left := xs.foldl leftover []
  obtain ⟨rest, msgString, hawait, hone, -⟩ :=
    Receiver.await_message left hx.delivers harrived
  have hown := Receiver.await_eq_reply_iff left hx.delivers harrived
  rw [hawait, hnil, Reception.message.injEq, ← imp_iff_or_not] at hown
  refine ⟨keeping (x.leftover left), received, msgString, ?_, hown,
    fun body hleft hfirst htrimmed hnull => ?_⟩
  · change (keeping []).session _ = _
    rw [List.map_append, session_append, hsession]
    simp [session, hexchange, hreached, hawait]
  · have hmessage : msgString = "VALUE; ".toList ++ (body ++ x.reply) ++ [escape] := by
      rw [hone hfirst, hleft]
      simp only [List.append_assoc]
    simp only [Reception.shown, hmessage, toMessage_value htrimmed hnull]
    rfl

/-! ## A value that is cut off -/

/-- The connection ends behind the first letter of a value. -/
def cutOff : Replied :=
  ⟨⟨["a:1".toList], fun _ => true, fun _ => true, ["VALUE; \"v".toList]⟩,
    "VALUE; \"value\"".toList⟩

def acknowledged : Replied :=
  ⟨⟨["a:1".toList], fun _ => true, fun _ => true, ["ACK; inserted\x1b\n".toList]⟩,
    "ACK; inserted".toList⟩

theorem ports_one : Trip.NumericPorts ["a:1".toList] := by
  intro replicaName hname
  obtain rfl := List.mem_singleton.mp hname
  exact ⟨1, by decide⟩

theorem session_cut_off : ∃ c received msgString,
    new.session (([cutOff] ++ [acknowledged]).map trip) =
      some (c, received ++ [some ("a:1".toList, .message msgString)]) ∧
    msgString ≠ "ACK; inserted\x1b".toList ∧
    (Reception.message msgString).shown = some (.found "\"vACK; inserted".toList) := by
  have hcutOff : cutOff.Ok :=
    ⟨ports_one, ⟨by decide, by decide, by decide⟩, by simp [Receiver.Clean, nul, cutOff],
      by decide, by decide⟩
  have hacknowledged : acknowledged.Ok :=
    ⟨ports_one, ⟨by decide, by decide, by decide⟩, by simp [Receiver.Clean, nul, acknowledged],
      by decide, by decide⟩
  have htrimmed : Trimmed ("\"v".toList ++ acknowledged.reply) := by
    refine ⟨List.all_eq_true.mp (by decide), fun c hc => ?_, "\"vACK; inserte".toList, 'd', rfl,
      rfl⟩
    obtain rfl : '"' = c := Option.some.inj hc
    decide
  obtain ⟨c, received, msgString, hsession, hown, hshown⟩ :=
    @session_own_reply_iff acknowledged "a:1".toList [cutOff] (by simp [hcutOff]) hacknowledged
      (by decide) (by decide)
  refine ⟨c, received, msgString, hsession, fun heq => ?_, ?_⟩
  · have hcut := (hown.mp heq).2 (by decide) cutOff rfl
    exact absurd hcut (by decide)
  · exact hshown "\"v".toList (by decide) (by decide) htrimmed (by decide)

end Replied
end LeaderlessDatastore
