import LeaderlessDatastore.Encoding
import LeaderlessDatastore.Framing

/-!
# The messages of a stream

A stream of well-formed messages, cut in any way.  What is handed to `toMessage` of each of
them is what the last two of its pieces hold, until a message closes the connection.  So the
strings are the messages exactly when each one arrives in at most two pieces and none but the
last one closes the connection, and a call hands over exactly one of them unless the newline of
a message starts a chunk or the connection has been closed.
-/

namespace LeaderlessDatastore

/-- What the call has handed to `toMessage`. -/
def Reception.handed : Reception → List Text
  | .message msgString => [msgString]
  | _ => []

/-- The call ends by an exception: of `recv`, of `toMessage` or, as `fails` says, of `manage`. -/
def Reception.threw (fails : Message Text Text → Bool) : Reception → Bool
  | .interrupted => true
  | .nothing => false
  | .message msgString =>
    match ServerMessage.toMessage msgString with
    | .ok msg => fails msg
    | .error _ => true

/-- `ReplicaConnectionHandler::Connection` -/
structure Connection extends Receiver where
  connectionOpen : Bool := true

namespace Connection

/-- `Repair::manage` closes the connection it has come on; no other message does. -/
def closes (msgString : Text) : Bool :=
  match ServerMessage.toMessage msgString with
  | .ok (.repair ..) => true
  | _ => false

/-- A call, with the connection as it is after `manage`. -/
def receive (c : Connection) : Connection × Reception :=
  if c.connectionOpen then
    match c.toReceiver.await with
    | (r, .message msgString) => (⟨r, !closes msgString⟩, .message msgString)
    | (r, reception) => (⟨r, true⟩, reception)
  else (c, .nothing)

/-- One round of the loop of `startReceiving`.  After a `runtime_error` the connection is closed;
any other exception ends the process. -/
def startReceiving (fails : Message Text Text → Bool) (c : Connection) : Connection × Reception :=
  if c.receive.2.threw fails then ({ c.receive.1 with connectionOpen := false }, c.receive.2)
  else c.receive

end Connection

structure ClientConnectionHandler extends Receiver

/-- When `recv` fails the client is told so, disconnected, and the call returns. -/
def ClientConnectionHandler.receive (c : ClientConnectionHandler) :
    ClientConnectionHandler × Reception :=
  (⟨c.toReceiver.await.1⟩, c.toReceiver.await.2)

/-- What both `send`s write to the socket. -/
def frame (body : Text) : Text := body ++ [escape, '\n']

def stream (bodies : List Text) : Text := (bodies.map frame).flatten

theorem stream_cons (body : Text) (bodies : List Text) :
    stream (body :: bodies) = body ++ escape :: '\n' :: stream bodies := by
  simp [stream, frame]

/-- The text of a message holds no newline, no escape and no NUL. -/
structure WellFormed (body : Text) : Prop where
  newline : '\n' ∉ body
  escape : LeaderlessDatastore.escape ∉ body
  nul : LeaderlessDatastore.nul ∉ body

instance (body : Text) : Decidable (WellFormed body) :=
  decidable_of_iff ('\n' ∉ body ∧ escape ∉ body ∧ nul ∉ body)
    ⟨fun h => ⟨h.1, h.2.1, h.2.2⟩, fun h => ⟨h.newline, h.escape, h.nul⟩⟩

theorem wellFormed_append {front back : Text} :
    WellFormed (front ++ back) ↔ WellFormed front ∧ WellFormed back := by
  constructor
  · rintro ⟨hnewline, hescape, hnul⟩
    rw [List.mem_append, not_or] at hnewline hescape hnul
    exact ⟨⟨hnewline.1, hescape.1, hnul.1⟩, ⟨hnewline.2, hescape.2, hnul.2⟩⟩
  · rintro ⟨hfront, hback⟩
    refine ⟨?_, ?_, ?_⟩ <;> rw [List.mem_append, not_or]
    · exact ⟨hfront.newline, hback.newline⟩
    · exact ⟨hfront.escape, hback.escape⟩
    · exact ⟨hfront.nul, hback.nul⟩

theorem WellFormed.of_subset {body body' : Text} (h : WellFormed body) (hsub : body' ⊆ body) :
    WellFormed body' :=
  ⟨fun hm => h.newline (hsub hm), fun hm => h.escape (hsub hm), fun hm => h.nul (hsub hm)⟩

theorem wellFormed_flatMap {α : Type} {entries : List α} {entry : α → Text}
    (h : ∀ e ∈ entries, WellFormed (entry e)) : WellFormed (entries.flatMap entry) := by
  refine ⟨fun hm => ?_, fun hm => ?_, fun hm => ?_⟩ <;>
    obtain ⟨e, he, hm⟩ := List.mem_flatMap.mp hm
  exacts [(h e he).newline hm, (h e he).escape hm, (h e he).nul hm]

theorem wellFormed_ofInt {number : ℤ} (h : 0 ≤ number) : WellFormed (Text.ofInt number) := by
  constructor <;> intro hc <;> exact absurd (isDigit_of_mem_ofInt h hc) (by decide)

/-- With the messages starting at `n`, every text with its escape is cut at most once. -/
def CutOnce (positions : List ℕ) : ℕ → List Text → Prop
  | _, [] => True
  | n, body :: bodies =>
    Chunks.inside positions n (body.length + 1) ≤ 1 ∧
      CutOnce positions (n + body.length + 2) bodies

instance CutOnce.decidable (positions : List ℕ) :
    (n : ℕ) → (bodies : List Text) → Decidable (CutOnce positions n bodies)
  | _, [] => .isTrue trivial
  | n, body :: bodies =>
    have := CutOnce.decidable positions (n + body.length + 2) bodies
    inferInstanceAs (Decidable (_ ∧ _))

/-- What arrives of every text with its escape: all of it, or the last two of its pieces. -/
def arrivals (positions : List ℕ) : ℕ → List Text → List Text
  | _, [] => []
  | n, body :: bodies =>
    Chunks.lastTwo positions n (body ++ [escape]) ::
      arrivals positions (n + body.length + 2) bodies

/-- The strings up to the first one that closes the connection. -/
def upTo (closes : Text → Bool) : List Text → List Text
  | [] => []
  | msgString :: rest => if closes msgString then [msgString] else msgString :: upTo closes rest

section Arrivals

variable {positions : List ℕ} {n m : ℕ} {bodies : List Text} {closes : Text → Bool}
  {strings : List Text}

theorem arrivals_filter (h : m ≤ n) :
    arrivals (positions.filter (m < ·)) n bodies = arrivals positions n bodies := by
  induction bodies generalizing n with
  | nil => rfl
  | cons body bodies ih => rw [arrivals, arrivals, Chunks.lastTwo_filter h, ih (by omega)]

@[simp] theorem length_arrivals : (arrivals positions n bodies).length = bodies.length := by
  induction bodies generalizing n with
  | nil => rfl
  | cons body bodies ih => simp [arrivals, ih]

theorem arrivals_eq_iff : arrivals positions n bodies = bodies.map (· ++ [escape]) ↔
    CutOnce positions n bodies := by
  induction bodies generalizing n with
  | nil => simp [arrivals, CutOnce]
  | cons body bodies ih =>
    rw [arrivals, CutOnce, List.map_cons, List.cons.injEq, Chunks.lastTwo_eq_iff,
      List.length_append, List.length_singleton, ih]

theorem upTo_isPrefix : upTo closes strings <+: strings := by
  induction strings with
  | nil => exact List.prefix_rfl
  | cons msgString rest ih =>
    rw [upTo]
    split_ifs
    · exact ⟨rest, rfl⟩
    · exact (List.prefix_cons_inj msgString).mpr ih

theorem upTo_eq_self_iff :
    upTo closes strings = strings ↔ ∀ msgString ∈ strings.dropLast, closes msgString = false := by
  induction strings with
  | nil => simp [upTo]
  | cons msgString rest ih =>
    cases rest with
    | nil => simp [upTo]
    | cons next rest =>
      rw [List.dropLast_cons_cons, List.forall_mem_cons, ← ih, upTo]
      cases closes msgString <;> simp

/-- Nothing is lost exactly when no text is cut twice and none but the last one closes the
connection. -/
theorem upTo_arrivals_eq_iff :
    upTo closes (arrivals positions n bodies) = bodies.map (· ++ [escape]) ↔
      CutOnce positions n bodies ∧
        ∀ body ∈ bodies.dropLast, closes (body ++ [escape]) = false := by
  have hlast : (bodies.map (· ++ [escape])).dropLast = bodies.dropLast.map (· ++ [escape]) :=
    List.map_dropLast.symm
  rw [← arrivals_eq_iff]
  constructor
  · intro h
    have heq : arrivals positions n bodies = bodies.map (· ++ [escape]) := by
      have hlength : (upTo closes (arrivals positions n bodies)).length =
          (arrivals positions n bodies).length := by rw [h, List.length_map, length_arrivals]
      exact (upTo_isPrefix.eq_of_length hlength).symm.trans h
    rw [heq, upTo_eq_self_iff, hlast, List.forall_mem_map] at h
    exact ⟨heq, h⟩
  · rintro ⟨heq, h⟩
    rw [heq, upTo_eq_self_iff, hlast, List.forall_mem_map]
    exact h

end Arrivals

/-- Calls of `receive`, one after the other until all is consumed, hand over these strings. -/
inductive Handed {σ : Type} (receive : σ → σ × Reception) (consumed : σ → Prop) :
    σ → List Text → Prop
  | done {s : σ} (h : consumed s) : Handed receive consumed s []
  | call {s : σ} {more : List Text} (pending : ¬ consumed s)
      (rest : Handed receive consumed (receive s).1 more) :
      Handed receive consumed s ((receive s).2.handed ++ more)

namespace Handed

variable {σ : Type} {receive : σ → σ × Reception} {consumed : σ → Prop} {s s' : σ}
  {reception : Reception} {all : List Text}

theorem done_iff (h : consumed s) : Handed receive consumed s all ↔ all = [] := by
  constructor
  · rintro (_ | ⟨pending, -⟩)
    · rfl
    · exact absurd h pending
  · rintro rfl
    exact .done h

theorem call_iff (pending : ¬ consumed s) (returned : receive s = (s', reception)) :
    Handed receive consumed s all ↔ ∃ more, all = reception.handed ++ more ∧
      Handed receive consumed s' more := by
  constructor
  · intro h
    cases h with
    | done h => exact absurd h pending
    | call _ rest =>
      rw [returned] at rest ⊢
      exact ⟨_, rfl, rest⟩
  · rintro ⟨more, rfl, rest⟩
    have hcall := @Handed.call _ receive _ _ more pending (by rwa [returned])
    rwa [returned] at hcall

end Handed

namespace Receiver

/-- Nothing is left in the buffer or on its way. -/
def Consumed (r : Receiver) : Prop := r.pending = []

theorem Clean.consumed {r : Receiver} (hclean : Clean r.pending) (h : r.pending.flatten = []) :
    r.Consumed := by
  unfold Consumed
  cases hp : r.pending with
  | nil => rfl
  | cons c chunks =>
    rw [hp] at h hclean
    exact absurd (List.append_eq_nil_iff.mp h).1 (hclean.ne_nil c List.mem_cons_self)

theorem not_consumed {r : Receiver} (h : r.pending.flatten ≠ []) : ¬ r.Consumed := fun hc =>
  h (by rw [show r.pending = [] from hc]; rfl)

/-- An end that receives as the loop does, until it has handed over a string that closes it. -/
structure Closing {σ : Type} (closes : Text → Bool) (receive : σ → σ × Reception)
    (consumed : σ → Prop) (opened : Receiver → σ) : Prop where
  consumed_iff : ∀ r, consumed (opened r) ↔ r.Consumed
  receive_nothing : ∀ r r', r.await = (r', .nothing) →
    receive (opened r) = (opened r', .nothing)
  receive_open : ∀ r r' msgString, r.await = (r', .message msgString) →
    closes msgString = false → receive (opened r) = (opened r', .message msgString)
  receive_closed : ∀ r r' msgString, r.await = (r', .message msgString) →
    closes msgString = true → ∃ s, consumed s ∧ receive (opened r) = (s, .message msgString)

variable {r r' : Receiver} {bodies all : List Text} {body rest message : Text} {n : ℕ}

/-- The first string is what arrives of the first message. -/
theorem Took.message_eq_lastTwo (h : r.Took body rest r' message) (hmsg : r.partialMsg = [])
    (n : ℕ) : message = Chunks.lastTwo (Chunks.cuts n r.pending) n (body ++ [escape]) := by
  have hmessage := h.message_eq n
  rwa [hmsg, ite_self, List.nil_append] at hmessage

theorem Closing.handed_iff {σ : Type} {closes : Text → Bool} {receive : σ → σ × Reception}
    {consumed : σ → Prop} {opened : Receiver → σ} (h : Closing closes receive consumed opened)
    (hbodies : ∀ b ∈ bodies, WellFormed b) (hmsg : r.partialMsg = []) (hclean : Clean r.pending)
    (hpending : r.pending.flatten = stream bodies) (n : ℕ) :
    Handed receive consumed (opened r) all ↔
      all = upTo closes (arrivals (Chunks.cuts n r.pending) n bodies) := by
  induction bodies generalizing r n all with
  | nil => rw [Handed.done_iff ((h.consumed_iff r).mpr (hclean.consumed hpending)), arrivals, upTo]
  | cons body bodies ih =>
    have hbody := hbodies body List.mem_cons_self
    rw [stream_cons] at hpending
    obtain ⟨r', message, hawait, htook⟩ := await_took hbody.newline hbody.escape hclean hpending
    have hcalled : ¬ consumed (opened r) := fun hc =>
      not_consumed (by rw [hpending]; simp) ((h.consumed_iff r).mp hc)
    rw [arrivals, ← htook.message_eq_lastTwo hmsg n, upTo]
    cases hcloses : closes message with
    | true =>
      obtain ⟨s, hs, hreceive⟩ := h.receive_closed r r' message hawait hcloses
      rw [Handed.call_iff hcalled hreceive]
      simp [Handed.done_iff hs, Reception.handed]
    | false =>
      rw [Handed.call_iff hcalled (h.receive_open r r' message hawait hcloses)]
      -- behind the message, or behind the call that only takes its newline
      have hrest : ∀ {more}, Handed receive consumed (opened r') more ↔ more =
          upTo closes (arrivals (Chunks.cuts n r.pending) (n + body.length + 2) bodies) := by
        intro more
        have ih' := fun {r : Receiver} => @ih r more fun b hb =>
          hbodies b (List.mem_cons_of_mem _ hb)
        obtain ⟨d, ⟨rfl, hflatten⟩ | ⟨rfl, -, hflatten⟩, hfilter⟩ := htook.stops
        · rw [ih' htook.partialMsg_eq htook.clean hflatten (n + body.length + 2), ← hfilter,
            arrivals_filter le_rfl]
        · obtain ⟨r'', hawait', hmsg', -, hclean', hflatten', hfilter'⟩ :=
            await_newline htook.clean hflatten
          have hcalled' : ¬ consumed (opened r') := fun hc =>
            not_consumed (by rw [hflatten]; simp) ((h.consumed_iff r').mp hc)
          rw [Handed.call_iff hcalled' (h.receive_nothing r' r'' hawait')]
          simp only [Reception.handed, List.nil_append, exists_eq_left']
          rw [ih' hmsg' hclean' hflatten' (n + body.length + 2), ← hfilter' (n + body.length + 1),
            arrivals_filter le_rfl, ← hfilter, arrivals_filter (by omega)]
      simp [hrest, Reception.handed]

end Receiver

/-! ## Framing integrity -/

/-- Nothing more will be received. -/
def Connection.Consumed (c : Connection) : Prop :=
  c.connectionOpen = true → c.toReceiver.Consumed

def ClientConnectionHandler.Consumed (c : ClientConnectionHandler) : Prop := c.toReceiver.Consumed

/-- The chunks that successive calls of `recv` return for this stream. -/
structure CutFrom (bodies chunks : List Text) : Prop where
  wellFormed : ∀ body ∈ bodies, WellFormed body
  size : ∀ chunk ∈ chunks, chunk ≠ [] ∧ chunk.length < Receiver.bufferSize
  flatten_eq : chunks.flatten = stream bodies

namespace CutFrom

variable {bodies chunks : List Text}

theorem clean (h : CutFrom bodies chunks) : Receiver.Clean chunks := by
  refine fun chunk hchunk => ⟨(h.size chunk hchunk).1, fun hnul => ?_⟩
  have hmem : nul ∈ stream bodies := h.flatten_eq ▸ List.mem_flatten_of_mem hchunk hnul
  obtain ⟨framed, hframed, hnul⟩ := List.mem_flatten.mp hmem
  obtain ⟨body, hbody, rfl⟩ := List.mem_map.mp hframed
  rcases List.mem_append.mp hnul with hnul | hnul
  · exact (h.wellFormed body hbody).nul hnul
  · exact absurd hnul (by decide)

/-- What is handed over of the stream. -/
theorem handed_iff {σ : Type} {closes : Text → Bool} {receive : σ → σ × Reception}
    {consumed : σ → Prop} {opened : Receiver → σ}
    (hclosing : Receiver.Closing closes receive consumed opened) (h : CutFrom bodies chunks) :
    Handed receive consumed (opened { incoming := chunks }) (bodies.map (· ++ [escape])) ↔
      CutOnce (Chunks.cuts 0 chunks) 0 bodies ∧
        ∀ body ∈ bodies.dropLast, closes (body ++ [escape]) = false := by
  have hhanded := @Receiver.Closing.handed_iff { incoming := chunks } bodies
    (bodies.map (· ++ [escape])) σ closes receive consumed opened hclosing h.wellFormed rfl h.clean
    h.flatten_eq 0
  rw [hhanded, eq_comm]
  exact upTo_arrivals_eq_iff

end CutFrom

theorem Connection.closing : Receiver.Closing closes receive Consumed (⟨·, true⟩) where
  consumed_iff _ := forall_prop_of_true rfl
  receive_nothing r r' h := by simp [receive, h]
  receive_open r r' msgString h hcloses := by simp [receive, h, hcloses]
  receive_closed r r' msgString h hcloses :=
    ⟨⟨r', false⟩, nofun, by simp [receive, h, hcloses]⟩

/-- Behind this string the loop of `startReceiving` ends. -/
def Connection.ends (fails : Message Text Text → Bool) (msgString : Text) : Bool :=
  closes msgString || (Reception.message msgString).threw fails

theorem Connection.closing_startReceiving (fails : Message Text Text → Bool) :
    Receiver.Closing (ends fails) (startReceiving fails) Consumed (⟨·, true⟩) where
  consumed_iff _ := forall_prop_of_true rfl
  receive_nothing r r' h := by simp [startReceiving, receive, h, Reception.threw]
  receive_open r r' msgString h hends := by
    obtain ⟨hcloses, hthrew⟩ := Bool.or_eq_false_iff.mp hends
    simp [startReceiving, receive, h, hcloses, hthrew]
  receive_closed r r' msgString h hends := by
    refine ⟨⟨r', false⟩, nofun, ?_⟩
    cases hthrew : (Reception.message msgString).threw fails with
    | true => simp [startReceiving, receive, h, hthrew]
    | false =>
      have hcloses : closes msgString = true := by simpa [ends, hthrew] using hends
      simp [startReceiving, receive, h, hthrew, hcloses]

theorem ClientConnectionHandler.closing :
    Receiver.Closing (fun _ => false) receive Consumed ClientConnectionHandler.mk where
  consumed_iff _ := Iff.rfl
  receive_nothing r r' h := by simp [receive, h]
  receive_open r r' msgString h _ := by simp [receive, h]
  receive_closed _ _ _ _ hcloses := nomatch hcloses

/-- Both ends hand over exactly the messages of the stream if and only if no chunk ends twice
within a message and its escape and, at a replica, only the last message may close the
connection: a `REPAIR`, and in `startReceiving` also one that ends by an exception. -/
theorem framing_integrity_iff {bodies chunks : List Text} (h : CutFrom bodies chunks)
    (fails : Message Text Text → Bool) :
    (Handed Connection.receive Connection.Consumed { incoming := chunks }
        (bodies.map (· ++ [escape])) ↔ CutOnce (Chunks.cuts 0 chunks) 0 bodies ∧
          ∀ body ∈ bodies.dropLast, Connection.closes (body ++ [escape]) = false) ∧
      (Handed (Connection.startReceiving fails) Connection.Consumed { incoming := chunks }
        (bodies.map (· ++ [escape])) ↔ CutOnce (Chunks.cuts 0 chunks) 0 bodies ∧
          ∀ body ∈ bodies.dropLast, Connection.ends fails (body ++ [escape]) = false) ∧
      (Handed ClientConnectionHandler.receive ClientConnectionHandler.Consumed
        ⟨{ incoming := chunks }⟩ (bodies.map (· ++ [escape])) ↔
          CutOnce (Chunks.cuts 0 chunks) 0 bodies) := by
  refine ⟨h.handed_iff Connection.closing, h.handed_iff (Connection.closing_startReceiving fails),
    ?_⟩
  simpa using h.handed_iff ClientConnectionHandler.closing

/-- Two messages, the first of them in two pieces. -/
theorem framing_integrity_twoPieces :
    Handed Connection.receive Connection.Consumed
        { incoming := [['a'], ['b', escape, '\n', 'c', escape, '\n']] }
        [['a', 'b', escape], ['c', escape]] ∧
      Handed ClientConnectionHandler.receive ClientConnectionHandler.Consumed
        ⟨{ incoming := [['a'], ['b', escape, '\n', 'c', escape, '\n']] }⟩
        [['a', 'b', escape], ['c', escape]] := by
  have hcut : CutFrom [['a', 'b'], ['c']] [['a'], ['b', escape, '\n', 'c', escape, '\n']] := by
    refine ⟨fun body hbody => ?_, by decide, rfl⟩
    rcases List.mem_pair.mp hbody with rfl | rfl <;> constructor <;> decide
  obtain ⟨hserver, -, hclient⟩ := framing_integrity_iff hcut fun _ => false
  exact ⟨hserver.mpr (by decide +kernel), hclient.mpr (by decide)⟩

/-- What comes behind a `REPAIR` is not read. -/
example : upTo Connection.closes ["REPAIR; k:\"k\", v:\"v\", ts:1\x1b".toList,
    "FETCH; k:\"k\"\x1b".toList] = ["REPAIR; k:\"k\", v:\"v\", ts:1\x1b".toList] := by
  decide +kernel

/-- A message in three pieces: the second replaces the first. -/
theorem threePieces_lost : ∃ chunks, CutFrom [['a', 'b']] chunks ∧
    Handed Connection.receive Connection.Consumed { incoming := chunks } [['b', escape]] ∧
    ¬ Handed Connection.receive Connection.Consumed { incoming := chunks } [['a', 'b', escape]] ∧
    Handed ClientConnectionHandler.receive ClientConnectionHandler.Consumed
      ⟨{ incoming := chunks }⟩ [['b', escape]] := by
  have hawait : Receiver.await { incoming := [['a'], ['b'], [escape, '\n']] } =
      ({ incoming := [] }, .message ['b', escape]) := by
    simp [Receiver.await, Receiver.fill, Receiver.takeLine, escape, nul]
  have hserver : Connection.receive { incoming := [['a'], ['b'], [escape, '\n']] } =
      ({ incoming := [], connectionOpen := !Connection.closes ['b', escape] },
        .message ['b', escape]) := by
    simp [Connection.receive, hawait]
  have hclient : ClientConnectionHandler.receive ⟨{ incoming := [['a'], ['b'], [escape, '\n']] }⟩ =
      (⟨{ incoming := [] }⟩, .message ['b', escape]) := by
    simp [ClientConnectionHandler.receive, hawait]
  have hunread : ¬ Receiver.Consumed { incoming := [['a'], ['b'], [escape, '\n']] } :=
    Receiver.not_consumed (by decide)
  have hpending : ¬ Connection.Consumed { incoming := [['a'], ['b'], [escape, '\n']] } :=
    fun hc => hunread (hc rfl)
  have hpending' : ¬ ClientConnectionHandler.Consumed
      ⟨{ incoming := [['a'], ['b'], [escape, '\n']] }⟩ := hunread
  refine ⟨[['a'], ['b'], [escape, '\n']], ⟨?_, by decide, rfl⟩, ?_, ?_, ?_⟩
  · intro body hbody
    obtain rfl := List.mem_singleton.mp hbody
    constructor <;> decide
  · exact (Handed.call_iff hpending hserver).mpr ⟨[], rfl, .done fun _ => rfl⟩
  · rw [Handed.call_iff hpending hserver]
    rintro ⟨more, heq, -⟩
    cases heq
  · exact (Handed.call_iff hpending' hclient).mpr ⟨[], rfl, .done rfl⟩

/-! ## Texts that are read back -/

/-- The key of a `PUT`, without the bytes that frame a message. -/
structure SendableKey (key : Text) : Prop where
  keyable : Keyable key
  wellFormed : WellFormed key

structure SendableValue (value : Text) : Prop where
  isDot : ∀ c ∈ value, isDot c
  wellFormed : WellFormed value

/-- The text is framed whole, and decoded to the message that it was made of. -/
def Message.Readable (m : Message Text Text) : Prop :=
  WellFormed m.toString ∧ ServerMessage.toMessage (m.toString ++ [escape]) = .ok m

theorem Message.Fits.wellFormed {m : Message Text Text} (h : m.Fits SendableKey SendableValue) :
    WellFormed m.toString := by
  cases m with
  | ack info => rcases h with rfl | rfl <;> decide +kernel
  | fetch key =>
    unfold Message.toString ServerMessage.Fetch.toString
    simp only [wellFormed_append, SendableKey.wellFormed h]
    decide +kernel
  | fetchedValue key entry =>
    obtain ⟨hkey, hentry⟩ := h
    cases entry with
    | none =>
      unfold Message.toString ServerMessage.FetchedValue.toString
      simp only [wellFormed_append, hkey.wellFormed]
      decide +kernel
    | some entry =>
      obtain ⟨hvalue, hversion⟩ := hentry entry rfl
      unfold Message.toString ServerMessage.FetchedValue.toString
      simp only [wellFormed_append, hkey.wellFormed, hvalue.wellFormed, wellFormed_ofInt hversion.1]
      decide +kernel
  | prepare uid key new =>
    obtain ⟨huid, hkey, hvalue⟩ := h
    unfold Message.toString ServerMessage.Prepare.toString
    simp only [wellFormed_append, wellFormed_ofInt huid.1, hkey.wellFormed, hvalue.wellFormed]
    decide +kernel
  | voteCommit uid key timestamp =>
    obtain ⟨huid, hkey, htimestamp⟩ := h
    unfold Message.toString ServerMessage.VoteCommit.toString
    simp only [wellFormed_append, wellFormed_ofInt huid.1, hkey.wellFormed,
      wellFormed_ofInt htimestamp.1]
    decide +kernel
  | voteAbort uid key =>
    obtain ⟨huid, hkey⟩ := h
    unfold Message.toString ServerMessage.VoteAbort.toString
    simp only [wellFormed_append, wellFormed_ofInt huid.1, hkey.wellFormed]
    decide +kernel
  | globalAbort uid key =>
    obtain ⟨huid, hkey⟩ := h
    unfold Message.toString ServerMessage.GlobalAbort.toString
    simp only [wellFormed_append, wellFormed_ofInt huid.1, hkey.wellFormed]
    decide +kernel
  | globalCommit uid key new timestamp =>
    obtain ⟨huid, hkey, hvalue, htimestamp⟩ := h
    unfold Message.toString ServerMessage.GlobalCommit.toString
    simp only [wellFormed_append, wellFormed_ofInt huid.1, hkey.wellFormed, hvalue.wellFormed,
      wellFormed_ofInt htimestamp.1]
    decide +kernel
  | repair key latest timestamp =>
    obtain ⟨hkey, hvalue, htimestamp⟩ := h
    unfold Message.toString ServerMessage.Repair.toString
    simp only [wellFormed_append, hkey.wellFormed, hvalue.wellFormed, wellFormed_ofInt htimestamp.1]
    decide +kernel
  | _ => exact h.elim

theorem Message.Fits.readable {m : Message Text Text} (h : m.Fits SendableKey SendableValue) :
    m.Readable := by
  refine ⟨h.wellFormed, ?_⟩
  cases m with
  | ack info => rcases h with rfl | rfl <;> decide +kernel
  | fetch key => exact toMessage_fetch h.keyable
  | fetchedValue key entry =>
    obtain ⟨hkey, hentry⟩ := h
    cases entry with
    | none => exact toMessage_fetchedValue_none hkey.keyable
    | some entry =>
      obtain ⟨hvalue, hversion⟩ := hentry entry rfl
      exact toMessage_fetchedValue_some hkey.keyable hvalue.isDot hversion
  | prepare uid key new => exact toMessage_prepare h.2.1.keyable h.2.2.isDot h.1
  | voteCommit uid key timestamp => exact toMessage_voteCommit h.2.1.keyable h.1 h.2.2
  | voteAbort uid key => exact toMessage_voteAbort h.2.keyable h.1
  | globalAbort uid key => exact toMessage_globalAbort h.2.keyable h.1
  | globalCommit uid key new timestamp =>
    exact toMessage_globalCommit h.2.1.keyable h.2.2.1.isDot h.1 h.2.2.2
  | repair key latest timestamp => exact toMessage_repair h.1.keyable h.2.1.isDot h.2.2
  | _ => exact h.elim

/-! ## The first message -/

namespace Connection

/-- What the first call on a new connection gets from `toMessage`. -/
def read (chunks : List Text) : Option (Except Thrown (Message Text Text)) :=
  match (receive { incoming := chunks }).2 with
  | .message msgString => some (ServerMessage.toMessage msgString)
  | _ => none

variable {body : Text} {chunks : List Text}

theorem read_eq (h : CutFrom [body] chunks) : read chunks = some (ServerMessage.toMessage
    (Chunks.lastTwo (Chunks.cuts 0 chunks) 0 (body ++ [escape]))) := by
  have hbody := h.wellFormed body List.mem_cons_self
  have hunread : Receiver.pending { incoming := chunks } = chunks := rfl
  obtain ⟨r, message, hawait, htook⟩ :=
    @Receiver.await_took { incoming := chunks } (stream []) body hbody.newline hbody.escape h.clean
      (by rw [hunread, h.flatten_eq, stream_cons])
  have hmessage := htook.message_eq_lastTwo rfl 0
  rw [hunread] at hmessage
  have hreceive : (receive { incoming := chunks }).2 = .message message := by
    simp [receive, hawait]
  rw [read, hreceive, hmessage]

theorem read_nil : read [] = none := by
  simp [read, receive, Receiver.await, Receiver.fill]

/-- The chunks that bring the text of a message. -/
structure Brings (text : Text) (chunks : List Text) : Prop where
  size : ∀ chunk ∈ chunks, chunk ≠ [] ∧ chunk.length < Receiver.bufferSize
  flatten_eq : chunks.flatten = frame text

/-- The text with its escape comes in at most two chunks. -/
def InTwo (chunks : List Text) : Prop :=
  Chunks.inside (Chunks.cuts 0 chunks) 0 (chunks.flatten.length - 1) ≤ 1

theorem Brings.cutFrom (h : Brings body chunks) (hwellFormed : WellFormed body) :
    CutFrom [body] chunks where
  wellFormed body hbody := List.mem_singleton.mp hbody ▸ hwellFormed
  size := h.size
  flatten_eq := by rw [h.flatten_eq, stream, List.map_singleton, List.flatten_singleton]

/-- A text that comes in at most two chunks is read as a whole. -/
theorem Brings.read (h : Brings body chunks) (hwellFormed : WellFormed body)
    (hwhole : InTwo chunks) :
    Connection.read chunks = some (ServerMessage.toMessage (body ++ [escape])) := by
  rw [read_eq (h.cutFrom hwellFormed), Chunks.lastTwo_eq_iff.mpr]
  have hlength : chunks.flatten.length - 1 = (body ++ [escape]).length := by
    rw [h.flatten_eq, frame]
    simp
  rwa [InTwo, hlength] at hwhole

theorem brings_frame (h : body.length + 2 < Receiver.bufferSize) : Brings body [frame body] where
  size chunk hchunk := by
    obtain rfl := List.mem_singleton.mp hchunk
    exact ⟨by simp [frame], by simpa [frame] using h⟩
  flatten_eq := List.flatten_singleton

theorem inTwo_frame (body : Text) : InTwo [frame body] := by
  simp [InTwo, Chunks.cuts, Chunks.inside, frame]

end Connection

/-! ## One message for each call -/

/-- Calls are made one after the other, however each of them has ended. -/
def Connection.call (c : Connection) (_ : Unit) : Option Connection := some c.receive.1

/-- The next unread byte is the first one of a message, and no message closes the connection
when it arrives. -/
structure Connection.AtMessage (chunks : List Text) (c : Connection) : Prop where
  isOpen : c.connectionOpen = true
  partialMsg_eq : c.partialMsg = []
  clean : Receiver.Clean c.pending
  suffix : c.incoming <:+ chunks
  unread : ∃ bodies, (∀ body ∈ bodies, WellFormed body) ∧ c.pending.flatten = stream bodies ∧
    ∃ n, ∀ msgString ∈ arrivals (Chunks.cuts n c.pending) n bodies, closes msgString = false

namespace Connection

variable {c c' : Connection} {chunks bodies : List Text} {reception : Reception} {n : ℕ}

theorem receive_interrupted (hopen : c.connectionOpen = true) {r : Receiver}
    (h : c.toReceiver.await = (r, .interrupted)) : c.receive = (⟨r, true⟩, .interrupted) := by
  simp [receive, hopen, h]

theorem receive_nothing (hopen : c.connectionOpen = true) {r : Receiver}
    (h : c.toReceiver.await = (r, .nothing)) : c.receive = (⟨r, true⟩, .nothing) := by
  simp [receive, hopen, h]

theorem receive_message (hopen : c.connectionOpen = true) {r : Receiver} {msgString : Text}
    (h : c.toReceiver.await = (r, .message msgString)) :
    c.receive = (⟨r, !closes msgString⟩, .message msgString) := by
  simp [receive, hopen, h]

/-- If no chunk starts with a newline, a call hands over one message and stops behind it, or it
finds no message any more. -/
theorem AtMessage.receive (hchunks : ∀ chunk ∈ chunks, chunk.head? ≠ some '\n')
    (h : c.AtMessage chunks) : c.receive.2 ≠ .nothing ∧ c.receive.1.AtMessage chunks := by
  obtain ⟨bodies, hbodies, hunread, n, hkept⟩ := h.unread
  cases bodies with
  | nil =>
    have hnone :=
      Receiver.await_eq_of_none (Receiver.fill_eq_none (h.clean.consumed hunread))
    rw [receive_interrupted h.isOpen hnone, ← h.isOpen]
    exact ⟨nofun, h⟩
  | cons body bodies =>
    have hbody := hbodies body List.mem_cons_self
    rw [stream_cons] at hunread
    obtain ⟨r, message, hr, htook⟩ :=
      Receiver.await_took hbody.newline hbody.escape h.clean hunread
    rw [arrivals, ← htook.message_eq_lastTwo h.partialMsg_eq n, List.forall_mem_cons] at hkept
    rw [receive_message h.isOpen hr, hkept.1]
    have hsuffix := htook.suffix.trans h.suffix
    refine ⟨nofun, rfl, htook.partialMsg_eq, htook.clean, hsuffix, bodies,
      fun b hb => hbodies b (List.mem_cons_of_mem _ hb), ?_⟩
    obtain ⟨d, ⟨rfl, hflatten⟩ | ⟨rfl, hempty, hflatten⟩, hfilter⟩ := htook.stops
    · refine ⟨hflatten, n + body.length + 2, ?_⟩
      change ∀ msgString ∈ arrivals (Chunks.cuts (n + body.length + 2) r.pending) _ _, _
      rw [← hfilter, arrivals_filter le_rfl]
      exact hkept.2
    · -- the next chunk would start with the newline
      have hclean := htook.clean
      rw [Receiver.pending_of_empty hempty] at hflatten hclean
      cases hincoming : r.incoming with
      | nil => simp [hincoming] at hflatten
      | cons chunk rest =>
        rw [hincoming] at hsuffix hflatten hclean
        refine absurd ?_ (hchunks chunk (hsuffix.subset List.mem_cons_self))
        have hne := hclean.ne_nil chunk List.mem_cons_self
        cases chunk with
        | nil => exact absurd rfl hne
        | cons a chunk => rw [(List.cons.inj hflatten).1]; rfl

/-- If a chunk starts with a newline or a message closes the connection, some call hands over
nothing. -/
theorem exists_nothing (hopen : c.connectionOpen = true) (hmsg : c.partialMsg = [])
    (hclean : Receiver.Clean c.pending) (hbodies : ∀ body ∈ bodies, WellFormed body)
    (hunread : c.pending.flatten = stream bodies)
    (h : (∃ chunk ∈ c.pending, chunk.head? = some '\n') ∨
      ∃ msgString ∈ arrivals (Chunks.cuts n c.pending) n bodies, closes msgString = true) :
    ∃ c', Transition.Run call (fun _ _ => True) c c' ∧ c'.receive.2 = .nothing := by
  induction bodies generalizing c n with
  | nil =>
    rcases h with ⟨chunk, hchunk, -⟩ | ⟨msgString, hmem, -⟩
    · rw [hclean.consumed hunread] at hchunk
      cases hchunk
    · cases hmem
  | cons body bodies ih =>
    have hbody := hbodies body List.mem_cons_self
    have hrest := fun b hb => hbodies b (List.mem_cons_of_mem _ hb)
    rw [stream_cons] at hunread
    obtain ⟨r, message, hr, htook⟩ :=
      Receiver.await_took hbody.newline hbody.escape hclean hunread
    have hcall : Transition.Run call (fun _ _ => True) c ⟨r, !closes message⟩ :=
      .single (e := ()) trivial (by rw [call, receive_message hopen hr])
    rw [arrivals, ← htook.message_eq_lastTwo hmsg n] at h
    cases hcloses : closes message with
    | true =>
      rw [hcloses] at hcall
      exact ⟨_, hcall, rfl⟩
    | false =>
      rw [hcloses] at hcall
      obtain ⟨d, ⟨rfl, hflatten⟩ | ⟨rfl, hempty, hflatten⟩, hfilter⟩ := htook.stops
      · obtain ⟨c', hrun, hnothing⟩ := ih (c := ⟨r, true⟩) (n := n + body.length + 2) rfl
          htook.partialMsg_eq htook.clean hrest hflatten (by
            refine h.imp (fun ⟨chunk, hchunk, hhead⟩ =>
              ⟨chunk, htook.newline chunk hchunk hhead, hhead⟩) fun ⟨msgString, hmem, hclosed⟩ => ?_
            rcases List.mem_cons.mp hmem with rfl | hmem
            · rw [hcloses] at hclosed
              cases hclosed
            · refine ⟨msgString, ?_, hclosed⟩
              change msgString ∈ arrivals (Chunks.cuts (n + body.length + 2) r.pending) _ _
              rwa [← hfilter, arrivals_filter le_rfl])
        exact ⟨c', hcall.trans hrun, hnothing⟩
      · obtain ⟨r', hr', -⟩ := Receiver.await_newline htook.clean hflatten
        exact ⟨⟨r, true⟩, hcall, by rw [receive_nothing rfl hr']⟩

end Connection

theorem Reception.handed_length_eq_one_iff {reception : Reception}
    {fails : Message Text Text → Bool} (h : reception.threw fails = false) :
    reception.handed.length = 1 ↔ reception ≠ .nothing := by
  cases reception with
  | interrupted => cases h
  | nothing => simp [handed]
  | message msgString => simp [handed]

/-- Every call that returns has handed over exactly one message if and only if the connection is
open, no chunk starts with the newline of a message and no message arrives as a `REPAIR`. -/
theorem one_message_per_receive_iff {bodies chunks : List Text} (h : CutFrom bodies chunks)
    (isOpen : Bool) (fails : Message Text Text → Bool) :
    (∀ c, Transition.Run Connection.call (fun _ _ => True)
        { incoming := chunks, connectionOpen := isOpen } c →
      c.receive.2.threw fails = false → c.receive.2.handed.length = 1) ↔
      isOpen = true ∧ (∀ chunk ∈ chunks, chunk.head? ≠ some '\n') ∧
        ∀ msgString ∈ arrivals (Chunks.cuts 0 chunks) 0 bodies,
          Connection.closes msgString = false := by
  constructor
  · intro hone
    have hsome : ∀ c, Transition.Run Connection.call (fun _ _ => True)
        { incoming := chunks, connectionOpen := isOpen } c → c.receive.2 ≠ .nothing := by
      intro c hrun hnothing
      have hthrew : c.receive.2.threw fails = false := by rw [hnothing]; rfl
      exact (Reception.handed_length_eq_one_iff hthrew).mp (hone c hrun hthrew) hnothing
    have hopen : isOpen = true := by
      by_contra hclosed
      exact hsome _ (.refl _) (by simp [Connection.receive, hclosed])
    subst hopen
    by_contra hnot
    have hbad : (∃ chunk ∈ chunks, chunk.head? = some '\n') ∨
        ∃ msgString ∈ arrivals (Chunks.cuts 0 chunks) 0 bodies,
          Connection.closes msgString = true := by
      rcases not_and_or.mp ((and_iff_right rfl).not.mp hnot) with hchunks | harrivals
      · left
        simpa using hchunks
      · right
        simpa using harrivals
    obtain ⟨c, hrun, hnothing⟩ := @Connection.exists_nothing { incoming := chunks } bodies 0 rfl rfl
      h.clean h.wellFormed h.flatten_eq hbad
    exact hsome c hrun hnothing
  · rintro ⟨rfl, hchunks, harrivals⟩ c hrun hthrew
    have hat : c.AtMessage chunks := by
      refine hrun.preserves (P := Connection.AtMessage chunks) (fun c _ c' hc _ hcall => ?_)
        ⟨rfl, rfl, h.clean, List.suffix_rfl, bodies, h.wellFormed, h.flatten_eq, 0, harrivals⟩
      obtain rfl := Option.some.inj hcall
      exact (hc.receive hchunks).2
    exact (Reception.handed_length_eq_one_iff hthrew).mpr (hat.receive hchunks).1

/-- A message that is cut elsewhere. -/
theorem one_message_per_receive_twoPieces :
    stream [['a']] = [['a'], [escape, '\n']].flatten ∧
      ∀ c, Transition.Run Connection.call (fun _ _ => True)
        { incoming := [['a'], [escape, '\n']], connectionOpen := true } c →
      c.receive.2.threw (fun _ => false) = false → c.receive.2.handed.length = 1 := by
  have hcut : CutFrom [['a']] [['a'], [escape, '\n']] :=
    ⟨fun body hbody => by obtain rfl := List.mem_singleton.mp hbody; constructor <;> decide,
      by decide, rfl⟩
  exact ⟨rfl, (one_message_per_receive_iff hcut true _).mpr
    ⟨rfl, by decide, by decide +kernel⟩⟩

/-- The first message ends with a chunk: the call for the second one returns without it. -/
theorem newline_chunk_empty : ∃ chunks c, CutFrom [['a'], ['b']] chunks ∧
    Transition.Run Connection.call (fun _ _ => True) { incoming := chunks } c ∧
    c.receive.2 = .nothing ∧ c.receive.1.receive.2 = .message ['b', escape] := by
  have hfirst : Receiver.await { incoming := [['a', escape], ['\n', 'b', escape, '\n']] } =
      ({ incoming := [['\n', 'b', escape, '\n']] }, .message ['a', escape]) := by
    simp [Receiver.await, Receiver.fill, Receiver.takeLine, escape, nul]
  have hsecond : Receiver.await { incoming := [['\n', 'b', escape, '\n']] } =
      ({ bufferContent := ['b', escape, '\n'], incoming := [] }, .nothing) := by
    simp [Receiver.await, Receiver.fill, Receiver.takeLine, escape, nul]
  have hthird : Receiver.await { bufferContent := ['b', escape, '\n'], incoming := [] } =
      ({ incoming := [] }, .message ['b', escape]) := by
    simp [Receiver.await, Receiver.fill, Receiver.takeLine, escape]
  have hopen : Connection.closes ['a', escape] = false := by decide +kernel
  have hnothing : Connection.receive { incoming := [['\n', 'b', escape, '\n']] } =
      ({ bufferContent := ['b', escape, '\n'], incoming := [] }, .nothing) :=
    Connection.receive_nothing rfl hsecond
  refine ⟨[['a', escape], ['\n', 'b', escape, '\n']], { incoming := [['\n', 'b', escape, '\n']] },
    ⟨fun body hbody => ?_, by decide, rfl⟩, .single (e := ()) trivial ?_, by rw [hnothing], ?_⟩
  · rcases List.mem_pair.mp hbody with rfl | rfl <;> constructor <;> decide
  · rw [Connection.call, Connection.receive_message rfl hfirst, hopen]
    rfl
  · rw [hnothing, Connection.receive_message rfl hthird]

end LeaderlessDatastore
