import LeaderlessDatastore.Message
import LeaderlessDatastore.Regex

/-!
# The text of messages

`toString` and `toMessage` of the message classes.
-/

namespace LeaderlessDatastore

/-- The exceptions of the decoders, with their texts. -/
inductive Thrown where
  /-- `RegexMismatchException`, which is a `runtime_error` -/
  | regexMismatch (what : String)
  | runtimeError (what : String)
  /-- thrown by `stoi` and `stoll`, a `logic_error` -/
  | conversion (error : Text.ConversionError)
  deriving DecidableEq

/-- `catch(runtime_error)` catches it. -/
def Thrown.isRuntimeError : Thrown → Bool
  | .regexMismatch _ | .runtimeError _ => true
  | .conversion _ => false

inductive MessageType where
  | ack | nack | put | get | value | fetch | fetchedValue | prepare | voteCommit | voteAbort
  | prepareCommit | globalAbort | readyCommit | globalCommit | repair | sync | update
  deriving DecidableEq

def Message.getType : Message Text Text → MessageType
  | .ack _ => .ack
  | .nack _ => .nack
  | .put .. => .put
  | .get _ => .get
  | .value _ => .value
  | .fetch _ => .fetch
  | .fetchedValue .. => .fetchedValue
  | .prepare .. => .prepare
  | .voteCommit .. => .voteCommit
  | .voteAbort .. => .voteAbort
  | .globalAbort .. => .globalAbort
  | .globalCommit .. => .globalCommit
  | .repair .. => .repair
  | .sync _ => .sync
  | .update _ => .update

def mismatch (name : String) : Except Thrown (Message Text Text) :=
  .error (.regexMismatch ("Mismatch reading message " ++ name))

/-- A number that `stoi` or `stoll` reads. -/
def number (result : Except Text.ConversionError ℤ) : Except Thrown ℤ :=
  result.mapError .conversion

/-- `emplace` on a map, with the entries in iteration order. -/
def emplace {Key Value : Type} [DecidableEq Key] (entries : List (Key × Value)) (key : Key)
    (value : Value) : List (Key × Value) :=
  if key ∈ entries.map Prod.fst then entries else entries ++ [(key, value)]

/-! ## `toString` -/

namespace Message

def Ack.toString (info : Text) : Text := "ACK; ".toList ++ info

def Nack.toString (info : Text) : Text := "NACK; ".toList ++ info

def Value.toString (value : Option Text) : Text :=
  "VALUE; ".toList ++
    match value with
    | some text => "\"".toList ++ text ++ "\"".toList
    | none => "null".toList

end Message

namespace ServerMessage

def Put.toString (key value : Text) : Text :=
  "PUT; k:\"".toList ++ key ++ "\", v:\"".toList ++ value ++ "\"".toList

def Get.toString (key : Text) : Text := "GET; k:\"".toList ++ key ++ "\"".toList

def Fetch.toString (key : Text) : Text := "FETCH; k:\"".toList ++ key ++ "\"".toList

def FetchedValue.toString (key : Text) (entry : Option (Text × ℤ)) : Text :=
  "FETCHED_VALUE; k:\"".toList ++ key ++ "\", v:".toList ++
    match entry with
    | some (value, timestamp) =>
      "\"".toList ++ value ++ "\", ts:".toList ++ Text.ofInt timestamp
    | none => "null".toList

def Prepare.toString (uid : ℤ) (key value : Text) : Text :=
  "PREPARE; tId:".toList ++ Text.ofInt uid ++ ", k:\"".toList ++ key ++ "\", v:\"".toList ++
    value ++ "\"".toList

def VoteCommit.toString (uid : ℤ) (key : Text) (timestamp : ℤ) : Text :=
  "VOTE_COMMIT; tId:".toList ++ Text.ofInt uid ++ ", k:\"".toList ++ key ++ "\", ts:".toList ++
    Text.ofInt timestamp

def VoteAbort.toString (uid : ℤ) (key : Text) : Text :=
  "VOTE_ABORT; tId:".toList ++ Text.ofInt uid ++ ", k:\"".toList ++ key ++ "\"".toList

def GlobalAbort.toString (uid : ℤ) (key : Text) : Text :=
  "GLOBAL_ABORT; tId:".toList ++ Text.ofInt uid ++ ", k:\"".toList ++ key ++ "\"".toList

def GlobalCommit.toString (uid : ℤ) (key value : Text) (timestamp : ℤ) : Text :=
  "GLOBAL_COMMIT; tId:".toList ++ Text.ofInt uid ++ ", k:\"".toList ++ key ++
    "\", v:\"".toList ++ value ++ "\", ts:".toList ++ Text.ofInt timestamp

def Repair.toString (key value : Text) (timestamp : ℤ) : Text :=
  "REPAIR; k:\"".toList ++ key ++ "\", v:\"".toList ++ value ++ "\", ts:".toList ++
    Text.ofInt timestamp

def Sync.entry (entry : Text × ℤ) : Text :=
  "(k:\"".toList ++ entry.1 ++ "\", ts:".toList ++ Text.ofInt entry.2 ++ "), ".toList

def Sync.toString (entries : List (Text × ℤ)) : Text :=
  if entries.isEmpty then "SYNC; none".toList
  else ("SYNC; ".toList ++ entries.flatMap Sync.entry).dropLast.dropLast

def Update.entry (entry : Text × Text × ℤ) : Text :=
  "(k:\"".toList ++ entry.1 ++ "\", v:\"".toList ++ entry.2.1 ++ "\", ts:".toList ++
    Text.ofInt entry.2.2 ++ "), ".toList

def Update.toString (newValues : List (Text × Text × ℤ)) : Text :=
  if newValues.isEmpty then "UPDATE; none".toList
  else ("UPDATE; ".toList ++ newValues.flatMap Update.entry).dropLast.dropLast

end ServerMessage

open ServerMessage in
def Message.toString : Message Text Text → Text
  | .ack info => Ack.toString info
  | .nack info => Nack.toString info
  | .value text => Value.toString text
  | .put key text => Put.toString key text
  | .get key => Get.toString key
  | .fetch key => Fetch.toString key
  | .fetchedValue key entry => FetchedValue.toString key entry
  | .prepare uid key text => Prepare.toString uid key text
  | .voteCommit uid key timestamp => VoteCommit.toString uid key timestamp
  | .voteAbort uid key => VoteAbort.toString uid key
  | .globalAbort uid key => GlobalAbort.toString uid key
  | .globalCommit uid key text timestamp => GlobalCommit.toString uid key text timestamp
  | .repair key text timestamp => Repair.toString key text timestamp
  | .sync entries => Sync.toString entries
  | .update newValues => Update.toString newValues

/-! ## `toMessage` -/

namespace Message

def toMessageType (s : Text) : Except Thrown MessageType :=
  if s = "ACK".toList then .ok .ack
  else if s = "NACK".toList then .ok .nack
  else if s = "GET".toList then .ok .get
  else if s = "VALUE".toList then .ok .value
  else if s = "PUT".toList then .ok .put
  else if s = "FETCH".toList then .ok .fetch
  else if s = "FETCHED_VALUE".toList then .ok .fetchedValue
  else if s = "PREPARE".toList then .ok .prepare
  else if s = "VOTE_COMMIT".toList then .ok .voteCommit
  else if s = "VOTE_ABORT".toList then .ok .voteAbort
  else if s = "PREPARE_COMMIT".toList then .ok .prepareCommit
  else if s = "GLOBAL_ABORT".toList then .ok .globalAbort
  else if s = "READY_COMMIT".toList then .ok .readyCommit
  else if s = "GLOBAL_COMMIT".toList then .ok .globalCommit
  else if s = "REPAIR".toList then .ok .repair
  else if s = "SYNC".toList then .ok .sync
  else if s = "UPDATE".toList then .ok .update
  else .error (.regexMismatch "No matching message type")

def Ack.toMessage (s : Text) : Except Thrown (Message Text Text) :=
  match regexMatch s Regex.ack with
  | some [info] => .ok (.ack info)
  | _ => mismatch "Ack"

def Nack.toMessage (s : Text) : Except Thrown (Message Text Text) :=
  match regexMatch s Regex.nack with
  | some [info] => .ok (.nack info)
  | _ => mismatch "Nack"

def Value.toMessage (s : Text) : Except Thrown (Message Text Text) :=
  match regexMatch s Regex.value with
  | some [text] => .ok (.value (if text = "null".toList then none else some text))
  | _ => mismatch "Value"

/-- `Message::toMessage`, the decoder of the client.  The last character is the `'\e'`. -/
def toMessage (messageString : Text) : Except Thrown (Message Text Text) :=
  let message := messageString.dropLast
  match regexMatch messageString Regex.split with
  | some [type, _] => do
    match ← toMessageType type with
    | .ack => Ack.toMessage message
    | .nack => Nack.toMessage message
    | .value => Value.toMessage message
    | _ => .error (.runtimeError "Unable to parse message")
  | _ => .error (.regexMismatch "Invalid message format")

end Message

namespace ServerMessage

def Get.toMessage (s : Text) : Except Thrown (Message Text Text) :=
  match regexMatch s Regex.get with
  | some [key] => .ok (.get key)
  | _ => mismatch "Get"

def Put.toMessage (s : Text) : Except Thrown (Message Text Text) :=
  match regexMatch s Regex.put with
  | some [key, value] => .ok (.put key value)
  | _ => mismatch "Put"

def Fetch.toMessage (s : Text) : Except Thrown (Message Text Text) :=
  match regexMatch s Regex.fetch with
  | some [key] => .ok (.fetch key)
  | _ => mismatch "Fetch"

def FetchedValue.toMessage (s : Text) : Except Thrown (Message Text Text) :=
  match regexMatch s Regex.fetchedValue with
  | some [key, value, timestamp] => do
    .ok (.fetchedValue key (some (value, ← number (Text.stoi timestamp))))
  | _ =>
    -- the key is not stored there
    match regexMatch s Regex.fetchedValueNull with
    | some [key] => .ok (.fetchedValue key none)
    | _ => mismatch "FetchedValue"

def Prepare.toMessage (s : Text) : Except Thrown (Message Text Text) :=
  match regexMatch s Regex.prepare with
  | some [uid, key, value] => do .ok (.prepare (← number (Text.stoi uid)) key value)
  | _ => mismatch "Prepare"

def VoteCommit.toMessage (s : Text) : Except Thrown (Message Text Text) :=
  match regexMatch s Regex.voteCommit with
  | some [uid, key, timestamp] => do
    .ok (.voteCommit (← number (Text.stoi uid)) key (← number (Text.stoi timestamp)))
  | _ => mismatch "VoteCommit"

def VoteAbort.toMessage (s : Text) : Except Thrown (Message Text Text) :=
  match regexMatch s Regex.voteAbort with
  | some [uid, key] => do .ok (.voteAbort (← number (Text.stoi uid)) key)
  | _ => mismatch "VoteAbort"

def GlobalAbort.toMessage (s : Text) : Except Thrown (Message Text Text) :=
  match regexMatch s Regex.globalAbort with
  | some [uid, key] => do .ok (.globalAbort (← number (Text.stoi uid)) key)
  | _ => mismatch "GlobalAbort"

def GlobalCommit.toMessage (s : Text) : Except Thrown (Message Text Text) :=
  match regexMatch s Regex.globalCommit with
  | some [uid, key, value, timestamp] => do
    .ok (.globalCommit (← number (Text.stoi uid)) key value (← number (Text.stoi timestamp)))
  | _ => mismatch "GlobalCommit"

def Repair.toMessage (s : Text) : Except Thrown (Message Text Text) :=
  match regexMatch s Regex.repair with
  | some [key, value, timestamp] => do
    .ok (.repair key value (← number (Text.stoi timestamp)))
  | _ => mismatch "Repair"

/-- The loop of `Sync::toMessage`, with the rest it leaves. -/
def Sync.entries (found : List (Text × ℤ)) (remaining : Text) :
    Except Thrown (List (Text × ℤ) × Text) :=
  match _h : regexMatch remaining Regex.sync with
  | some [key, timestamp, rest] => do
    Sync.entries (emplace found key (← number (Text.stoll timestamp))) rest
  | _ => .ok (found, remaining)
termination_by remaining.length
decreasing_by
  have := (Pattern.matches_of_exec _h).length_le (show rest ∈ [key, timestamp, rest] by simp)
  simp [Regex.sync, Regex.lit, Regex.space, Regex.text, Regex.digits, Pattern.literalLength] at this
  omega

def Sync.toMessage (s : Text) : Except Thrown (Message Text Text) :=
  match regexMatch s Regex.syncStart with
  | some [remaining] =>
    if "none".toList.isPrefixOf remaining then .ok (.sync [])
    else do
      let (found, remaining) ← Sync.entries [] remaining
      match regexMatch remaining Regex.syncEnd with
      | some [key, timestamp] => do
        .ok (.sync (emplace found key (← number (Text.stoll timestamp))))
      | _ => mismatch "Sync"
  | _ => mismatch "Sync"

/-- The loop of `Update::toMessage`, with the rest it leaves. -/
def Update.newValues (found : List (Text × Text × ℤ)) (remaining : Text) :
    Except Thrown (List (Text × Text × ℤ) × Text) :=
  match _h : regexMatch remaining Regex.update with
  | some [key, value, timestamp, rest] => do
    Update.newValues (emplace found key (value, ← number (Text.stoll timestamp))) rest
  | _ => .ok (found, remaining)
termination_by remaining.length
decreasing_by
  have := (Pattern.matches_of_exec _h).length_le (show rest ∈ [key, value, timestamp, rest] by simp)
  simp [Regex.update, Regex.lit, Regex.space, Regex.text, Regex.digits, Pattern.literalLength]
    at this
  omega

def Update.toMessage (s : Text) : Except Thrown (Message Text Text) :=
  match regexMatch s Regex.updateStart with
  | some [remaining] =>
    if "none".toList.isPrefixOf remaining then .ok (.update [])
    else do
      let (found, remaining) ← Update.newValues [] remaining
      match regexMatch remaining Regex.updateEnd with
      | some [key, value, timestamp] => do
        .ok (.update (emplace found key (value, ← number (Text.stoll timestamp))))
      | _ => mismatch "Update"
  | _ => mismatch "Update"

/-- The `switch` of `ServerMessage::toMessage`. -/
def toMessageOf (type : MessageType) (message : Text) : Except Thrown (Message Text Text) :=
  match type with
  | .get => Get.toMessage message
  | .put => Put.toMessage message
  | .fetch => Fetch.toMessage message
  | .fetchedValue => FetchedValue.toMessage message
  | .prepare => Prepare.toMessage message
  | .voteCommit => VoteCommit.toMessage message
  | .voteAbort => VoteAbort.toMessage message
  | .globalAbort => GlobalAbort.toMessage message
  | .globalCommit => GlobalCommit.toMessage message
  | .repair => Repair.toMessage message
  | .sync => Sync.toMessage message
  | .update => Update.toMessage message
  | _ => .error (.runtimeError "Unable to parse message")

/-- `ServerMessage::toMessage`: the common messages are tried first. -/
def toMessage (messageString : Text) : Except Thrown (Message Text Text) :=
  match Message.toMessage messageString with
  | .ok message => .ok message
  | .error thrown =>
    if thrown.isRuntimeError then
      match regexMatch messageString Regex.split with
      | some [type, _] => do toMessageOf (← Message.toMessageType type) messageString.dropLast
      | _ => .error (.regexMismatch "Invalid message format")
    else .error thrown

end ServerMessage

/-! ## Types -/

/-- A decoder that gives messages of one type only. -/
def Decodes (type : MessageType) (result : Except Thrown (Message Text Text)) : Prop :=
  ∀ message, result = .ok message → message.getType = type

namespace Decodes

variable {type : MessageType} {message : Message Text Text} {α : Type}

theorem ok (h : message.getType = type) : Decodes type (.ok message) := by
  rintro _ ⟨⟩
  exact h

theorem error (thrown : Thrown) : Decodes type (.error thrown) := nofun

theorem bind {result : Except Thrown α} {next : α → Except Thrown (Message Text Text)}
    (h : ∀ a, Decodes type (next a)) : Decodes type (result >>= next) := by
  cases result with
  | ok a => exact h a
  | error thrown => exact error thrown

end Decodes

theorem ServerMessage.decodes_toMessageOf (type : MessageType) (s : Text) :
    Decodes type (toMessageOf type s) := by
  cases type with
  | get =>
    simp only [toMessageOf, Get.toMessage]
    split
    exacts [.ok rfl, .error _]
  | put =>
    simp only [toMessageOf, Put.toMessage]
    split
    exacts [.ok rfl, .error _]
  | fetch =>
    simp only [toMessageOf, Fetch.toMessage]
    split
    exacts [.ok rfl, .error _]
  | fetchedValue =>
    simp only [toMessageOf, FetchedValue.toMessage]
    split
    · exact .bind fun _ => .ok rfl
    · split
      exacts [.ok rfl, .error _]
  | prepare =>
    simp only [toMessageOf, Prepare.toMessage]
    split
    exacts [.bind fun _ => .ok rfl, .error _]
  | voteCommit =>
    simp only [toMessageOf, VoteCommit.toMessage]
    split
    exacts [.bind fun _ => .bind fun _ => .ok rfl, .error _]
  | voteAbort =>
    simp only [toMessageOf, VoteAbort.toMessage]
    split
    exacts [.bind fun _ => .ok rfl, .error _]
  | globalAbort =>
    simp only [toMessageOf, GlobalAbort.toMessage]
    split
    exacts [.bind fun _ => .ok rfl, .error _]
  | globalCommit =>
    simp only [toMessageOf, GlobalCommit.toMessage]
    split
    exacts [.bind fun _ => .bind fun _ => .ok rfl, .error _]
  | repair =>
    simp only [toMessageOf, Repair.toMessage]
    split
    exacts [.bind fun _ => .ok rfl, .error _]
  | sync =>
    simp only [toMessageOf, Sync.toMessage]
    split
    · split
      · exact .ok rfl
      · refine .bind fun found => ?_
        split
        exacts [.bind fun _ => .ok rfl, .error _]
    · exact .error _
  | update =>
    simp only [toMessageOf, Update.toMessage]
    split
    · split
      · exact .ok rfl
      · refine .bind fun found => ?_
        split
        exacts [.bind fun _ => .ok rfl, .error _]
    · exact .error _
  | _ => exact .error _

theorem Message.getType_of_toMessage {s : Text} {message : Message Text Text}
    (h : toMessage s = .ok message) : message.getType ∈ [.ack, .nack, .value] := by
  simp only [toMessage] at h
  split at h
  · next name _ _ =>
    cases htype : toMessageType name with
    | error thrown =>
      rw [htype] at h
      cases h
    | ok type =>
      rw [htype] at h
      cases type with
      | ack =>
        have hdecodes : Decodes .ack (Ack.toMessage s.dropLast) := by
          unfold Ack.toMessage
          split
          exacts [.ok rfl, .error _]
        simp [hdecodes message h]
      | nack =>
        have hdecodes : Decodes .nack (Nack.toMessage s.dropLast) := by
          unfold Nack.toMessage
          split
          exacts [.ok rfl, .error _]
        simp [hdecodes message h]
      | value =>
        have hdecodes : Decodes .value (Value.toMessage s.dropLast) := by
          unfold Value.toMessage
          split
          exacts [.ok rfl, .error _]
        simp [hdecodes message h]
      | _ => cases h
  · cases h

theorem Message.eq_of_toMessageType {name : Text} (h : toMessageType name = .ok .put) :
    name = "PUT".toList := by
  by_contra hname
  have helse : ∀ {c : Prop} [Decidable c] {type : MessageType} {rest : Except Thrown MessageType},
      type ≠ .put → (if c then .ok type else rest) = .ok .put → rest = .ok .put := by
    intro c _ type rest htype h
    split_ifs at h
    · exact absurd (Except.ok.inj h) htype
    · exact h
  unfold toMessageType at h
  repeat first
    | rw [if_neg hname] at h
    | replace h := helse (by decide) h
  cases h

/-- Where a message that is not a common one comes from. -/
theorem ServerMessage.toMessageOf_of_toMessage {s : Text} {message : Message Text Text}
    (h : toMessage s = .ok message) (hserver : message.getType ∉ [.ack, .nack, .value]) :
    ∃ name body, regexMatch s Regex.split = some [name, body] ∧
      Message.toMessageType name = .ok message.getType ∧
      toMessageOf message.getType s.dropLast = .ok message := by
  simp only [toMessage] at h
  split at h
  · next hmessage =>
    cases h
    exact absurd (Message.getType_of_toMessage hmessage) hserver
  · split_ifs at h
    split at h
    · next name body hsplit =>
      cases htype : Message.toMessageType name with
      | error thrown =>
        rw [htype] at h
        cases h
      | ok type =>
        rw [htype] at h
        obtain rfl : message.getType = type := decodes_toMessageOf type _ _ h
        exact ⟨name, body, hsplit, htype, h⟩
    · cases h

/-- Where a `PUT` comes from. -/
theorem ServerMessage.regexMatch_of_toMessage {s key value : Text}
    (h : toMessage s = .ok (.put key value)) :
    ∃ body, regexMatch s Regex.split = some ["PUT".toList, body] ∧
      regexMatch s.dropLast Regex.put = some [key, value] := by
  obtain ⟨name, body, hsplit, htype, hput⟩ := toMessageOf_of_toMessage h (by simp [Message.getType])
  have hname : name = "PUT".toList := Message.eq_of_toMessageType htype
  refine ⟨body, hname ▸ hsplit, ?_⟩
  change Put.toMessage s.dropLast = .ok (.put key value) at hput
  unfold Put.toMessage at hput
  split at hput <;> cases hput
  assumption

end LeaderlessDatastore
