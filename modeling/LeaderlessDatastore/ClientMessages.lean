import LeaderlessDatastore.ClientOperation

/-!
# What client and server read of each other

The commands of the client as the server decodes them, and the answer to a `get` as the client
decodes it.
-/

namespace LeaderlessDatastore

open Pattern Regex

namespace ClientMessage

def ClientPut.toString (key value : Text) : Text :=
  "PUT; k:\"".toList ++ key ++ "\", v:\"".toList ++ value ++ "\"".toList

def ClientGet.toString (key : Text) : Text := "GET; k:\"".toList ++ key ++ "\"".toList

end ClientMessage

open ClientMessage

variable {key value : Text}

/-! ## Commands -/

theorem toMessage_clientPut (hkey : Keyable key) (hvalue : ∀ c ∈ value, isDot c) :
    ServerMessage.toMessage (ClientPut.toString key value ++ [escape]) = .ok (.put key value) := by
  have hs : ClientPut.toString key value = "PUT".toList ++ ';' :: ' ' ::
      ("k:\"".toList ++ (key ++ ("\", v:\"".toList ++ (value ++ "\"".toList)))) := by
    unfold ClientPut.toString
    simp
  have hmatch : regexMatch (ClientPut.toString key value) put = some [key, value] :=
    hs ▸ regexMatch_of_exec (by simp) (by simp) (by simp [Text.isSpace])
      ((exec_lit sameLetter_refl "k:\"".toList _).trans (exec_key hkey (exec_lastQuoted hvalue)))
  refine toMessage_of_type .put hs (by simp) (by decide) (by decide) (by simp [Text.isSpace])
    ?_ ?_
  · simp only [List.forall_mem_append]
    exact ⟨by simp [isDot], hkey.isDot, by simp [isDot], hvalue, by simp [isDot]⟩
  · simp [ServerMessage.toMessageOf, ServerMessage.Put.toMessage, hmatch]

theorem toMessage_clientGet (hkey : ∀ c ∈ key, isDot c) :
    ServerMessage.toMessage (ClientGet.toString key ++ [escape]) = .ok (.get key) := by
  have hs : ClientGet.toString key =
      "GET".toList ++ ';' :: ' ' :: ("k:\"".toList ++ (key ++ "\"".toList)) := by
    unfold ClientGet.toString
    simp
  have hmatch : regexMatch (ClientGet.toString key) get = some [key] :=
    hs ▸ regexMatch_of_exec (by simp) (by simp) (by simp [Text.isSpace])
      ((exec_lit sameLetter_refl "k:\"".toList _).trans (exec_lastQuoted hkey))
  refine toMessage_of_type .get hs (by simp) (by decide) (by decide) (by simp [Text.isSpace])
    ?_ ?_
  · simp only [List.forall_mem_append]
    exact ⟨by simp [isDot], hkey, by simp [isDot]⟩
  · simp [ServerMessage.toMessageOf, ServerMessage.Get.toMessage, hmatch]

/-- Whatever is typed: what the client takes for a command reaches the server as that command. -/
theorem toMessage_parse (line : Text) :
    ((ClientOperation.parse line).type = .put →
      ServerMessage.toMessage (ClientPut.toString (ClientOperation.parse line).key
        (ClientOperation.parse line).value ++ [escape]) =
      .ok (.put (ClientOperation.parse line).key (ClientOperation.parse line).value)) ∧
    ((ClientOperation.parse line).type = .get →
      ServerMessage.toMessage (ClientGet.toString (ClientOperation.parse line).key ++ [escape]) =
      .ok (.get (ClientOperation.parse line).key)) := by
  constructor
  · intro hput
    obtain ⟨⟨hkey, hquote⟩, hvalue, -⟩ := ClientOperation.isDot_of_put hput
    exact toMessage_clientPut (keyable_of_not_mem hquote hkey) hvalue
  · intro hget
    exact toMessage_clientGet (ClientOperation.isDot_of_get hget)

/-! ## Answers -/

/-- An answer goes to its decoder. -/
theorem toMessage_eq_valueToMessage {s body : Text} (hs : s = "VALUE".toList ++ ';' :: ' ' :: body)
    (hhead : ∀ c ∈ body.head?, ¬ Text.isSpace c) (hbody : ∀ c ∈ body, isDot c) :
    Message.toMessage (s ++ [escape]) = Message.Value.toMessage s := by
  have hsplit : regexMatch (s ++ [escape]) split = some ["VALUE".toList, body ++ [escape]] := by
    rw [hs]
    exact regexMatch_split (by simp) hhead hbody
  simp only [Message.toMessage, hsplit]
  rw [List.dropLast_concat]
  rfl

theorem toMessage_value_none :
    Message.toMessage ((Message.value none).toString ++ [escape]) = .ok (.value none) := by
  decide +kernel

/-- The quotes around a value are taken for a part of it. -/
theorem toMessage_value_some (hvalue : ∀ c ∈ value, isDot c) :
    Message.toMessage ((Message.value (some value)).toString ++ [escape]) =
      .ok (.value (some ('"' :: value ++ ['"']))) := by
  have hs : (Message.value (some value)).toString =
      "VALUE".toList ++ ';' :: ' ' :: ('"' :: value ++ ['"']) := by
    unfold Message.toString Message.Value.toString
    simp
  have hdot : ∀ c ∈ '"' :: value ++ ['"'], isDot c := by
    simp only [List.forall_mem_append, List.forall_mem_cons]
    exact ⟨⟨rfl, hvalue⟩, rfl, nofun⟩
  have hhead : ∀ c ∈ ('"' :: value ++ ['"']).head?, ¬ Text.isSpace c := by simp [Text.isSpace]
  have hmatch : regexMatch (Message.value (some value)).toString Regex.value =
      some ['"' :: value ++ ['"']] :=
    hs ▸ regexMatch_of_exec (by simp) (by simp) hhead (exec_trimmed hdot rfl)
  have hnull : '"' :: value ++ ['"'] ≠ "null".toList := by simp
  rw [toMessage_eq_valueToMessage hs hhead hdot]
  simp only [Message.Value.toMessage, hmatch, if_neg hnull]

/-- The client reads back that there is no value, and no value as it was sent. -/
theorem toMessage_value_iff {value : Option Text} (h : ∀ v ∈ value, ∀ c ∈ v, isDot c) :
    Message.toMessage ((Message.value value).toString ++ [escape]) = .ok (.value value) ↔
      value = none := by
  cases value with
  | none => exact iff_of_true toMessage_value_none rfl
  | some v =>
    refine iff_of_false (fun heq => ?_) nofun
    rw [toMessage_value_some (h v rfl)] at heq
    have hlength := congrArg List.length
      (Option.some.inj (Message.value.inj (Except.ok.inj heq)))
    simp only [List.length_append, List.length_cons, List.length_nil] at hlength
    omega

theorem toMessage_value_iff_none :
    Message.toMessage ((Message.value none).toString ++ [escape]) = .ok (.value none) ∧
      Message.toMessage ((Message.value (some "v".toList)).toString ++ [escape]) ≠
        .ok (.value (some "v".toList)) := by
  refine ⟨(@toMessage_value_iff none nofun).mpr rfl, fun heq => ?_⟩
  have hdots : ∀ v ∈ some "v".toList, ∀ c ∈ v, isDot c := by
    rintro v ⟨⟩
    exact List.all_eq_true.mp (by decide)
  exact Option.some_ne_none _ ((toMessage_value_iff hdots).mp heq)

theorem toMessage_value_quoted :
    Message.toMessage ((Message.value (some "v".toList)).toString ++ [escape]) =
      .ok (.value (some "\"v\"".toList)) ∧ "\"v\"".toList ≠ "v".toList := by
  refine ⟨?_, ?_⟩ <;> decide +kernel

end LeaderlessDatastore
