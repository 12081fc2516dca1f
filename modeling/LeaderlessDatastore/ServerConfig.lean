import LeaderlessDatastore.TokenStream

/-!
# `ServerConfig`

The loops of the reader test the last token, not the state of the stream, so each of them is
given here a number of iterations.
-/

namespace LeaderlessDatastore

/-- `port` has no initial value in the class. -/
structure ServerConfig where
  port : Option ℤ := none
  readQuorum : ℤ := 0
  replicas : List Text := []
  replicaId : ℤ := 0
  writeQuorum : ℤ := 0

namespace ServerConfig

def dash : Text := "-".toList
def configHeader : Text := "config:".toList
def serversHeader : Text := "servers:".toList
def readEntry : Text := "read_quorum:".toList
def writeEntry : Text := "write_quorum:".toList
def incomplete : Text := "Config file is incomplete.".toList

def getReplicasAmount (config : ServerConfig) : ℤ := config.replicas.length

def loop : ℕ → TokenStream → Text → Outcome (TokenStream × Text)
  | 0, _, _ => .running
  | fuel + 1, file, tmp =>
    let (file, tmp) := file.extract tmp
    if tmp ≠ configHeader ∧ tmp ≠ serversHeader ∧ !file.eof then loop fuel file tmp
    else .value (file, tmp)

/-- The inner loop of `processConfig`; the flag says that the function returns from it. -/
def nextEntry : ℕ → TokenStream → Text → Outcome (Bool × TokenStream × Text)
  | 0, _, _ => .running
  | fuel + 1, file, tmp =>
    let (file, tmp) := file.extract tmp
    -- the list ends here
    if tmp ≠ dash then .value (true, file, tmp)
    else
      let (file, tmp) := file.extract tmp
      if tmp ≠ readEntry ∧ tmp ≠ writeEntry ∧ !file.eof then nextEntry fuel file tmp
      else .value (false, file, tmp)

/-- The `for` loop of `processConfig`, with the number of rounds left. -/
def processConfigFrom (fuel : ℕ) : ℕ → ServerConfig → TokenStream → Text →
    Outcome (ServerConfig × TokenStream)
  | 0, config, file, _ => .value (config, file)
  | rounds + 1, config, file, tmp => do
    let (returned, file, tmp) ← nextEntry fuel file tmp
    if returned then pure (config, file)
    else if file.eof then .throw incomplete
    else if tmp = readEntry then
      let (file, tmp) := file.extract tmp
      match Text.stoi tmp with
      | .ok n => processConfigFrom fuel rounds { config with readQuorum := n } file tmp
      | .error _ => processConfigFrom fuel rounds { config with readQuorum := 0 } file tmp
    else if tmp = writeEntry then
      let (file, tmp) := file.extract tmp
      match Text.stoi tmp with
      | .ok n => processConfigFrom fuel rounds { config with writeQuorum := n } file tmp
      -- the handler resets the other quorum
      | .error _ => processConfigFrom fuel rounds { config with readQuorum := 0 } file tmp
    else processConfigFrom fuel rounds config file tmp

def processConfig (fuel : ℕ) (config : ServerConfig) (file : TokenStream) :
    Outcome (ServerConfig × TokenStream) :=
  processConfigFrom fuel 2 config file []

/-- `tmp.substr(tmp.find(':') + 1, tmp.length())` -/
def afterColon (tmp : Text) : Text :=
  match tmp.dropWhile (· ≠ ':') with
  | [] => tmp
  | _ :: rest => rest

/-- The entry of the replica itself sets the port, every other one is an address. -/
def addServer (replicaId index : ℤ) (config : ServerConfig) (tmp : Text) :
    Outcome ServerConfig :=
  if index ≠ replicaId then .value { config with replicas := config.replicas ++ [tmp] }
  else match Text.stoi (afterColon tmp) with
    | .ok port => .value { config with port := some port }
    | .error _ => .throw "stoi".toList

def processServersFrom (replicaId : ℤ) : ℕ → ServerConfig → TokenStream → Text → ℤ →
    Outcome (ServerConfig × TokenStream)
  | 0, _, _, _, _ => .running
  | fuel + 1, config, file, tmp, index =>
    if tmp = dash then
      let (file, tmp) := file.extract tmp
      (addServer replicaId index config tmp).bind fun config =>
        let (file, tmp) := file.extract tmp
        processServersFrom replicaId fuel config file tmp (index + 1)
    else .value (config, file)

def processServers (fuel : ℕ) (config : ServerConfig) (file : TokenStream) (replicaId : ℤ) :
    Outcome (ServerConfig × TokenStream) :=
  let (file, tmp) := file.extract []
  processServersFrom replicaId fuel config file tmp 0

/-- One round of `initialize`: look for a header and read the section below it. -/
def processSection (fuel : ℕ) (config : ServerConfig) (file : TokenStream) (replicaId : ℤ) :
    Outcome (ServerConfig × TokenStream) := do
  let (file, tmp) ← loop fuel file []
  if file.eof then .throw incomplete
  else if tmp = configHeader then processConfig fuel config file
  else if tmp = serversHeader then processServers fuel config file replicaId
  else pure (config, file)

/-- The write quorum that `initialize` settles on, for `size` other replicas. -/
def normaliseWriteQuorum (writeQuorum size : ℤ) : ℤ :=
  if writeQuorum ≤ (size + 1) / 2 then (size + 1) / 2 + 1
  else if writeQuorum > size + 1 then size + 1
  else writeQuorum

/-- The read quorum that `initialize` settles on once the write quorum is normalised. -/
def normaliseReadQuorum (readQuorum writeQuorum size : ℤ) : ℤ :=
  if readQuorum ≤ size + 1 - writeQuorum then size - writeQuorum + 2
  else if readQuorum > size + 1 then size + 1
  else readQuorum

/-- The checks and the repair of the quorums after both sections have been read. -/
def validate (config : ServerConfig) (replicaId : ℤ) : Outcome ServerConfig :=
  if config.replicas.length = 0 then
    .throw "No replica was specified in the config file.".toList
  else if replicaId < 0 ∨ replicaId > config.replicas.length + 1 then
    .throw "There is no replica for the specified number.".toList
  else
    let writeQuorum := normaliseWriteQuorum config.writeQuorum config.replicas.length
    -- with the write quorum already repaired
    let readQuorum := normaliseReadQuorum config.readQuorum writeQuorum config.replicas.length
    .value { config with writeQuorum := writeQuorum, readQuorum := readQuorum }

/-- `ServerConfig::initialize` -/
def initialise (fuel : ℕ) (file : TokenStream) (replicaId : ℤ) : Outcome ServerConfig :=
  (processSection fuel { replicaId := replicaId } file replicaId).bind fun (config, file) =>
    (processSection fuel config file replicaId).bind fun (config, _) =>
      validate config replicaId

theorem validate_eq_value {config config' : ServerConfig} {replicaId : ℤ}
    (h : validate config replicaId = .value config') :
    config'.replicas = config.replicas ∧ config'.replicaId = config.replicaId := by
  unfold validate at h
  split_ifs at h
  cases h
  exact ⟨rfl, rfl⟩

/-! ## The normalised quorums -/

/-- What `initialize` guarantees about the quorums of a cluster of `N` replicas. -/
structure QuorumsOk (N readQuorum writeQuorum : ℤ) : Prop where
  read_pos : 1 ≤ readQuorum
  read_le : readQuorum ≤ N
  write_le : writeQuorum ≤ N
  majority : N < 2 * writeQuorum
  overlap : N < readQuorum + writeQuorum

theorem normalise_ok (readQuorum writeQuorum : ℤ) {size : ℤ} (hsize : 0 ≤ size) :
    QuorumsOk (size + 1)
      (normaliseReadQuorum readQuorum (normaliseWriteQuorum writeQuorum size) size)
      (normaliseWriteQuorum writeQuorum size) := by
  have hwrite : size + 1 < 2 * normaliseWriteQuorum writeQuorum size ∧
      normaliseWriteQuorum writeQuorum size ≤ size + 1 := by
    unfold normaliseWriteQuorum
    split_ifs <;> omega
  generalize normaliseWriteQuorum writeQuorum size = w at hwrite
  have hread : 1 ≤ normaliseReadQuorum readQuorum w size ∧
      normaliseReadQuorum readQuorum w size ≤ size + 1 ∧
      size + 1 < normaliseReadQuorum readQuorum w size + w := by
    unfold normaliseReadQuorum
    split_ifs <;> omega
  exact ⟨hread.1, hread.2.1, hwrite.2, hwrite.1, hread.2.2⟩

/-! ## The servers section -/

/-- The listed servers from position `index` on, without the one at `replicaId`. -/
def others (replicaId : ℤ) : ℤ → List Text → List Text
  | _, [] => []
  | index, server :: rest =>
    if index ≠ replicaId then server :: others replicaId (index + 1) rest
    else others replicaId (index + 1) rest

theorem others_of_lt {replicaId index : ℤ} (h : replicaId < index) (servers : List Text) :
    others replicaId index servers = servers := by
  induction servers generalizing index with
  | nil => rfl
  | cons server rest ih => rw [others, if_pos (by omega), ih (by omega)]

theorem others_eq_eraseIdx {replicaId index : ℤ} (h : index ≤ replicaId) (servers : List Text) :
    others replicaId index servers = servers.eraseIdx (replicaId - index).toNat := by
  induction servers generalizing index with
  | nil => rfl
  | cons server rest ih =>
    by_cases he : index = replicaId
    · subst he
      simp [others, others_of_lt]
    · obtain ⟨k, hk⟩ : ∃ k : ℕ, (replicaId - index).toNat = k + 1 :=
        ⟨(replicaId - index).toNat - 1, by omega⟩
      rw [others, if_pos he, ih (by omega), hk, List.eraseIdx_cons_succ]
      congr 2
      omega

/-- The tokens of a servers section. -/
def serverTokens (servers : List Text) : List Text := servers.flatMap fun s => [dash, s]

/-- At the end of the file a last token `-` keeps the loop going for ever. -/
theorem processServersFrom_at_end (replicaId : ℤ) (fuel : ℕ) {config : ServerConfig}
    {file : TokenStream} {index : ℤ} (hfile : file.tokens = []) {result}
    (h : processServersFrom replicaId fuel config file dash index = .value result) : False := by
  induction fuel generalizing config file index with
  | zero => simp [processServersFrom] at h
  | succ fuel ih =>
    simp only [processServersFrom, TokenStream.extract, hfile, ↓reduceIte] at h
    obtain ⟨config', -, h⟩ := Outcome.bind_eq_value.mp h
    exact ih rfl h

end ServerConfig
end LeaderlessDatastore
