import LeaderlessDatastore.Reading

/-!
# `ClientConfig`

The reader of the client knows the servers section only.
-/

namespace LeaderlessDatastore

structure ClientConfig where
  servers : List Text := []

namespace ClientConfig

open ServerConfig (dash serversHeader incomplete serverTokens)
open TokenStream

/-- The `do` loop of `initialize`. -/
def loop : ℕ → TokenStream → Text → Outcome (TokenStream × Text)
  | 0, _, _ => .running
  | fuel + 1, file, tmp =>
    let (file, tmp) := file.extract tmp
    if tmp ≠ serversHeader ∧ !file.eof then loop fuel file tmp else .value (file, tmp)

/-- The `while` loop of `initialize`. -/
def serversFrom : ℕ → ClientConfig → TokenStream → Text → Outcome ClientConfig
  | 0, _, _, _ => .running
  | fuel + 1, config, file, tmp =>
    if tmp = dash then
      let (file, tmp) := file.extract tmp
      let config := { config with servers := config.servers ++ [tmp] }
      let (file, tmp) := file.extract tmp
      serversFrom fuel config file tmp
    else .value config

/-- `ClientConfig::initialize` -/
def initialise (fuel : ℕ) (file : TokenStream) : Outcome ClientConfig :=
  (loop fuel file []).bind fun (file, tmp) =>
    if file.eof then .throw incomplete
    else
      let (file, tmp) := file.extract tmp
      serversFrom fuel {} file tmp

def isServers (token : Text) : Bool := token = serversHeader

theorem loop_eq_scan (fuel : ℕ) (file : TokenStream) (tmp : Text) :
    loop fuel file tmp = file.scan isServers fuel tmp := by
  induction fuel generalizing file tmp with
  | zero => rfl
  | succ fuel ih =>
    simp only [loop, scan, ih]
    congr 1
    simp [isServers]

/-- The loop is the one of a server that has no entry of its own. -/
theorem serversFrom_eq (fuel : ℕ) (config : ServerConfig) (file : TokenStream) (tmp : Text)
    {index : ℤ} (hindex : 0 ≤ index) :
    serversFrom fuel ⟨config.replicas⟩ file tmp =
      (ServerConfig.processServersFrom (-1) fuel config file tmp index).bind
        fun (config, _) => .value ⟨config.replicas⟩ := by
  induction fuel generalizing config file tmp index with
  | zero => rfl
  | succ fuel ih =>
    simp only [serversFrom, ServerConfig.processServersFrom]
    split
    · have hother : index ≠ -1 := by omega
      simp only [ServerConfig.addServer, if_pos hother, Outcome.bind]
      exact ih { config with replicas := config.replicas ++ [(file.extract tmp).2] } _ _
        (by omega)
    · rfl

theorem initialise_eq (fuel : ℕ) (file : TokenStream) :
    initialise fuel file = (file.scan isServers fuel []).bind fun (file, tmp) =>
      if file.eof then .throw incomplete
      else (ServerConfig.enter (-1) fuel {} file tmp 0).bind
        fun (config, _) => .value ⟨config.replicas⟩ := by
  rw [initialise, loop_eq_scan]
  congr 1
  funext ⟨file, tmp⟩
  dsimp only
  split_ifs
  · rfl
  · exact serversFrom_eq fuel {} _ _ le_rfl

theorem initialise_monotone (file : TokenStream) : Monotone fun fuel => initialise fuel file := by
  intro fuel fuel' h
  simp only [initialise_eq]
  apply Outcome.bind_mono (scan_mono _ h file [])
  rintro ⟨file, tmp⟩
  dsimp only
  split_ifs
  · exact le_rfl
  · exact Outcome.bind_mono (ServerConfig.processServersFrom_mono h _ _ _ _ _) fun _ => le_rfl

end ClientConfig
end LeaderlessDatastore
