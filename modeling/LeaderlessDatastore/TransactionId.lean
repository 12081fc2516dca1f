import LeaderlessDatastore.Sections

/-!
# Transaction ids

Every replica hands out ids from a counter of its own.  It starts at the replica
id and advances by `getReplicasAmount`, the number of *other* replicas, so the
first and the last replica of the list share all ids but one.
-/

namespace LeaderlessDatastore
namespace ServerConfig

/-- `Replica::getNewReplicaTS`: the id handed out and the next value of the counter. -/
def getNewReplicaTS (config : ServerConfig) (replicaTS : ℤ) : ℤ × ℤ :=
  (replicaTS, replicaTS + config.getReplicasAmount)

/-- The counter after a number of calls; the constructor of `Replica` sets it to the id. -/
def replicaTSAfter (config : ServerConfig) : ℕ → ℤ
  | 0 => config.replicaId
  | calls + 1 => (config.getNewReplicaTS (config.replicaTSAfter calls)).2

/-- The id that the call number `call` returns, counting from zero. -/
def transactionId (config : ServerConfig) (call : ℕ) : ℤ :=
  (config.getNewReplicaTS (config.replicaTSAfter call)).1

theorem replicaTSAfter_eq (config : ServerConfig) (calls : ℕ) :
    config.replicaTSAfter calls = config.replicaId + calls * config.getReplicasAmount := by
  induction calls with
  | zero => simp [replicaTSAfter]
  | succ calls ih =>
    rw [replicaTSAfter, getNewReplicaTS, ih]
    push_cast
    ring

theorem transactionId_eq (config : ServerConfig) (call : ℕ) :
    config.transactionId call = config.replicaId + call * config.getReplicasAmount :=
  config.replicaTSAfter_eq call

/-- The shipped layout of the file: the two quorums, then the list of all servers. -/
def shippedFile (read write : Text) (servers : List Text) (trailingBlank : Bool) : TokenStream where
  tokens := [configHeader, dash, readEntry, read, dash, writeEntry, write, serversHeader] ++
    serverTokens servers
  trailingBlank := trailingBlank

/-- Replica `replicaId` read its configuration from a file that lists `servers`. -/
def ConfiguredFrom (servers : List Text) (replicaId : ℕ) (config : ServerConfig) : Prop :=
  ∃ fuel file, Lists servers file.tokens ∧ file.eof = false ∧
    initialise fuel file replicaId = .value config

theorem ConfiguredFrom.replicas {servers : List Text} {replicaId : ℕ} {config : ServerConfig}
    (h : ConfiguredFrom servers replicaId config) :
    config.replicaId = replicaId ∧ config.replicas = servers.eraseIdx replicaId := by
  obtain ⟨fuel, file, hlists, heof, h⟩ := h
  obtain ⟨hid, hreplicas⟩ := initialise_lists hlists (by simp [TokenStream.Sound, heof]) h
  exact ⟨hid, by rw [hreplicas, others_eq_eraseIdx (by omega)]; rfl⟩

/-- On replica `i` of `N` the ids are `i`, `i + (N - 1)`, `i + 2 * (N - 1)` and so on. -/
theorem ConfiguredFrom.transactionId {servers : List Text} {i : ℕ} {config : ServerConfig}
    (hi : i < servers.length) (h : ConfiguredFrom servers i config) (call : ℕ) :
    config.transactionId call = i + call * ((servers.length : ℤ) - 1) := by
  obtain ⟨hid, hr⟩ := h.replicas
  have hlen : (servers.eraseIdx i).length = servers.length - 1 := List.length_eraseIdx_of_lt hi
  rw [transactionId_eq, getReplicasAmount, hid, hr, hlen]
  push_cast [show 1 ≤ servers.length by omega]
  ring

/-- Counters with stride `N - 1` and offsets below `N` meet only for the offsets `0` and `N - 1`. -/
theorem offset_stride_eq_iff {N i j : ℕ} (a b : ℕ) (hi : i < N) (hj : j < N) (hlt : i < j) :
    (i : ℤ) + a * ((N : ℤ) - 1) = j + b * ((N : ℤ) - 1) ↔ i = 0 ∧ j = N - 1 ∧ a = b + 1 := by
  obtain ⟨m, rfl⟩ : ∃ m, N = m + 2 := ⟨N - 2, by omega⟩
  push_cast
  constructor
  · intro h
    have hdiff : ((a : ℤ) - b) * (m + 1) = j - i := by linarith
    have hlow : (0 : ℤ) < (a - b) * (m + 1) := by omega
    have hpos : (0 : ℤ) < a - b := pos_of_mul_pos_left hlow (by omega)
    have hone : (a : ℤ) - b = 1 := by
      by_contra hne
      have : (2 : ℤ) * (m + 1) ≤ (a - b) * (m + 1) := by
        apply mul_le_mul_of_nonneg_right (by omega) (by omega)
      omega
    rw [hone] at hdiff
    omega
  · rintro ⟨rfl, rfl, rfl⟩
    push_cast
    ring

/-- Ids of two replicas `i < j` collide exactly between the first and the last listed replica,
where call `b + 1` of the one returns what call `b` of the other does; the ids of one replica
are all different. -/
theorem transactionId_unique_iff {servers : List Text} {i j : ℕ} {configI configJ : ServerConfig}
    (hlt : i < j) (hj : j < servers.length)
    (hI : ConfiguredFrom servers i configI) (hJ : ConfiguredFrom servers j configJ) :
    (∀ a b, configI.transactionId a ≠ configJ.transactionId b ↔
      ¬ (i = 0 ∧ j = servers.length - 1 ∧ a = b + 1)) ∧
    (∀ a b, a ≠ b → configI.transactionId a ≠ configI.transactionId b) ∧
    (∀ a b, a ≠ b → configJ.transactionId a ≠ configJ.transactionId b) := by
  have hinj : ∀ {k : ℕ} {config : ServerConfig}, k < servers.length →
      ConfiguredFrom servers k config →
      ∀ a b, a ≠ b → config.transactionId a ≠ config.transactionId b := by
    intro k config hk h a b hab he
    rw [h.transactionId hk, h.transactionId hk, add_right_inj] at he
    have hstride : (servers.length : ℤ) - 1 ≠ 0 := by omega
    exact hab (by exact_mod_cast mul_right_cancel₀ hstride he)
  refine ⟨fun a b => ?_, hinj (by omega) hI, hinj hj hJ⟩
  rw [hI.transactionId (by omega), hJ.transactionId hj, ne_eq,
    offset_stride_eq_iff a b (by omega) hj hlt]

/-- Two replicas on one host, as in the shipped configuration files. -/
def twoServers : List Text := ["localhost:50000".toList, "localhost:50001".toList]

def twoServersConfig (replicaId : ℕ) : ServerConfig where
  port := some (50000 + replicaId)
  readQuorum := 1
  replicas := twoServers.eraseIdx replicaId
  replicaId := replicaId
  writeQuorum := 2

/-- The second replica has the write quorum in front, and an entry that is not known. -/
theorem twoServers_configured :
    ConfiguredFrom twoServers 0 (twoServersConfig 0) ∧
      ConfiguredFrom twoServers 1 (twoServersConfig 1) :=
  ⟨⟨3, shippedFile "1".toList "2".toList twoServers true,
      ⟨[], ⟨configHeader :: quorumEntries false [] [] "1".toList "2".toList, rfl⟩,
        by decide, by decide⟩, rfl, by rfl⟩,
    ⟨4, configFirst (quorumEntries true ["log:".toList] [] "1".toList "2".toList) twoServers true,
      ⟨[], ⟨configHeader :: quorumEntries true ["log:".toList] [] "1".toList "2".toList, rfl⟩,
        by decide, by decide⟩, rfl, by rfl⟩⟩

theorem twoServers_unique_iff :
    (∀ a b, (twoServersConfig 0).transactionId a ≠ (twoServersConfig 1).transactionId b ↔
      ¬ (0 = 0 ∧ 1 = twoServers.length - 1 ∧ a = b + 1)) ∧
    (∀ a b, a ≠ b → (twoServersConfig 0).transactionId a ≠ (twoServersConfig 0).transactionId b) ∧
    (∀ a b, a ≠ b →
      (twoServersConfig 1).transactionId a ≠ (twoServersConfig 1).transactionId b) :=
  transactionId_unique_iff (by decide) (by decide) twoServers_configured.1 twoServers_configured.2

/-- The second id of replica 0 is the first id of replica 1. -/
theorem twoServers_collide : ∃ config₀ config₁, ConfiguredFrom twoServers 0 config₀ ∧
    ConfiguredFrom twoServers 1 config₁ ∧ config₀.transactionId 1 = 1 ∧
      config₁.transactionId 0 = 1 :=
  ⟨twoServersConfig 0, twoServersConfig 1, twoServers_configured.1, twoServers_configured.2,
    by rfl, by rfl⟩

end ServerConfig
end LeaderlessDatastore
