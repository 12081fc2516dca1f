import LeaderlessDatastore.Entries

/-!
# Files of two sections

What `ServerConfig::initialize` makes of a file with the config section in front of the servers
section, of one with the servers section in front, and of any file that has one servers section.
-/

namespace LeaderlessDatastore
namespace ServerConfig

open TokenStream

/-- The config section first, as in the shipped file. -/
def configFirst (entries servers : List Text) (trailingBlank : Bool) : TokenStream where
  tokens := configHeader :: (entries ++ serversHeader :: serverTokens servers)
  trailingBlank := trailingBlank

def serversFirst (entries servers : List Text) (trailingBlank : Bool) : TokenStream where
  tokens := serversHeader :: (serverTokens servers ++ configHeader :: entries)
  trailingBlank := trailingBlank

theorem withQuorums_replicas (writeFirst : Bool) (r w : Text) (config : ServerConfig) :
    (config.withQuorums writeFirst r w).replicas = config.replicas := by
  obtain ⟨r', w', h⟩ := config.withQuorums_eq writeFirst r w
  rw [h]

section Sections

variable {fuel : ℕ} {file : TokenStream} {config : ServerConfig} {replicaId : ℤ}
  {servers : List Text} {trailingBlank : Bool}

theorem processServers_at_end (hservers : ∀ server ∈ servers, server ≠ dash)
    (hfuel : servers.length < fuel) :
    processServers fuel config (behind (serverTokens servers) trailingBlank) replicaId =
      (addServers replicaId 0 config servers).bind fun config =>
        .value (config, ⟨[], trailingBlank, true⟩) := by
  obtain ⟨k, rfl⟩ : ∃ k, fuel = k + 1 + servers.length := ⟨fuel - 1 - servers.length, by omega⟩
  have hlast : servers.getLastD [] ≠ dash := by
    rcases servers.eq_nil_or_concat with rfl | ⟨_, last, rfl⟩
    · decide
    · simpa using hservers last (by simp)
  apply (enter_all_servers servers trailingBlank [] 0).trans
  simp only [enter_end hlast]

theorem processServers_at_stop {stop : Text} (hstop : stop ≠ dash) (rest : List Text)
    (hfuel : servers.length < fuel) :
    processServers fuel config (behind (serverTokens servers ++ stop :: rest) trailingBlank)
        replicaId =
      (addServers replicaId 0 config servers).bind fun config =>
        .value (config, behind rest trailingBlank) := by
  obtain ⟨k, rfl⟩ : ∃ k, fuel = k + 1 + servers.length := ⟨fuel - 1 - servers.length, by omega⟩
  apply (enter_servers servers (stop :: rest) trailingBlank [] 0).trans
  simp only [enter_stop hstop]

/-- The second search finds the header of the servers, unless it is the end of the file. -/
theorem initialise_configFirst_eq {writeFirst : Bool} {r w : Text}
    (hfuel : (configFirst (quorumEntries writeFirst [] [] r w) servers trailingBlank).tokens.length
      ≤ fuel) :
    initialise fuel (configFirst (quorumEntries writeFirst [] [] r w) servers trailingBlank)
        replicaId =
      if servers = [] ∧ trailingBlank = false then .throw incomplete
      else (processServers fuel (withQuorums writeFirst r w { replicaId := replicaId })
        (behind (serverTokens servers) trailingBlank) replicaId).bind
          fun (config, _) => validate config replicaId := by
  have hne : serversHeader ≠ configHeader := by decide
  have hlength : (quorumEntries writeFirst [] [] r w).length +
      (serversHeader :: serverTokens servers).length < fuel := by
    simpa [configFirst] using hfuel
  have hfirst : processSection fuel { replicaId := replicaId }
      (configFirst (quorumEntries writeFirst [] [] r w) servers trailingBlank) replicaId =
      .value (withQuorums writeFirst r w { replicaId := replicaId },
        behind (serversHeader :: serverTokens servers) trailingBlank) := by
    rw [processSection_of_some (by simp [Sound, configFirst])
        (seek_cons_self (by decide) _) hfuel,
      if_neg (by simp [behind]), if_pos rfl,
      processConfig_quorumEntries (by simp) (sound_behind _ _) rfl]
    · rfl
    · simp only [tokens_behind, List.length_append]
      exact hlength.le
  have hsecond : ∀ config, processSection fuel config
      (behind (serversHeader :: serverTokens servers) trailingBlank) replicaId =
      if servers = [] ∧ trailingBlank = false then .throw incomplete
      else processServers fuel config (behind (serverTokens servers) trailingBlank)
        replicaId := by
    intro config
    rw [processSection_of_some (sound_behind _ _) (seek_cons_self (by decide) _)
        (by simp only [tokens_behind]; omega), if_neg hne]
    cases servers <;> simp [behind, serverTokens]
  rw [initialise, hfirst]
  simp only [Outcome.bind, hsecond]
  split_ifs <;> rfl

theorem initialise_configFirst {writeFirst : Bool} {r w : Text}
    (hservers : ∀ server ∈ servers, server ≠ dash)
    (hfuel : (configFirst (quorumEntries writeFirst [] [] r w) servers trailingBlank).tokens.length
      ≤ fuel) :
    initialise fuel (configFirst (quorumEntries writeFirst [] [] r w) servers trailingBlank)
        replicaId =
      if servers = [] ∧ trailingBlank = false then .throw incomplete
      else (addServers replicaId 0 (withQuorums writeFirst r w { replicaId := replicaId })
        servers).bind fun config => validate config replicaId := by
  have hlength : servers.length < fuel := by
    refine lt_of_lt_of_le ?_ hfuel
    simp only [configFirst, List.length_cons, List.length_append, length_serverTokens]
    omega
  rw [initialise_configFirst_eq hfuel, processServers_at_end hservers hlength]
  cases addServers replicaId 0 (withQuorums writeFirst r w { replicaId := replicaId }) servers <;>
    rfl

/-- The header behind the servers is the token that ends their section, so the second search
does not find it. -/
theorem initialise_serversFirst {entries : List Text}
    (hentries : ∀ token ∈ entries, isHeader token = false) (hport : PortRead replicaId servers)
    (hfuel : (serversFirst entries servers trailingBlank).tokens.length ≤ fuel) :
    initialise fuel (serversFirst entries servers trailingBlank) replicaId =
      .throw incomplete := by
  have hne : serversHeader ≠ configHeader := by decide
  have hlength : servers.length + entries.length < fuel := by
    simp only [serversFirst, List.length_cons, List.length_append, length_serverTokens] at hfuel
    omega
  obtain ⟨config, hconfig⟩ : ∃ config,
      addServers replicaId 0 { replicaId := replicaId } servers = .value config := by
    rcases addServers_cases replicaId { replicaId := replicaId } servers with
      ⟨-, hvalue⟩ | ⟨hnot, -⟩
    · exact hvalue
    · exact absurd hport hnot
  have hfirst : processSection fuel { replicaId := replicaId }
      (serversFirst entries servers trailingBlank) replicaId =
      .value (config, behind entries trailingBlank) := by
    rw [processSection_of_some (by simp [Sound, serversFirst]) (seek_cons_self (by decide) _) hfuel,
      if_neg (by simp [behind]), if_neg hne]
    change processServers fuel { replicaId := replicaId }
      (behind (serverTokens servers ++ configHeader :: entries) trailingBlank) replicaId = _
    rw [processServers_at_stop (by decide) entries (by omega), hconfig]
    rfl
  rw [initialise, hfirst]
  exact congrArg (Outcome.bind · _)
    (processSection_of_none (sound_behind _ _) (seek_eq_none hentries)
      (by simp only [tokens_behind]; omega))

/-! ## The accepted ids -/

theorem validate_eq_value_iff {read : ServerConfig} :
    validate read replicaId = .value config ↔
      (read.replicas ≠ [] ∧ 0 ≤ replicaId ∧ replicaId ≤ read.replicas.length + 1) ∧
        config = { read with
          writeQuorum := normaliseWriteQuorum read.writeQuorum read.replicas.length,
          readQuorum := normaliseReadQuorum read.readQuorum
            (normaliseWriteQuorum read.writeQuorum read.replicas.length)
            read.replicas.length } := by
  unfold validate
  split_ifs with hnone hrange
  · simp [List.length_eq_zero_iff.mp hnone]
  · simp only [false_iff]
    omega
  · have hne : read.replicas ≠ [] := fun h => hnone (by simp [h])
    simp only [Outcome.value.injEq, eq_comm, iff_and_self]
    exact fun _ => ⟨hne, by omega⟩

theorem own_eq_some {server : Text} :
    own replicaId servers = some server ↔
      ∃ i : ℕ, replicaId = i ∧ servers[i]? = some server := by
  unfold own
  constructor
  · intro h
    split_ifs at h with hpos
    exact ⟨replicaId.toNat, (Int.toNat_of_nonneg hpos).symm, h⟩
  · rintro ⟨i, rfl, h⟩
    simpa using h

theorem own_eq_none :
    own replicaId servers = none ↔ replicaId < 0 ∨ (servers.length : ℤ) ≤ replicaId := by
  unfold own
  split_ifs with hpos
  · rw [List.getElem?_eq_none_iff]
    omega
  · simp only [true_iff]
    omega

/-- The replica is one of the listed servers: its port is the one of its own entry and the
others are its replicas. -/
def IsListed (servers : List Text) (replicaId : ℤ) (config : ServerConfig) : Prop :=
  ∃ (i : ℕ) (server : Text) (port : ℤ), replicaId = i ∧ servers[i]? = some server ∧
    Text.stoi (afterColon server) = .ok port ∧ config.port = some port ∧
    config.replicas = servers.eraseIdx i

theorem isListed_of_own {read : ServerConfig} {server : Text} (hread : read.replicas = [])
    (hown : own replicaId servers = some server)
    (h : (addServers replicaId 0 read servers).bind (validate · replicaId) = .value config) :
    IsListed servers replicaId config := by
  obtain ⟨i, rfl, hi⟩ := own_eq_some.mp hown
  rw [addServers_eq, sub_zero, hown, hread] at h
  cases hport : Text.stoi (afterColon server) with
  | error e => simp [hport, Outcome.bind] at h
  | ok port =>
    simp only [Option.map_some, hport, Outcome.bind, validate_eq_value_iff] at h
    obtain ⟨-, rfl⟩ := h
    exact ⟨i, server, port, rfl, hi, hport, rfl, by simp [others_eq_eraseIdx]⟩

/-- Without an entry of its own the replica takes every server for another one. -/
theorem accepted_of_not_own {read : ServerConfig} (hread : read.replicas = [])
    (hown : own replicaId servers = none) :
    (∃ config, (addServers replicaId 0 read servers).bind (validate · replicaId) =
        .value config) ↔
      servers ≠ [] ∧ (replicaId = servers.length ∨ replicaId = servers.length + 1) := by
  have hothers : 0 ≤ replicaId → others replicaId 0 servers = servers := by
    intro hpos
    rw [others_eq_eraseIdx hpos, List.eraseIdx_of_length_le]
    rcases own_eq_none.mp hown with h | h <;> omega
  rw [addServers_eq, sub_zero, hown, hread]
  simp only [Option.map_none, Outcome.bind, validate_eq_value_iff, List.nil_append,
    exists_and_left, exists_eq, and_true]
  constructor
  · rintro ⟨hne, hpos, hle⟩
    rw [hothers hpos] at hne hle
    rcases own_eq_none.mp hown with h | h
    · omega
    · exact ⟨hne, by omega⟩
  · rintro ⟨hne, hid⟩
    rw [hothers (by omega)]
    exact ⟨hne, by omega, by omega⟩

/-- In range and with a port, every id is accepted. -/
theorem accepted_of_own {read : ServerConfig} {i : ℕ} (hread : read.replicas = [])
    (hlength : 2 ≤ servers.length) (hi : i < servers.length) (hport : PortRead i servers) :
    ∃ config, (addServers i 0 read servers).bind (validate · i) = .value config := by
  have hown : own i servers = some servers[i] :=
    own_eq_some.mpr ⟨i, rfl, List.getElem?_eq_getElem hi⟩
  obtain ⟨port, hstoi⟩ := hport _ hown
  have hothers : (others i 0 servers).length = servers.length - 1 := by
    rw [others_eq_eraseIdx (by omega)]
    simpa using List.length_eraseIdx_of_lt hi
  have hne : others i 0 servers ≠ [] := List.ne_nil_of_length_pos (by omega)
  rw [addServers_eq, sub_zero, hown, hread]
  simp only [Option.map_some, hstoi, Outcome.bind, validate_eq_value_iff, List.nil_append,
    exists_and_left, exists_eq, and_true]
  exact ⟨hne, by omega, by omega⟩

theorem colon_ne_dash {server : Text} (h : ':' ∈ server) : server ≠ dash := by
  rintro rfl
  exact absurd h (by decide)

/-- Only listed replicas start, but for the two ids that follow the last one: the bound is taken
from a list from which nothing has been removed. -/
theorem isListed_iff (writeFirst : Bool) (r w : Text) (servers : List Text)
    (hservers : ∀ server ∈ servers, ':' ∈ server) (trailingBlank : Bool) (replicaId : ℤ) :
    (∀ fuel config, initialise fuel
        (configFirst (quorumEntries writeFirst [] [] r w) servers trailingBlank) replicaId =
          .value config → IsListed servers replicaId config) ↔
      ¬ (servers ≠ [] ∧ (replicaId = servers.length ∨ replicaId = servers.length + 1)) := by
  have hdash : ∀ server ∈ servers, server ≠ dash := fun server h =>
    colon_ne_dash (hservers server h)
  set file := configFirst (quorumEntries writeFirst [] [] r w) servers trailingBlank with hfile
  set read := withQuorums writeFirst r w { replicaId := replicaId } with hread'
  have hread : read.replicas = [] := withQuorums_replicas _ _ _ _
  constructor
  · rintro h ⟨hne, hid⟩
    have hown : own replicaId servers = none := own_eq_none.mpr (.inr (by omega))
    obtain ⟨config, hconfig⟩ := (accepted_of_not_own hread hown).mpr ⟨hne, hid⟩
    have hvalue : initialise file.tokens.length file replicaId = .value config := by
      rw [initialise_configFirst hdash le_rfl, if_neg (by simp [hne]), hconfig]
    obtain ⟨i, server, -, rfl, hi, -⟩ := h _ _ hvalue
    have := (List.getElem?_eq_some_iff.mp hi).1
    omega
  · intro hid fuel config h
    -- with enough iterations the outcome is the same
    have hmore : initialise (max fuel file.tokens.length) file replicaId = .value config := by
      rw [← h]
      exact (Outcome.eq_of_le (initialise_monotone file replicaId (le_max_left _ _))
        (by simp [h])).symm
    rw [initialise_configFirst hdash (le_max_right _ _)] at hmore
    split_ifs at hmore
    cases hown : own replicaId servers with
    | none => exact absurd ((accepted_of_not_own hread hown).mp ⟨config, hmore⟩) hid
    | some server => exact isListed_of_own hread hown hmore

/-- Two servers, read by the second one. -/
theorem isListed_iff_second : ∃ config, initialise 12
    (configFirst (quorumEntries false [] [] "2".toList "2".toList) ["a:1".toList, "b:2".toList]
      true) 1 = .value config ∧ IsListed ["a:1".toList, "b:2".toList] 1 config :=
  ⟨_, rfl, (isListed_iff false "2".toList "2".toList ["a:1".toList, "b:2".toList] (by decide)
    true 1).mpr (by decide) 12 _ rfl⟩

/-- Of two servers the id `2` is accepted, without a port and in a cluster of three. -/
theorem third_of_two_starts : ∃ config, initialise 12
    (configFirst (quorumEntries false [] [] "2".toList "2".toList) ["a:1".toList, "b:2".toList]
      true) 2 = .value config ∧ config.port = none ∧
    config.replicas = ["a:1".toList, "b:2".toList] ∧
    ¬ IsListed ["a:1".toList, "b:2".toList] 2 config := by
  refine ⟨_, rfl, rfl, rfl, ?_⟩
  rintro ⟨i, server, port, hid, hserver, -⟩
  obtain rfl : i = 2 := by omega
  simp at hserver

/-! ## The order of the sections -/

/-- The same replicas, port and quorums. -/
def SameSettings (config config' : ServerConfig) : Prop :=
  config.replicas = config'.replicas ∧ config.port = config'.port ∧
    config.readQuorum = config'.readQuorum ∧ config.writeQuorum = config'.writeQuorum

/-- The file with the config section first is read, the one with the servers section first never
is. -/
theorem section_order_matters (writeFirst : Bool) {r w : Text} (hr : isHeader r = false)
    (hw : isHeader w = false) {servers : List Text} (hlength : 2 ≤ servers.length)
    (hservers : ∀ server ∈ servers, server ≠ dash ∧ isHeader server = false ∧ ':' ∈ server ∧
      ∃ port, Text.stoi (afterColon server) = .ok port)
    {i : ℕ} (hi : i < servers.length) (trailingBlank trailingBlank' : Bool) :
    (∃ fuel config, initialise fuel
      (configFirst (quorumEntries writeFirst [] [] r w) servers trailingBlank) i =
        .value config) ∧
    (∃ fuel, initialise fuel
      (serversFirst (quorumEntries writeFirst [] [] r w) servers trailingBlank') i =
        .throw incomplete) ∧
    ¬ ∃ fuel fuel' config config',
      initialise fuel (configFirst (quorumEntries writeFirst [] [] r w) servers trailingBlank) i =
        .value config ∧
      initialise fuel'
        (serversFirst (quorumEntries writeFirst [] [] r w) servers trailingBlank') i =
          .value config' ∧
      SameSettings config config' := by
  have hport : PortRead i servers := by
    intro server hown
    obtain ⟨j, -, hj⟩ := own_eq_some.mp hown
    exact (hservers server (List.mem_of_getElem? hj)).2.2.2
  have hentries : ∀ token ∈ quorumEntries writeFirst [] [] r w, isHeader token = false := by
    have hnames : isHeader dash = false ∧ isHeader readEntry = false ∧
        isHeader writeEntry = false := by decide
    cases writeFirst <;> simp [quorumEntries, nameTokens, hr, hw, hnames]
  have hne : ¬ (servers = [] ∧ trailingBlank = false) := by
    rintro ⟨rfl, -⟩
    simp at hlength
  have hthrows : initialise
      (serversFirst (quorumEntries writeFirst [] [] r w) servers trailingBlank').tokens.length
      (serversFirst (quorumEntries writeFirst [] [] r w) servers trailingBlank') i =
        .throw incomplete := initialise_serversFirst hentries hport le_rfl
  refine ⟨⟨(configFirst (quorumEntries writeFirst [] [] r w) servers trailingBlank).tokens.length,
    ?_⟩, ⟨_, hthrows⟩, ?_⟩
  · rw [initialise_configFirst (fun server h => (hservers server h).1) le_rfl, if_neg hne]
    exact accepted_of_own (withQuorums_replicas _ _ _ _) hlength hi hport
  · rintro ⟨fuel, fuel', config, config', -, hvalue, -⟩
    have hsame := Outcome.eq_of_monotone (initialise_monotone _ i) hvalue (by simp) hthrows
      (by simp)
    simp at hsame

theorem section_order_matters_two : ¬ ∃ fuel fuel' config config',
    initialise fuel (configFirst (quorumEntries false [] [] "2".toList "2".toList)
      ["a:1".toList, "b:2".toList] true) 0 = .value config ∧
    initialise fuel' (serversFirst (quorumEntries false [] [] "2".toList "2".toList)
      ["a:1".toList, "b:2".toList] true) 0 = .value config' ∧
    SameSettings config config' := by
  have hservers : ∀ server ∈ ["a:1".toList, "b:2".toList], server ≠ dash ∧
      isHeader server = false ∧ ':' ∈ server ∧
      ∃ port, Text.stoi (afterColon server) = .ok port := by
    simp only [List.forall_mem_cons, List.not_mem_nil, false_implies, implies_true, and_true]
    exact ⟨⟨by decide, by decide, by decide, 1, by decide⟩,
      ⟨by decide, by decide, by decide, 2, by decide⟩⟩
  exact (section_order_matters false (by decide) (by decide) (by decide) hservers
    (show 0 < 2 by decide) true true).2.2

/-- The shipped layout and the one with its sections swapped. -/
theorem swapped_sections_incomplete :
    (∃ config, initialise 12 (configFirst (quorumEntries false [] [] "2".toList "2".toList)
      ["a:1".toList, "b:2".toList] true) 0 = .value config) ∧
    initialise 12 (serversFirst (quorumEntries false [] [] "2".toList "2".toList)
      ["a:1".toList, "b:2".toList] true) 0 = .throw incomplete :=
  ⟨⟨_, rfl⟩, rfl⟩

/-! ## Any layout -/

/-- The tokens have one servers section, which lists `servers`. -/
def Lists (servers tokens : List Text) : Prop :=
  ∃ tail, serversHeader :: (serverTokens servers ++ tail) <:+ tokens ∧
    tokens.count serversHeader = 1 ∧ tail.head? ≠ some dash

theorem processSection_eq_value {config' : ServerConfig} {file' : TokenStream} (hs : file.Sound)
    (hfuel : file.tokens.length < fuel)
    (h : processSection fuel config file replicaId = .value (config', file')) :
    ∃ header tokens, header :: tokens <:+ file.tokens ∧
      (processConfig fuel config (behind tokens file.trailingBlank) = .value (config', file') ∨
        header = serversHeader ∧
          processServers fuel config (behind tokens file.trailingBlank) replicaId =
            .value (config', file')) := by
  cases hseek : seek isHeader file.tokens with
  | none =>
    rw [processSection_of_none hs hseek hfuel] at h
    cases h
  | some found =>
    obtain ⟨header, tokens⟩ := found
    refine ⟨header, tokens, suffix_of_seek hseek, ?_⟩
    have hheader : header = configHeader ∨ header = serversHeader := by
      simpa [isHeader] using stop_of_seek hseek
    rw [processSection_of_some hs hseek hfuel.le] at h
    split_ifs at h with heof hconfig
    · exact .inl h
    · exact .inr ⟨hheader.resolve_left hconfig, h⟩

/-- A round that ends either has added the servers, and their section is gone, or has added
none. -/
theorem Lists.processSection {tokens : List Text} (hlists : Lists servers tokens)
    (hsuffix : file.tokens <:+ tokens) {config' : ServerConfig} {file' : TokenStream}
    (hs : file.Sound) (hfuel : file.tokens.length < fuel)
    (h : ServerConfig.processSection fuel config file replicaId = .value (config', file')) :
    file'.Sound ∧ file'.tokens <:+ file.tokens ∧
      (config'.replicas = config.replicas ∧ config'.replicaId = config.replicaId ∨
        addServers replicaId 0 config servers = .value config' ∧
          serversHeader ∈ file.tokens ∧ serversHeader ∉ file'.tokens) := by
  obtain ⟨header, rest, hrest, hconfig | ⟨rfl, hservers⟩⟩ := processSection_eq_value hs hfuel h
  · have hlength : rest.length < fuel := (Nat.lt_of_succ_le hrest.length_le).trans hfuel
    obtain ⟨hreplicas, hid, hs', htokens⟩ :=
      processConfig_eq_value (sound_behind _ _) (by simpa using hlength) hconfig
    have hbehind := (List.suffix_cons header rest).trans hrest
    exact ⟨hs', (by simpa using htokens : _ <:+ rest).trans hbehind, .inl ⟨hreplicas, hid⟩⟩
  · obtain ⟨tail, hlisted, hcount, htail⟩ := hlists
    obtain rfl := eq_of_cons_suffix hcount.le (hrest.trans hsuffix) hlisted
    obtain ⟨hadd, hs', htokens⟩ := processServers_eq_value htail hservers
    have hbehind := htokens.trans (List.suffix_append (serverTokens servers) tail)
    have hgone : serversHeader ∉ serverTokens servers ++ tail := by
      have hle := hlisted.sublist.count_le serversHeader
      rw [hcount, List.count_cons_self] at hle
      exact List.count_eq_zero.mp (by omega)
    exact ⟨hs', hbehind.trans ((List.suffix_cons _ _).trans hrest),
      .inr ⟨hadd, hrest.subset List.mem_cons_self, fun hmem => hgone (hbehind.subset hmem)⟩⟩

/-- Whatever else is in an accepted file, and wherever: the replicas are the other servers. -/
theorem initialise_lists (hlists : Lists servers file.tokens) (hs : file.Sound)
    (h : initialise fuel file replicaId = .value config) :
    config.replicaId = replicaId ∧ config.replicas = others replicaId 0 servers := by
  have hmore : initialise (max fuel (file.tokens.length + 1)) file replicaId = .value config := by
    rw [← h]
    exact (Outcome.eq_of_le (initialise_monotone _ _ (le_max_left _ _)) (by simp [h])).symm
  have hfuel : file.tokens.length < max fuel (file.tokens.length + 1) := by omega
  obtain ⟨⟨config₁, file₁⟩, h₁, hmore⟩ := Outcome.bind_eq_value.mp hmore
  obtain ⟨⟨config₂, file₂⟩, h₂, hvalidate⟩ := Outcome.bind_eq_value.mp hmore
  obtain ⟨hs₁, hsuffix, hfirst⟩ := hlists.processSection List.suffix_rfl hs hfuel h₁
  obtain ⟨-, -, hsecond⟩ :=
    hlists.processSection hsuffix hs₁ (hsuffix.length_le.trans_lt hfuel) h₂
  obtain ⟨hreplicas, hid⟩ := validate_eq_value hvalidate
  rw [hreplicas, hid]
  rcases hfirst with ⟨hr₁, hid₁⟩ | ⟨hadd, -, hgone⟩
  · rcases hsecond with ⟨hr₂, -⟩ | ⟨hadd, -⟩
    · exact absurd (hr₂.trans hr₁) (validate_eq_value_iff.mp hvalidate).1.1
    · obtain ⟨hr₂, hid₂⟩ := addServers_replicas hadd
      rw [hr₂, hid₂, hr₁, hid₁]
      exact ⟨rfl, rfl⟩
  · rcases hsecond with ⟨hr₂, hid₂⟩ | ⟨-, hmem, -⟩
    · obtain ⟨hr₁, hid₁⟩ := addServers_replicas hadd
      rw [hr₂, hid₂, hr₁, hid₁]
      exact ⟨rfl, rfl⟩
    · exact absurd hmem hgone

end Sections

end ServerConfig
end LeaderlessDatastore
