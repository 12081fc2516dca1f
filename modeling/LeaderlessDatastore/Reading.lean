import LeaderlessDatastore.ServerConfig

/-!
# Reading a configuration file

What each loop of the reader makes of the tokens that are left, once it is given
enough iterations.
-/

namespace LeaderlessDatastore
namespace ServerConfig

/-- Either section name. -/
def isHeader (token : Text) : Bool := token = configHeader || token = serversHeader

theorem loop_eq_scan (fuel : ℕ) (file : TokenStream) (tmp : Text) :
    loop fuel file tmp = file.scan isHeader fuel tmp := by
  induction fuel generalizing file tmp with
  | zero => rfl
  | succ fuel ih =>
    simp only [loop, TokenStream.scan, ih]
    congr 1
    simp [isHeader, and_assoc]

/-! ## More iterations -/

section Fuel

open Outcome

variable {fuel fuel' : ℕ}

theorem nextEntry_mono (h : fuel ≤ fuel') (file : TokenStream) (tmp : Text) :
    nextEntry fuel file tmp ≤ nextEntry fuel' file tmp := by
  induction fuel generalizing fuel' file tmp with
  | zero => exact running_le _
  | succ fuel ih =>
    obtain ⟨fuel', rfl⟩ : ∃ k, fuel' = k + 1 := ⟨fuel' - 1, by omega⟩
    simp only [nextEntry]
    split
    · exact le_rfl
    · split
      · exact ih (by omega) _ _
      · exact le_rfl

theorem processConfigFrom_mono (h : fuel ≤ fuel') (rounds : ℕ) (config : ServerConfig)
    (file : TokenStream) (tmp : Text) :
    processConfigFrom fuel rounds config file tmp ≤
      processConfigFrom fuel' rounds config file tmp := by
  induction rounds generalizing config file tmp with
  | zero => exact le_rfl
  | succ rounds ih =>
    apply bind_mono (nextEntry_mono h file tmp)
    rintro ⟨returned, file, tmp⟩
    dsimp only
    split_ifs
    · exact le_rfl
    · exact le_rfl
    · split <;> exact ih _ _ _
    · split <;> exact ih _ _ _
    · exact ih _ _ _

theorem processServersFrom_mono (h : fuel ≤ fuel') (replicaId : ℤ) (config : ServerConfig)
    (file : TokenStream) (tmp : Text) (index : ℤ) :
    processServersFrom replicaId fuel config file tmp index ≤
      processServersFrom replicaId fuel' config file tmp index := by
  induction fuel generalizing fuel' config file tmp index with
  | zero => exact running_le _
  | succ fuel ih =>
    obtain ⟨fuel', rfl⟩ : ∃ k, fuel' = k + 1 := ⟨fuel' - 1, by omega⟩
    simp only [processServersFrom]
    split
    · exact bind_mono le_rfl fun config => ih (by omega) _ _ _ _
    · exact le_rfl

theorem processSection_mono (h : fuel ≤ fuel') (config : ServerConfig) (file : TokenStream)
    (replicaId : ℤ) :
    processSection fuel config file replicaId ≤ processSection fuel' config file replicaId := by
  simp only [processSection, loop_eq_scan]
  apply bind_mono (TokenStream.scan_mono _ h file [])
  rintro ⟨file, tmp⟩
  dsimp only
  split_ifs
  · exact le_rfl
  · exact processConfigFrom_mono h _ _ _ _
  · exact processServersFrom_mono h _ _ _ _ _
  · exact le_rfl

/-- More iterations never change an outcome. -/
theorem initialise_monotone (file : TokenStream) (replicaId : ℤ) :
    Monotone fun fuel => initialise fuel file replicaId := by
  intro fuel fuel' h
  apply bind_mono (processSection_mono h _ _ _)
  rintro ⟨config, file⟩
  exact bind_mono (processSection_mono h _ _ _) fun _ => le_rfl

end Fuel

/-! ## The next section -/

section Sections

open TokenStream

variable {fuel : ℕ} {file : TokenStream} {config : ServerConfig} {replicaId : ℤ}

theorem processSection_of_none (hs : file.Sound) (h : seek isHeader file.tokens = none)
    (hfuel : file.tokens.length < fuel) :
    processSection fuel config file replicaId = .throw incomplete := by
  have hempty : isHeader [] = false := by decide
  obtain ⟨file', tmp', hscan, heof⟩ := scan_of_seek_none hs h hempty hfuel
  simp [processSection, loop_eq_scan, hscan, heof, Bind.bind, Outcome.bind]

theorem processSection_of_some {header : Text} {tokens : List Text} (hs : file.Sound)
    (h : seek isHeader file.tokens = some (header, tokens))
    (hfuel : file.tokens.length ≤ fuel) :
    processSection fuel config file replicaId =
      if (behind tokens file.trailingBlank).eof then .throw incomplete
      else if header = configHeader then
        processConfig fuel config (behind tokens file.trailingBlank)
      else processServers fuel config (behind tokens file.trailingBlank) replicaId := by
  have hheader : header = configHeader ∨ header = serversHeader := by
    simpa [isHeader] using stop_of_seek h
  simp only [processSection, loop_eq_scan, scan_of_seek_some hs h hfuel, Bind.bind, Outcome.bind]
  split_ifs with heof hconfig hservers
  · rfl
  · rfl
  · rfl
  · exact absurd hheader (by simp [hconfig, hservers])

/-! ## A servers section -/

/-- The loop of `processServers` in front of the extraction that precedes its test. -/
def enter (replicaId : ℤ) (fuel : ℕ) (config : ServerConfig) (file : TokenStream) (tmp : Text)
    (index : ℤ) : Outcome (ServerConfig × TokenStream) :=
  processServersFrom replicaId fuel config (file.extract tmp).1 (file.extract tmp).2 index

theorem enter_mono {fuel' : ℕ} (h : fuel ≤ fuel') (file : TokenStream) (tmp : Text) (index : ℤ) :
    enter replicaId fuel config file tmp index ≤ enter replicaId fuel' config file tmp index :=
  processServersFrom_mono h _ _ _ _ _

/-- The entries from position `index` on, one after the other. -/
def addServers (replicaId : ℤ) : ℤ → ServerConfig → List Text → Outcome ServerConfig
  | _, config, [] => .value config
  | index, config, server :: rest =>
    (addServer replicaId index config server).bind fun config =>
      addServers replicaId (index + 1) config rest

/-- The entry of the replica itself. -/
def own (replicaId : ℤ) (servers : List Text) : Option Text :=
  if 0 ≤ replicaId then servers[replicaId.toNat]? else none

theorem own_cons_self (server : Text) (rest : List Text) : own 0 (server :: rest) = some server :=
  rfl

theorem own_cons {replicaId : ℤ} (h : replicaId ≠ 0) (server : Text) (rest : List Text) :
    own replicaId (server :: rest) = own (replicaId - 1) rest := by
  unfold own
  by_cases hpos : 0 ≤ replicaId
  · have hsucc : replicaId.toNat = (replicaId - 1).toNat + 1 := by omega
    rw [if_pos hpos, if_pos (by omega), hsucc, List.getElem?_cons_succ]
  · rw [if_neg hpos, if_neg (by omega)]

/-- The port of the replica itself is a number, if there is an entry for it. -/
def PortRead (replicaId : ℤ) (servers : List Text) : Prop :=
  ∀ server, own replicaId servers = some server → ∃ port, Text.stoi (afterColon server) = .ok port

/-- The port is the one field that the own entry sets, and the one that can fail. -/
theorem addServers_eq (replicaId index : ℤ) (config : ServerConfig) (servers : List Text) :
    addServers replicaId index config servers =
      match (own (replicaId - index) servers).map fun server => Text.stoi (afterColon server) with
      | none => .value { config with
          replicas := config.replicas ++ others replicaId index servers }
      | some (.ok port) => .value { config with
          replicas := config.replicas ++ others replicaId index servers, port := some port }
      | some (.error _) => .throw "stoi".toList := by
  induction servers generalizing index config with
  | nil => simp [addServers, own, others]
  | cons server rest ih =>
    have hnext : replicaId - index - 1 = replicaId - (index + 1) := by ring
    by_cases hindex : index = replicaId
    · subst hindex
      rw [sub_self, own_cons_self, addServers, addServer, if_neg (not_not.mpr rfl)]
      cases hstoi : Text.stoi (afterColon server) with
      | error e => simp [hstoi, Outcome.bind]
      | ok port =>
        have hnone : own (-1) rest = none := by simp [own]
        simp [hstoi, Outcome.bind, ih, hnone, others]
    · rw [own_cons (by omega), hnext, addServers, addServer, if_pos hindex]
      simp only [Outcome.bind, ih, others, if_pos hindex, List.append_assoc, List.cons_append,
        List.nil_append]

theorem addServers_replicas {replicaId : ℤ} {config config' : ServerConfig} {servers : List Text}
    (h : addServers replicaId 0 config servers = .value config') :
    config'.replicas = config.replicas ++ others replicaId 0 servers ∧
      config'.replicaId = config.replicaId := by
  rw [addServers_eq] at h
  split at h <;> cases h <;> exact ⟨rfl, rfl⟩

theorem addServers_cases (replicaId : ℤ) (config : ServerConfig) (servers : List Text) :
    (PortRead replicaId servers ∧
        ∃ config', addServers replicaId 0 config servers = .value config') ∨
      (¬ PortRead replicaId servers ∧
        addServers replicaId 0 config servers = .throw "stoi".toList) := by
  rw [addServers_eq, sub_zero]
  cases hown : own replicaId servers with
  | none => exact .inl ⟨fun server h => absurd (hown.symm.trans h) (by simp), _, rfl⟩
  | some server =>
    cases hstoi : Text.stoi (afterColon server) with
    | error e =>
      refine .inr ⟨fun h => ?_, by simp [hstoi]⟩
      obtain ⟨port, hport⟩ := h server hown
      simp [hstoi] at hport
    | ok port =>
      refine .inl ⟨fun server' h => ?_, by simp [hstoi]⟩
      cases hown.symm.trans h
      exact ⟨port, hstoi⟩

theorem length_serverTokens (servers : List Text) :
    (serverTokens servers).length = 2 * servers.length := by
  induction servers with
  | nil => rfl
  | cons server rest ih =>
    change (dash :: server :: serverTokens rest).length = _
    simp only [List.length_cons, ih]
    ring

theorem enter_servers (servers tail : List Text) (trailingBlank : Bool) (tmp : Text) (index : ℤ) :
    enter replicaId (fuel + servers.length) config
        (behind (serverTokens servers ++ tail) trailingBlank) tmp index =
      (addServers replicaId index config servers).bind fun config =>
        enter replicaId fuel config (behind tail trailingBlank) (servers.getLastD tmp)
          (index + servers.length) := by
  induction servers generalizing config tmp index with
  | nil => simp [serverTokens, addServers, Outcome.bind]
  | cons server rest ih =>
    have htokens : serverTokens (server :: rest) ++ tail =
        dash :: server :: (serverTokens rest ++ tail) := rfl
    have hentry : enter replicaId (fuel + rest.length + 1) config
        (behind (serverTokens (server :: rest) ++ tail) trailingBlank) tmp index =
        (addServer replicaId index config server).bind fun config =>
          enter replicaId (fuel + rest.length) config
            (behind (serverTokens rest ++ tail) trailingBlank) server (index + 1) := by
      simp [enter, htokens, processServersFrom]
    rw [List.length_cons, ← Nat.add_assoc, hentry, addServers]
    cases addServer replicaId index config server with
    | value config' =>
      simp only [Outcome.bind, ih, List.getLastD_cons, Nat.cast_add, Nat.cast_one]
      congr! 3
      ring
    | throw what => rfl
    | running => rfl

theorem enter_all_servers (servers : List Text) (trailingBlank : Bool) (tmp : Text) (index : ℤ) :
    enter replicaId (fuel + servers.length) config
        (behind (serverTokens servers) trailingBlank) tmp index =
      (addServers replicaId index config servers).bind fun config =>
        enter replicaId fuel config (behind [] trailingBlank) (servers.getLastD tmp)
          (index + servers.length) := by
  rw [← enter_servers, List.append_nil]

/-- A token other than `-` ends the section and is gone. -/
theorem enter_stop {stop : Text} (hstop : stop ≠ dash) (rest : List Text) (trailingBlank : Bool)
    (tmp : Text) (index : ℤ) :
    enter replicaId (fuel + 1) config (behind (stop :: rest) trailingBlank) tmp index =
      .value (config, behind rest trailingBlank) := by
  simp [enter, processServersFrom, hstop]

theorem enter_end {tmp : Text} (htmp : tmp ≠ dash) (trailingBlank : Bool) (index : ℤ) :
    enter replicaId (fuel + 1) config (behind [] trailingBlank) tmp index =
      .value (config, ⟨[], trailingBlank, true⟩) := by
  simp [enter, processServersFrom, extract_nil, behind, htmp]

/-- If a section ends, all its servers have been added. -/
theorem processServers_eq_value {servers tail : List Text} {trailingBlank : Bool}
    (htail : tail.head? ≠ some dash) {config' : ServerConfig} {file' : TokenStream}
    (h : processServers fuel config (behind (serverTokens servers ++ tail) trailingBlank)
      replicaId = .value (config', file')) :
    addServers replicaId 0 config servers = .value config' ∧ file'.Sound ∧
      file'.tokens <:+ tail := by
  cases fuel with
  | zero => simp [processServers, processServersFrom] at h
  | succ fuel =>
    change enter replicaId (fuel + 1) config _ [] 0 = _ at h
    have hmore := Outcome.eq_of_le (enter_mono (Nat.le_add_right (fuel + 1) servers.length) _ _ _)
      (by rw [h]; simp)
    rw [h, enter_servers, eq_comm] at hmore
    obtain ⟨config₁, hadd, hend⟩ := Outcome.bind_eq_value.mp hmore
    cases tail with
    | nil =>
      by_cases hlast : servers.getLastD [] = dash
      · rw [hlast, enter, extract_nil rfl] at hend
        exact (processServersFrom_at_end replicaId _ rfl hend).elim
      · rw [enter_end hlast] at hend
        cases hend
        exact ⟨hadd, fun _ => rfl, List.suffix_rfl⟩
    | cons stop rest =>
      rw [enter_stop (by simpa using htail)] at hend
      cases hend
      exact ⟨hadd, sound_behind _ _, List.suffix_cons stop rest⟩

/-- With `-` as the last token the loop adds it again and again. -/
theorem processServersFrom_stuck (hfile : file.tokens = []) {index : ℤ} (h : replicaId < index) :
    processServersFrom replicaId fuel config file dash index = .running := by
  induction fuel generalizing config file index with
  | zero => rfl
  | succ fuel ih =>
    simp only [processServersFrom, extract_nil hfile, ↓reduceIte, addServer, Outcome.bind,
      if_pos (show index ≠ replicaId by omega)]
    exact ih rfl (by omega)

/-- Unless it comes to the position of the replica itself, where `-` is not a port. -/
theorem processServersFrom_throws (hfile : file.tokens = []) {index : ℤ} (h : index ≤ replicaId)
    (hfuel : (replicaId - index).toNat < fuel) :
    processServersFrom replicaId fuel config file dash index = .throw "stoi".toList := by
  induction fuel generalizing config file index with
  | zero => omega
  | succ fuel ih =>
    simp only [processServersFrom, extract_nil hfile, ↓reduceIte, addServer]
    split
    · exact ih rfl (by omega) (by omega)
    · have hdash : Text.stoi (afterColon dash) = .error .invalidArgument := by decide
      simp [hdash, Outcome.bind]

end Sections

end ServerConfig
end LeaderlessDatastore
