import LeaderlessDatastore.ClientConfig
import LeaderlessDatastore.Entries

/-!
# When reading ends

The search for a header and the config section end with the file.  A servers section goes on for
as long as the last token is `-`, and at the end of the file that token stays.
-/

namespace LeaderlessDatastore
namespace ServerConfig

open TokenStream Outcome

/-! ## Servers sections -/

/-- The file ends where the next server should stand, or with `-` for one. -/
def Unfinished (tokens servers : List Text) : Prop :=
  tokens = serverTokens servers ++ [dash] ∨
    tokens = serverTokens servers ∧ servers.getLast? = some dash

/-- An unfinished section behind the position of the replica itself: there `-` would have to be
a port. -/
def Endless (replicaId : ℤ) (tokens : List Text) : Prop :=
  ∃ servers, Unfinished tokens servers ∧ replicaId < servers.length ∧ PortRead replicaId servers

theorem not_unfinished_nil (servers : List Text) : ¬ Unfinished [] servers := by
  rintro (h | ⟨h, hlast⟩)
  · simp at h
  · cases servers with
    | nil => simp at hlast
    | cons server rest => simp [serverTokens] at h

/-- The section ends with a token other than `-`. -/
def BehindServers (replicaId : ℤ) (tokens rest : List Text) : Prop :=
  ∃ servers stop, tokens = serverTokens servers ++ stop :: rest ∧ stop ≠ dash ∧
    PortRead replicaId servers

/-- Tokens are servers followed by nothing, a lone `-` or a token that ends the section. -/
theorem exists_serverTokens (tokens : List Text) : ∃ servers tail,
    tokens = serverTokens servers ++ tail ∧
      (tail = [] ∨ tail = [dash] ∨ ∃ stop rest, stop ≠ dash ∧ tail = stop :: rest) := by
  match tokens with
  | [] => exact ⟨[], [], rfl, .inl rfl⟩
  | [token] =>
    by_cases h : token = dash
    · exact ⟨[], [token], rfl, .inr (.inl (by rw [h]))⟩
    · exact ⟨[], [token], rfl, .inr (.inr ⟨token, [], h, rfl⟩)⟩
  | token :: server :: tokens =>
    by_cases h : token = dash
    · obtain ⟨servers, tail, rfl, htail⟩ := exists_serverTokens tokens
      exact ⟨server :: servers, tail, by rw [h]; rfl, htail⟩
    · exact ⟨[], token :: server :: tokens, rfl, .inr (.inr ⟨token, server :: tokens, h, rfl⟩)⟩

section Servers

variable {fuel : ℕ} {config : ServerConfig} {replicaId : ℤ} {servers : List Text}
  {trailingBlank : Bool} {tmp : Text}

/-- Behind the last server the loop stands at the end of the file with `-`. -/
theorem enter_unfinished (replicaId : ℤ) (trailingBlank : Bool) (tmp : Text) {tokens : List Text}
    (h : Unfinished tokens servers) :
    ∃ file : TokenStream, file.tokens = [] ∧ ∀ fuel config,
      enter replicaId (fuel + servers.length) config (behind tokens trailingBlank) tmp 0 =
        (addServers replicaId 0 config servers).bind fun config =>
          processServersFrom replicaId fuel config file dash servers.length := by
  rcases h with rfl | ⟨rfl, hlast⟩
  · refine ⟨behind [] trailingBlank, rfl, fun fuel config => ?_⟩
    rw [enter_servers]
    simp [enter]
  · refine ⟨⟨[], trailingBlank, true⟩, rfl, fun fuel config => ?_⟩
    rw [enter_all_servers]
    simp [enter, extract_nil, hlast, behind]

theorem enter_endless {tokens : List Text} (h : Endless replicaId tokens) :
    enter replicaId fuel config (behind tokens trailingBlank) tmp 0 = .running := by
  obtain ⟨servers, htokens, hlength, hport⟩ := h
  obtain ⟨file, hfile, henter⟩ := enter_unfinished replicaId trailingBlank tmp htokens
  apply eq_running_of_le (enter_mono (Nat.le_add_right fuel servers.length) _ _ _)
  rw [henter]
  rcases addServers_cases replicaId config servers with ⟨-, config', h⟩ | ⟨hnot, -⟩
  · rw [h]
    exact processServersFrom_stuck hfile hlength
  · exact absurd hport hnot

/-- An unfinished section that is not endless comes to the entry of the replica itself. -/
theorem enter_unfinished_cases {tokens : List Text} (h : Unfinished tokens servers)
    (hfuel : tokens.length + replicaId.toNat < fuel) :
    Endless replicaId tokens ∨
      ∃ what, enter replicaId fuel config (behind tokens trailingBlank) tmp 0 = .throw what := by
  have hlength : servers.length ≤ tokens.length := by
    rcases h with rfl | ⟨rfl, -⟩
    · rw [List.length_append, length_serverTokens]
      omega
    · rw [length_serverTokens]
      omega
  obtain ⟨file, hfile, henter⟩ := enter_unfinished replicaId trailingBlank tmp h
  obtain ⟨k, rfl⟩ : ∃ k, fuel = k + servers.length := ⟨fuel - servers.length, by omega⟩
  rw [henter]
  rcases addServers_cases replicaId config servers with ⟨hport, config', hvalue⟩ | ⟨-, hthrow⟩
  · by_cases hpassed : replicaId < servers.length
    · exact .inl ⟨servers, h, hpassed, hport⟩
    · rw [hvalue]
      exact .inr ⟨_, processServersFrom_throws hfile (by omega) (by omega)⟩
  · exact .inr ⟨_, by rw [hthrow]; rfl⟩

theorem enter_cases (config : ServerConfig) (trailingBlank : Bool) {tokens : List Text}
    (htmp : tmp ≠ dash)
    (hfuel : tokens.length + replicaId.toNat < fuel) :
    Endless replicaId tokens ∨
      (∃ what, enter replicaId fuel config (behind tokens trailingBlank) tmp 0 = .throw what) ∨
      ∃ config' file', enter replicaId fuel config (behind tokens trailingBlank) tmp 0 =
          .value (config', file') ∧ file'.Sound ∧
        (file'.tokens = [] ∨ BehindServers replicaId tokens file'.tokens) := by
  obtain ⟨servers, tail, htokens, htail⟩ := exists_serverTokens tokens
  by_cases hunfinished : Unfinished tokens servers
  · exact (enter_unfinished_cases hunfinished hfuel).imp_right .inl
  · right
    obtain ⟨k, rfl⟩ : ∃ k, fuel = k + 1 + servers.length := by
      have hlength := length_serverTokens servers
      rw [htokens, List.length_append] at hfuel
      exact ⟨fuel - 1 - servers.length, by omega⟩
    rw [htokens, enter_servers]
    rcases addServers_cases replicaId config servers with ⟨hport, config', hvalue⟩ | ⟨-, hthrow⟩
    · rw [hvalue]
      right
      rcases htail with rfl | rfl | ⟨stop, rest, hstop, rfl⟩
      · have hlast : servers.getLastD tmp ≠ dash := by
          rcases servers.eq_nil_or_concat with rfl | ⟨_, last, rfl⟩
          · exact htmp
          · rintro hlast
            exact hunfinished (.inr ⟨by simpa using htokens, by simpa using hlast⟩)
        exact ⟨config', ⟨[], trailingBlank, true⟩, enter_end hlast _ _, fun _ => rfl, .inl rfl⟩
      · exact absurd (.inl htokens) hunfinished
      · exact ⟨config', behind rest trailingBlank, enter_stop hstop _ _ _ _, sound_behind _ _,
          .inr ⟨servers, stop, rfl, hstop, hport⟩⟩
    · exact .inl ⟨_, by rw [hthrow]; rfl⟩

theorem enter_behind (config : ServerConfig) (trailingBlank : Bool) (tmp : Text)
    {tokens rest : List Text} (h : BehindServers replicaId tokens rest)
    (hfuel : tokens.length < fuel) :
    ∃ config', enter replicaId fuel config (behind tokens trailingBlank) tmp 0 =
      .value (config', behind rest trailingBlank) := by
  obtain ⟨servers, stop, rfl, hstop, hport⟩ := h
  obtain ⟨k, rfl⟩ : ∃ k, fuel = k + 1 + servers.length := by
    rw [List.length_append, length_serverTokens] at hfuel
    exact ⟨fuel - 1 - servers.length, by omega⟩
  rcases addServers_cases replicaId config servers with ⟨-, config', hvalue⟩ | ⟨hnot, -⟩
  · refine ⟨config', ?_⟩
    rw [enter_servers, hvalue]
    exact enter_stop hstop _ _ _ _
  · exact absurd hport hnot

end Servers

/-! ## Both rounds -/

/-- What a section that ends leaves of the tokens behind its header. -/
inductive Leaves (replicaId : ℤ) : Text → List Text → List Text → Prop
  | config (tokens : List Text) : Leaves replicaId configHeader tokens (behindEntries 2 tokens)
  | servers {tokens rest : List Text} (h : BehindServers replicaId tokens rest) :
    Leaves replicaId serversHeader tokens rest

/-- The reader comes to a servers section with these tokens. -/
inductive Reaches (replicaId : ℤ) (tokens : List Text) : List Text → Prop
  | first {tokens' : List Text} (h : seek isHeader tokens = some (serversHeader, tokens')) :
    Reaches replicaId tokens tokens'
  | second {header : Text} {tokens' rest tokens'' : List Text}
    (h : seek isHeader tokens = some (header, tokens'))
    (hleaves : Leaves replicaId header tokens' rest)
    (h' : seek isHeader rest = some (serversHeader, tokens'')) :
    Reaches replicaId tokens tokens''

section Rounds

variable {fuel : ℕ} {config : ServerConfig} {replicaId : ℤ} {file : TokenStream}

theorem Leaves.length_le {header : Text} {tokens rest : List Text}
    (h : Leaves replicaId header tokens rest) : rest.length ≤ tokens.length := by
  cases h with
  | config => exact length_behindEntries_le 2 tokens
  | servers h =>
    obtain ⟨servers, stop, rfl, -, -⟩ := h
    simp only [List.length_append, List.length_cons]
    omega

theorem processSection_endless (hs : file.Sound) {tokens : List Text}
    (h : seek isHeader file.tokens = some (serversHeader, tokens))
    (hendless : Endless replicaId tokens) :
    processSection fuel config file replicaId = .running := by
  have hne : serversHeader ≠ configHeader := by decide
  have heof : (behind tokens file.trailingBlank).eof = false := by
    cases tokens with
    | nil => exact absurd hendless.choose_spec.1 (not_unfinished_nil _)
    | cons token rest => simp [behind]
  apply eq_running_of_le (processSection_mono (Nat.le_add_right fuel file.tokens.length) _ _ _)
  rw [processSection_of_some hs h (Nat.le_add_left _ _), heof, if_neg (by simp), if_neg hne]
  exact enter_endless hendless

theorem processSection_leaves (hs : file.Sound) {header : Text} {tokens rest : List Text}
    (h : seek isHeader file.tokens = some (header, tokens))
    (hleaves : Leaves replicaId header tokens rest) (hrest : rest ≠ [])
    (hfuel : file.tokens.length < fuel) :
    ∃ config' file', processSection fuel config file replicaId = .value (config', file') ∧
      file'.Sound ∧ file'.tokens = rest := by
  have hlength := length_of_seek h
  have heof : (behind tokens file.trailingBlank).eof = false := by
    cases tokens with
    | nil => exact absurd (List.eq_nil_of_length_eq_zero (by simpa using hleaves.length_le)) hrest
    | cons token rest => simp [behind]
  rw [processSection_of_some hs h hfuel.le, heof, if_neg (by simp)]
  cases hleaves with
  | config =>
    rw [if_pos rfl]
    have hsection : (behind tokens file.trailingBlank).tokens.length < fuel := hlength.trans hfuel
    rcases processConfigFrom_cases 2 config (sound_behind _ _) hsection [] with
      ⟨config', file', hvalue, hs', htokens⟩ | ⟨what, -, hnil⟩
    · exact ⟨config', file', hvalue, hs', htokens⟩
    · exact absurd hnil hrest
  | servers hbehind =>
    obtain ⟨config', hvalue⟩ := enter_behind config file.trailingBlank [] hbehind
      (hlength.trans hfuel)
    rw [if_neg (by decide)]
    exact ⟨config', behind rest file.trailingBlank, hvalue, sound_behind _ _, rfl⟩

/-- A round is endless, throws, or leaves nothing or what is behind its section. -/
theorem processSection_cases (config : ServerConfig) (hs : file.Sound)
    (hfuel : file.tokens.length + replicaId.toNat < fuel) :
    (∃ tokens, seek isHeader file.tokens = some (serversHeader, tokens) ∧
        Endless replicaId tokens) ∨
      (∃ what, processSection fuel config file replicaId = .throw what) ∨
      ∃ config' file', processSection fuel config file replicaId = .value (config', file') ∧
        file'.Sound ∧ (file'.tokens = [] ∨ ∃ header tokens,
          seek isHeader file.tokens = some (header, tokens) ∧
            Leaves replicaId header tokens file'.tokens) := by
  rcases hseek : seek isHeader file.tokens with _ | ⟨header, tokens⟩
  · exact .inr (.inl ⟨_, processSection_of_none hs hseek (by omega)⟩)
  · have hlength := length_of_seek hseek
    have hheader : header = configHeader ∨ header = serversHeader := by
      simpa [isHeader] using stop_of_seek hseek
    rw [processSection_of_some hs hseek (by omega)]
    split_ifs with heof hconfig
    · exact .inr (.inl ⟨_, rfl⟩)
    · subst hconfig
      right
      have hsection : (behind tokens file.trailingBlank).tokens.length < fuel := by
        simp only [tokens_behind]
        omega
      rcases processConfigFrom_cases 2 config (sound_behind _ _) hsection [] with
        ⟨config', file', hvalue, hs', htokens⟩ | ⟨what, hthrow, -⟩
      · exact .inr ⟨config', file', hvalue, hs', .inr ⟨_, _, rfl, htokens ▸ .config tokens⟩⟩
      · exact .inl ⟨what, hthrow⟩
    · obtain rfl := hheader.resolve_left hconfig
      have hempty : ([] : Text) ≠ dash := by decide
      have hsection : tokens.length + replicaId.toNat < fuel := by omega
      rcases enter_cases config file.trailingBlank hempty hsection with hendless | ⟨what, hthrow⟩ |
        ⟨config', file', hvalue, hs', hrest⟩
      · exact .inl ⟨tokens, rfl, hendless⟩
      · exact .inr (.inl ⟨what, hthrow⟩)
      · refine .inr (.inr ⟨config', file', hvalue, hs', hrest.imp_right fun h => ?_⟩)
        exact ⟨_, _, rfl, .servers h⟩

theorem validate_ne_running : validate config replicaId ≠ .running := by
  unfold validate
  split_ifs <;> simp

/-- With a round more than there are tokens, only an endless section keeps the reader going. -/
theorem initialise_running_iff (hs : file.Sound)
    (hfuel : file.tokens.length + replicaId.toNat < fuel) :
    initialise fuel file replicaId = .running ↔
      ∃ tokens, Reaches replicaId file.tokens tokens ∧ Endless replicaId tokens := by
  constructor
  · intro h
    rcases processSection_cases { replicaId := replicaId } hs hfuel with
      ⟨tokens, hseek, hendless⟩ | ⟨what, hthrow⟩ | ⟨config', file', hvalue, hs', hleaves⟩
    · exact ⟨tokens, .first hseek, hendless⟩
    · simp [initialise, hthrow, Outcome.bind] at h
    · rw [initialise, hvalue] at h
      change (processSection fuel config' file' replicaId).bind _ = _ at h
      have hfuel' : file'.tokens.length + replicaId.toNat < fuel := by
        rcases hleaves with hnil | ⟨header, tokens, hseek, hleaves⟩
        · rw [hnil, List.length_nil]
          omega
        · have hlength := hleaves.length_le
          have hbehind := length_of_seek hseek
          omega
      rcases processSection_cases config' hs' hfuel' with
        ⟨tokens', hseek', hendless⟩ | ⟨what, hthrow⟩ | ⟨config'', file'', hvalue', -⟩
      · rcases hleaves with hnil | ⟨header, tokens, hseek, hleaves⟩
        · simp [hnil, seek] at hseek'
        · exact ⟨tokens', .second hseek hleaves hseek', hendless⟩
      · simp [hthrow, Outcome.bind] at h
      · rw [hvalue'] at h
        exact absurd h validate_ne_running
  · rintro ⟨tokens, hreaches, hendless⟩
    cases hreaches with
    | first hseek =>
      rw [initialise, processSection_endless hs hseek hendless]
      rfl
    | second hseek hleaves hseek' =>
      have hrest := List.ne_nil_of_length_pos (Nat.zero_lt_of_lt (length_of_seek hseek'))
      have hlength : file.tokens.length < fuel := Nat.lt_of_le_of_lt (Nat.le_add_right _ _) hfuel
      obtain ⟨config', file', hvalue, hs', rfl⟩ :=
        processSection_leaves hs hseek hleaves hrest hlength
      rw [initialise, hvalue]
      simp only [Outcome.bind, processSection_endless hs' hseek' hendless]

theorem initialise_ends_iff (hs : file.Sound) :
    (∃ fuel, initialise fuel file replicaId ≠ .running) ↔
      ¬ ∃ tokens, Reaches replicaId file.tokens tokens ∧ Endless replicaId tokens :=
  ends_iff (initialise_monotone file replicaId) fun _ hfuel =>
    not_congr (initialise_running_iff hs (Nat.lt_of_succ_le hfuel))

end Rounds

end ServerConfig

namespace ClientConfig

open ServerConfig (Unfinished serversHeader)
open TokenStream Outcome

theorem endless_iff {tokens : List Text} :
    ServerConfig.Endless (-1) tokens ↔ ∃ servers, Unfinished tokens servers := by
  refine exists_congr fun servers => and_iff_left ⟨by omega, fun server h => ?_⟩
  simp [ServerConfig.own] at h

theorem initialise_running_iff {fuel : ℕ} {file : TokenStream} (hs : file.Sound)
    (hfuel : file.tokens.length < fuel) :
    initialise fuel file = .running ↔ ∃ tokens servers,
      seek isServers file.tokens = some (serversHeader, tokens) ∧ Unfinished tokens servers := by
  rw [initialise_eq]
  rcases hseek : seek isServers file.tokens with _ | ⟨header, tokens⟩
  · have hempty : isServers [] = false := by decide
    obtain ⟨file', tmp', hscan, heof⟩ := scan_of_seek_none hs hseek hempty hfuel
    simp [hscan, heof, Outcome.bind]
  · obtain rfl : header = serversHeader := by simpa [isServers] using stop_of_seek hseek
    have hsection : (∃ tokens' servers,
        some (serversHeader, tokens) = some (serversHeader, tokens') ∧
          Unfinished tokens' servers) ↔ ∃ servers, Unfinished tokens servers := by simp
    rw [scan_of_seek_some hs hseek hfuel.le, hsection]
    change (if (behind tokens file.trailingBlank).eof then _ else _) = _ ↔ _
    split_ifs with heof
    · have hnil : tokens = [] := sound_behind _ _ heof
      simp [hnil, ServerConfig.not_unfinished_nil]
    · rw [← endless_iff, bind_eq_running]
      constructor
      · rintro (h | ⟨_, -, h⟩)
        · have hheader : serversHeader ≠ ServerConfig.dash := by decide
          have hlength : tokens.length + (-1 : ℤ).toNat < fuel := (length_of_seek hseek).trans hfuel
          rcases ServerConfig.enter_cases {} file.trailingBlank hheader hlength with
            hendless | ⟨what, hthrow⟩ | ⟨config', file', hvalue, -⟩
          · exact hendless
          · simp [hthrow] at h
          · simp [hvalue] at h
        · simp at h
      · exact fun h => .inl (ServerConfig.enter_endless h)

theorem initialise_ends_iff {file : TokenStream} (hs : file.Sound) :
    (∃ fuel, initialise fuel file ≠ .running) ↔ ¬ ∃ tokens servers,
      seek isServers file.tokens = some (serversHeader, tokens) ∧ Unfinished tokens servers :=
  ends_iff (initialise_monotone file) fun _ hfuel =>
    not_congr (initialise_running_iff hs (Nat.lt_of_succ_le hfuel))

end ClientConfig

/-! ## Every file -/

/-- Reading ends unless it comes to a servers section that the end of the file leaves at `-`. -/
theorem reading_ends_iff (tokens : List Text) (trailingBlank : Bool) (replicaId : ℤ) :
    ((∃ fuel, ServerConfig.initialise fuel { tokens := tokens, trailingBlank := trailingBlank }
        replicaId ≠ .running) ↔
      ¬ ∃ tokens', ServerConfig.Reaches replicaId tokens tokens' ∧
        ServerConfig.Endless replicaId tokens') ∧
    ((∃ fuel, ClientConfig.initialise fuel { tokens := tokens, trailingBlank := trailingBlank } ≠
        .running) ↔
      ¬ ∃ tokens' servers,
        TokenStream.seek ClientConfig.isServers tokens =
          some (ServerConfig.serversHeader, tokens') ∧
        ServerConfig.Unfinished tokens' servers) := by
  have hs : TokenStream.Sound { tokens := tokens, trailingBlank := trailingBlank } := by
    simp [TokenStream.Sound]
  exact ⟨ServerConfig.initialise_ends_iff hs, ClientConfig.initialise_ends_iff hs⟩

/-- One server and the `-` of a second one: the replica `0` and the client read on for ever. -/
theorem unfinished_servers_never_end :
    (¬ ∃ fuel, ServerConfig.initialise fuel
      { tokens := ["servers:".toList, "-".toList, "a:1".toList, "-".toList],
        trailingBlank := true } 0 ≠ .running) ∧
    ¬ ∃ fuel, ClientConfig.initialise fuel
      { tokens := ["servers:".toList, "-".toList, "a:1".toList, "-".toList],
        trailingBlank := true } ≠ .running := by
  have hunfinished : ServerConfig.Unfinished ["-".toList, "a:1".toList, "-".toList]
      ["a:1".toList] := .inl rfl
  have hport : ServerConfig.PortRead 0 ["a:1".toList] := by
    rintro server hown
    cases hown
    exact ⟨1, by decide⟩
  refine ⟨?_, ?_⟩
  · rw [ServerConfig.initialise_ends_iff (by simp [TokenStream.Sound]), not_not]
    exact ⟨_, .first rfl, _, hunfinished, by decide, hport⟩
  · rw [ClientConfig.initialise_ends_iff (by simp [TokenStream.Sound]), not_not]
    exact ⟨_, _, rfl, hunfinished⟩

end LeaderlessDatastore
