import LeaderlessDatastore.Reading

/-!
# The entries of a config section

`processConfig` skips the entries that it does not know.  The two handlers of a value that is
not a number reset the same quorum.
-/

namespace LeaderlessDatastore
namespace ServerConfig

open TokenStream

/-- The name of a quorum entry. -/
def isEntry (token : Text) : Bool := token = readEntry || token = writeEntry

/-- The next quorum entry of a section, if there is one, and the tokens behind the search. -/
def seekEntry : List Text → Option Text × List Text
  | [] => (none, [])
  | [_] => (none, [])
  | token :: name :: rest =>
    if token ≠ dash then (none, name :: rest)
    else if isEntry name then (some name, rest)
    else seekEntry rest

/-- What a config section of at most `rounds` quorum entries leaves of the tokens. -/
def behindEntries : ℕ → List Text → List Text
  | 0, tokens => tokens
  | rounds + 1, tokens =>
    match seekEntry tokens with
    | (none, rest) => rest
    | (some _, rest) => behindEntries rounds (rest.drop 1)

theorem seekEntry_suffix (tokens : List Text) : (seekEntry tokens).2 <:+ tokens := by
  fun_induction seekEntry tokens with
  | case1 => exact List.suffix_rfl
  | case2 token => exact List.suffix_cons token []
  | case3 token name rest => exact List.suffix_cons token (name :: rest)
  | case4 token name rest => exact (List.suffix_cons name rest).trans (List.suffix_cons token _)
  | case5 token name rest _ _ ih =>
    exact ih.trans ((List.suffix_cons name rest).trans (List.suffix_cons token _))

theorem length_seekEntry_le (tokens : List Text) :
    (seekEntry tokens).2.length ≤ tokens.length :=
  (seekEntry_suffix tokens).length_le

theorem behindEntries_nil (rounds : ℕ) : behindEntries rounds [] = [] := by
  cases rounds <;> rfl

theorem behindEntries_suffix (rounds : ℕ) (tokens : List Text) :
    behindEntries rounds tokens <:+ tokens := by
  induction rounds generalizing tokens with
  | zero => exact List.suffix_rfl
  | succ rounds ih =>
    have hsuffix := seekEntry_suffix tokens
    rcases hseek : seekEntry tokens with ⟨_ | name, rest⟩
    · simpa only [behindEntries, hseek] using hsuffix
    · simp only [behindEntries, hseek] at hsuffix ⊢
      exact ((ih (rest.drop 1)).trans (List.drop_suffix 1 rest)).trans hsuffix

theorem length_behindEntries_le (rounds : ℕ) (tokens : List Text) :
    (behindEntries rounds tokens).length ≤ tokens.length :=
  (behindEntries_suffix rounds tokens).length_le

theorem isEntry_of_seekEntry {tokens rest : List Text} {name : Text}
    (h : seekEntry tokens = (some name, rest)) : isEntry name := by
  fun_induction seekEntry tokens with
  | case1 => simp at h
  | case2 => simp at h
  | case3 => simp at h
  | case4 token name' rest' hdash hname =>
    obtain ⟨rfl, rfl⟩ : name' = name ∧ rest' = rest := by simpa using h
    exact hname
  | case5 _ _ _ _ _ ih => exact ih h

section Rounds

variable {fuel : ℕ} {file : TokenStream}

theorem nextEntry_dash {name : Text} {rest : List Text} (hs : file.Sound)
    (h : file.tokens = dash :: name :: rest) (tmp : Text) :
    nextEntry (fuel + 1) file tmp =
      if isEntry name || (behind rest file.trailingBlank).eof then
        .value (false, behind rest file.trailingBlank, name)
      else nextEntry fuel (behind rest file.trailingBlank) name := by
  rw [nextEntry, extract_cons hs h]
  simp only [ne_eq, not_true_eq_false, ↓reduceIte, extract_behind, isEntry]
  by_cases hread : name = readEntry
  · simp [hread]
  · by_cases hwrite : name = writeEntry
    · simp [hwrite]
    · cases (behind rest file.trailingBlank).eof <;> simp [hread, hwrite]

theorem nextEntry_of_some {name : Text} {rest : List Text} (hs : file.Sound)
    (h : seekEntry file.tokens = (some name, rest)) (hfuel : file.tokens.length ≤ fuel)
    (tmp : Text) :
    nextEntry fuel file tmp = .value (false, behind rest file.trailingBlank, name) := by
  induction fuel generalizing file tmp with
  | zero => simp [List.eq_nil_of_length_eq_zero (Nat.le_zero.mp hfuel), seekEntry] at h
  | succ fuel ih =>
    obtain ⟨tokens, trailingBlank, eof⟩ := file
    match tokens with
    | [] => simp [seekEntry] at h
    | [_] => simp [seekEntry] at h
    | token :: first :: tokens =>
      by_cases hdash : token = dash
      · subst hdash
        rw [nextEntry_dash hs rfl]
        by_cases hfirst : isEntry first
        · obtain ⟨rfl, rfl⟩ : first = name ∧ tokens = rest := by
            simpa [seekEntry, hfirst] using h
          simp [hfirst]
        · have hnext : seekEntry tokens = (some name, rest) := by
            simpa [seekEntry, hfirst] using h
          have heof : (behind tokens trailingBlank).eof = false := by
            cases tokens <;> simp [behind, seekEntry] at hnext ⊢
          simp only [hfirst, heof, Bool.or_self, Bool.false_eq_true, ↓reduceIte]
          exact ih (sound_behind _ _) hnext (by simp at hfuel ⊢; omega) _
      · simp [seekEntry, hdash] at h

/-- Without another entry the function returns, or the file ends behind a `-`. -/
theorem nextEntry_of_none {rest : List Text} (hs : file.Sound)
    (h : seekEntry file.tokens = (none, rest)) (hfuel : file.tokens.length < fuel) (tmp : Text) :
    (∃ file' tmp', nextEntry fuel file tmp = .value (true, file', tmp') ∧ file'.Sound ∧
        file'.tokens = rest) ∨
      (∃ file' tmp', nextEntry fuel file tmp = .value (false, file', tmp') ∧
        file'.eof = true ∧ rest = []) := by
  induction fuel generalizing file tmp with
  | zero => omega
  | succ fuel ih =>
    obtain ⟨tokens, trailingBlank, eof⟩ := file
    match tokens with
    | [] =>
      obtain rfl : [] = rest := by simpa [seekEntry] using h
      by_cases htmp : tmp = dash
      · exact .inr ⟨⟨[], trailingBlank, true⟩, tmp, by simp [nextEntry, extract_nil, htmp], rfl,
          rfl⟩
      · exact .inl ⟨⟨[], trailingBlank, true⟩, tmp, by simp [nextEntry, extract_nil, htmp],
          fun _ => rfl, rfl⟩
    | [token] =>
      obtain rfl : [] = rest := by simpa [seekEntry] using h
      by_cases hdash : token = dash
      · refine .inr ⟨⟨[], trailingBlank, true⟩, dash, ?_, rfl, rfl⟩
        rw [nextEntry, extract_cons hs rfl]
        simp [hdash, extract_nil, behind]
      · refine .inl ⟨behind [] trailingBlank, token, ?_, sound_behind _ _, rfl⟩
        rw [nextEntry, extract_cons hs rfl]
        simp [hdash]
    | token :: first :: tokens =>
      by_cases hdash : token = dash
      · subst hdash
        obtain ⟨hfirst, hnext⟩ : isEntry first = false ∧ seekEntry tokens = (none, rest) := by
          cases hfirst : isEntry first <;> simp_all [seekEntry]
        rw [nextEntry_dash hs rfl]
        cases heof : (behind tokens trailingBlank).eof with
        | true =>
          refine .inr ⟨behind tokens trailingBlank, first, by simp, heof, ?_⟩
          have hnil : tokens = [] := sound_behind _ _ heof
          simpa [hnil, seekEntry, eq_comm] using hnext
        | false =>
          simp only [hfirst, Bool.or_self, Bool.false_eq_true, ↓reduceIte]
          exact ih (sound_behind _ _) hnext (by simp at hfuel ⊢; omega) _
      · obtain rfl : first :: tokens = rest := by simpa [seekEntry, hdash] using h
        refine .inl ⟨behind (first :: tokens) trailingBlank, token, ?_, sound_behind _ _, rfl⟩
        rw [nextEntry, extract_cons hs rfl]
        simp [hdash]

/-! ## The values -/

/-- The number of a value, `0` if it is none. -/
def number (value : Text) : ℤ :=
  match Text.stoi value with
  | .ok n => n
  | .error _ => 0

/-- What the entry `name` does to the configuration. -/
def setQuorum (config : ServerConfig) (name value : Text) : ServerConfig :=
  if name = readEntry then { config with readQuorum := number value }
  else match Text.stoi value with
    | .ok n => { config with writeQuorum := n }
    | .error _ => { config with readQuorum := 0 }

/-- An entry changes the quorums only. -/
theorem setQuorum_eq (config : ServerConfig) (name value : Text) : ∃ r w,
    config.setQuorum name value = { config with readQuorum := r, writeQuorum := w } := by
  unfold setQuorum
  split
  · exact ⟨number value, config.writeQuorum, rfl⟩
  · split
    · exact ⟨config.readQuorum, _, rfl⟩
    · exact ⟨0, config.writeQuorum, rfl⟩

variable {rounds : ℕ} {config : ServerConfig}

theorem processConfigFrom_entry {file' : TokenStream} {tmp name : Text} (hname : isEntry name)
    (h : nextEntry fuel file tmp = .value (false, file', name)) (heof : file'.eof = false) :
    processConfigFrom fuel (rounds + 1) config file tmp =
      processConfigFrom fuel rounds (config.setQuorum name (file'.extract name).2)
        (file'.extract name).1 (file'.extract name).2 := by
  have hne : writeEntry ≠ readEntry := by decide
  obtain rfl | rfl : name = readEntry ∨ name = writeEntry := by simpa [isEntry] using hname
  · simp only [processConfigFrom, h, Bind.bind, Outcome.bind, heof, setQuorum, number,
      Bool.false_eq_true, ↓reduceIte]
    split <;> simp_all
  · simp only [processConfigFrom, h, Bind.bind, Outcome.bind, heof, setQuorum, hne,
      Bool.false_eq_true, ↓reduceIte]
    split <;> simp_all

/-- The section ends with a result or an exception, and behind the tokens it consumed. -/
theorem processConfigFrom_cases (rounds : ℕ) (config : ServerConfig) (hs : file.Sound)
    (hfuel : file.tokens.length < fuel) (tmp : Text) :
    (∃ config' file', processConfigFrom fuel rounds config file tmp = .value (config', file') ∧
        file'.Sound ∧ file'.tokens = behindEntries rounds file.tokens) ∨
      (∃ what, processConfigFrom fuel rounds config file tmp = .throw what ∧
        behindEntries rounds file.tokens = []) := by
  induction rounds generalizing config file tmp with
  | zero => exact .inl ⟨config, file, rfl, hs, rfl⟩
  | succ rounds ih =>
    rcases hseek : seekEntry file.tokens with ⟨_ | name, rest⟩
    · simp only [behindEntries, hseek]
      rcases nextEntry_of_none hs hseek hfuel tmp with
        ⟨file', tmp', h, hs', hrest⟩ | ⟨file', tmp', h, heof, hrest⟩
      · exact .inl ⟨config, file', by rw [processConfigFrom, h]; rfl, hs', hrest⟩
      · exact .inr ⟨incomplete, by simp [processConfigFrom, h, Bind.bind, Outcome.bind, heof],
          hrest⟩
    · have hlength : rest.length ≤ file.tokens.length := by
        simpa [hseek] using length_seekEntry_le file.tokens
      have hnext := nextEntry_of_some hs hseek hfuel.le tmp
      simp only [behindEntries, hseek]
      cases heof : (behind rest file.trailingBlank).eof with
      | true =>
        have hnil : rest = [] := sound_behind _ _ heof
        exact .inr ⟨incomplete, by
          simp [processConfigFrom, hnext, Bind.bind, Outcome.bind, heof],
          by simp [hnil, behindEntries_nil]⟩
      | false =>
        rw [processConfigFrom_entry (isEntry_of_seekEntry hseek) hnext heof]
        cases rest with
        | nil =>
          rw [extract_nil rfl]
          exact ih _ (fun _ => rfl) (by simp; omega) _
        | cons value rest =>
          rw [extract_behind]
          exact ih _ (sound_behind _ _) (by simp at hlength ⊢; omega) _

/-- A config section changes the quorums only. -/
theorem processConfigFrom_replicas {config' : ServerConfig} {file' : TokenStream} {tmp : Text}
    (h : processConfigFrom fuel rounds config file tmp = .value (config', file')) :
    config'.replicas = config.replicas ∧ config'.replicaId = config.replicaId := by
  induction rounds generalizing config file tmp with
  | zero =>
    cases h
    exact ⟨rfl, rfl⟩
  | succ rounds ih =>
    obtain ⟨⟨returned, file₁, tmp₁⟩, -, h⟩ := Outcome.bind_eq_value.mp h
    dsimp only at h
    have hset : ∀ r w value, processConfigFrom fuel rounds
        { config with readQuorum := r, writeQuorum := w } (file₁.extract tmp₁).1 value =
          .value (config', file') →
        config'.replicas = config.replicas ∧ config'.replicaId = config.replicaId := by
      intro r w value h
      have hrest := ih h
      exact hrest
    split_ifs at h
    · cases h
      exact ⟨rfl, rfl⟩
    · split at h <;> exact hset _ _ _ h
    · split at h <;> exact hset _ _ _ h
    · exact ih h

theorem processConfig_eq_value {config' : ServerConfig} {file' : TokenStream} (hs : file.Sound)
    (hfuel : file.tokens.length < fuel)
    (h : processConfig fuel config file = .value (config', file')) :
    config'.replicas = config.replicas ∧ config'.replicaId = config.replicaId ∧
      file'.Sound ∧ file'.tokens <:+ file.tokens := by
  obtain ⟨hreplicas, hid⟩ := processConfigFrom_replicas h
  rcases processConfigFrom_cases 2 config hs hfuel [] with
    ⟨config₁, file₁, h₁, hs₁, htokens⟩ | ⟨what, h₁, -⟩
  · cases h.symm.trans h₁
    exact ⟨hreplicas, hid, hs₁, htokens ▸ behindEntries_suffix 2 file.tokens⟩
  · cases h.symm.trans h₁

/-! ## Two entries among others -/

/-- Entries of a name and nothing else. -/
def nameTokens (names : List Text) : List Text := names.flatMap fun name => [dash, name]

theorem seekEntry_nameTokens {unknown : List Text} (hunknown : ∀ x ∈ unknown, ¬ isEntry x)
    {name : Text} (hname : isEntry name) (rest : List Text) :
    seekEntry (nameTokens unknown ++ dash :: name :: rest) = (some name, rest) := by
  induction unknown with
  | nil => simp [nameTokens, seekEntry, hname]
  | cons x unknown ih =>
    have hx : isEntry x = false := by simpa using hunknown x List.mem_cons_self
    have hstep : seekEntry (nameTokens (x :: unknown) ++ dash :: name :: rest) =
        seekEntry (nameTokens unknown ++ dash :: name :: rest) := by
      simp [nameTokens, seekEntry, hx]
    rw [hstep]
    exact ih fun y hy => hunknown y (List.mem_cons_of_mem _ hy)

theorem processConfigFrom_value {unknown : List Text} (hunknown : ∀ x ∈ unknown, ¬ isEntry x)
    {name : Text} (hname : isEntry name) {value : Text} {rest : List Text} (hs : file.Sound)
    (htokens : file.tokens = nameTokens unknown ++ dash :: name :: value :: rest)
    (hfuel : file.tokens.length ≤ fuel) (tmp : Text) :
    processConfigFrom fuel (rounds + 1) config file tmp =
      processConfigFrom fuel rounds (config.setQuorum name value)
        (behind rest file.trailingBlank) value := by
  have hseek : seekEntry file.tokens = (some name, value :: rest) := by
    rw [htokens]
    exact seekEntry_nameTokens hunknown hname _
  rw [processConfigFrom_entry hname (nextEntry_of_some hs hseek hfuel tmp) (by simp [behind]),
    extract_behind]

/-- Both values are handed to `setQuorum`, in the order of the file. -/
theorem processConfig_values {unknown unknown' : List Text}
    (hunknown : ∀ x ∈ unknown ++ unknown', ¬ isEntry x) {first second value value' : Text}
    (hfirst : isEntry first) (hsecond : isEntry second) {rest : List Text} (hs : file.Sound)
    (htokens : file.tokens = nameTokens unknown ++ dash :: first :: value ::
      (nameTokens unknown' ++ dash :: second :: value' :: rest))
    (hfuel : file.tokens.length ≤ fuel) :
    processConfig fuel config file =
      .value ((config.setQuorum first value).setQuorum second value',
        behind rest file.trailingBlank) := by
  have hlength : (nameTokens unknown' ++ dash :: second :: value' :: rest).length ≤ fuel := by
    refine le_trans ?_ hfuel
    simp only [htokens, List.length_append, List.length_cons]
    omega
  rw [processConfig, processConfigFrom_value (fun x hx => hunknown x (by simp [hx])) hfirst hs
      htokens hfuel,
    processConfigFrom_value (fun x hx => hunknown x (by simp [hx])) hsecond (sound_behind _ _) rfl
      hlength]
  rfl

end Rounds

/-! ## The quorums of a section -/

/-- A config section with both quorums, in either order and each behind other entries. -/
def quorumEntries (writeFirst : Bool) (unknown unknown' : List Text) (r w : Text) : List Text :=
  if writeFirst then
    nameTokens unknown ++ dash :: writeEntry :: w :: (nameTokens unknown' ++ [dash, readEntry, r])
  else
    nameTokens unknown ++ dash :: readEntry :: r :: (nameTokens unknown' ++ [dash, writeEntry, w])

/-- The configuration once both entries have been read. -/
def withQuorums (writeFirst : Bool) (r w : Text) (config : ServerConfig) : ServerConfig :=
  if writeFirst then (config.setQuorum writeEntry w).setQuorum readEntry r
  else (config.setQuorum readEntry r).setQuorum writeEntry w

theorem withQuorums_eq (writeFirst : Bool) (r w : Text) (config : ServerConfig) : ∃ r' w',
    config.withQuorums writeFirst r w =
      { config with readQuorum := r', writeQuorum := w' } := by
  have htwice : ∀ name value name' value', ∃ r' w',
      (config.setQuorum name value).setQuorum name' value' =
        { config with readQuorum := r', writeQuorum := w' } := by
    intro name value name' value'
    obtain ⟨_, _, h⟩ := config.setQuorum_eq name value
    obtain ⟨r', w', h'⟩ := (config.setQuorum name value).setQuorum_eq name' value'
    exact ⟨r', w', by rw [h', h]⟩
  cases writeFirst with
  | false => exact htwice readEntry r writeEntry w
  | true => exact htwice writeEntry w readEntry r

theorem processConfig_quorumEntries {fuel : ℕ} {config : ServerConfig} {file : TokenStream}
    {writeFirst : Bool} {unknown unknown' : List Text}
    (hunknown : ∀ x ∈ unknown ++ unknown', ¬ isEntry x) {r w : Text} {rest : List Text}
    (hs : file.Sound)
    (htokens : file.tokens = quorumEntries writeFirst unknown unknown' r w ++ rest)
    (hfuel : file.tokens.length ≤ fuel) :
    processConfig fuel config file =
      .value (config.withQuorums writeFirst r w, behind rest file.trailingBlank) := by
  have hread : isEntry readEntry := by decide
  have hwrite : isEntry writeEntry := by decide
  cases writeFirst with
  | false =>
    exact processConfig_values hunknown hread hwrite hs (by simpa [quorumEntries] using htokens)
      hfuel
  | true =>
    exact processConfig_values hunknown hwrite hread hs (by simpa [quorumEntries] using htokens)
      hfuel

/-- Each quorum is the number of its own value, unless the handler of the write quorum has run:
it leaves the write quorum and takes the read quorum away. -/
theorem processConfig_quorums_iff (config : ServerConfig) (writeFirst : Bool)
    (unknown unknown' : List Text)
    (hunknown : ∀ x ∈ unknown ++ unknown', x ≠ readEntry ∧ x ≠ writeEntry) (r w : Text)
    (rest : List Text) (trailingBlank : Bool) :
    ∃ n, ∀ fuel, n ≤ fuel → ∃ config' file',
      processConfig fuel config
        { tokens := quorumEntries writeFirst unknown unknown' r w ++ rest,
          trailingBlank := trailingBlank } = .value (config', file') ∧
      (config'.readQuorum = number r ∧ config'.writeQuorum = number w ↔
        (∃ n, Text.stoi w = .ok n) ∨
          config.writeQuorum = 0 ∧ (writeFirst = true ∨ number r = 0)) := by
  have hne : writeEntry ≠ readEntry := by decide
  have hnames : ∀ x ∈ unknown ++ unknown', ¬ isEntry x := by
    intro x hx
    simpa [isEntry] using hunknown x hx
  refine ⟨(quorumEntries writeFirst unknown unknown' r w ++ rest).length, fun fuel hfuel =>
    ⟨config.withQuorums writeFirst r w, behind rest trailingBlank,
      processConfig_quorumEntries hnames (by simp [Sound]) rfl hfuel, ?_⟩⟩
  cases hw : Text.stoi w with
  | ok n => cases writeFirst <;> simp [withQuorums, setQuorum, number, hw, hne]
  | error e =>
    cases writeFirst with
    | false => simp [withQuorums, setQuorum, number, hw, hne, and_comm, eq_comm]
    | true => simp [withQuorums, setQuorum, number, hw, hne]

/-- An entry of another name in front of the read quorum. -/
theorem processConfig_quorums_iff_skipped : ∃ n, ∀ fuel, n ≤ fuel → ∃ config' file',
    processConfig fuel {}
      { tokens := quorumEntries false ["timeout:".toList] [] "3".toList "2".toList ++
          [serversHeader], trailingBlank := true } = .value (config', file') ∧
      config'.readQuorum = 3 ∧ config'.writeQuorum = 2 := by
  obtain ⟨n, hn⟩ := processConfig_quorums_iff {} false ["timeout:".toList] [] (by decide)
    "3".toList "2".toList [serversHeader] true
  refine ⟨n, fun fuel hfuel => ?_⟩
  obtain ⟨config', file', h, hiff⟩ := hn fuel hfuel
  have hr : number "3".toList = 3 := by decide
  have hw : number "2".toList = 2 := by decide
  rw [hr, hw] at hiff
  exact ⟨config', file', h, hiff.mpr (.inl ⟨2, by decide⟩)⟩

/-- The read quorum `3` is gone once the write quorum behind it is not a number. -/
theorem read_quorum_reset : ∃ config' file',
    processConfig 6 {}
      { tokens := quorumEntries false [] [] "3".toList "x".toList, trailingBlank := true } =
        .value (config', file') ∧
      config'.readQuorum = 0 ∧ number "3".toList = 3 :=
  ⟨_, _, rfl, rfl, rfl⟩

end ServerConfig
end LeaderlessDatastore
