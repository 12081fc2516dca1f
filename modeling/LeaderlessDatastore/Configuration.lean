import LeaderlessDatastore.Coordinator
import LeaderlessDatastore.TransactionId
import Mathlib.Data.Finset.Card

/-!
# Accepted configurations

What holds of the quorums whenever `ServerConfig::initialize` returns, and when they are the
numbers of the file.
-/

namespace LeaderlessDatastore
namespace ServerConfig

/-- Both sections of the file, before the quorums are checked. -/
def readSections (fuel : ℕ) (file : TokenStream) (replicaId : ℤ) :
    Outcome (ServerConfig × TokenStream) :=
  (processSection fuel { replicaId := replicaId } file replicaId).bind fun (config, file) =>
    processSection fuel config file replicaId

variable {fuel : ℕ} {file : TokenStream} {replicaId : ℤ} {config : ServerConfig}

theorem initialise_eq_value :
    initialise fuel file replicaId = .value config ↔ ∃ read rest,
      readSections fuel file replicaId = .value (read, rest) ∧
        validate read replicaId = .value config := by
  simp only [initialise, readSections, Outcome.bind_eq_value, Prod.exists]
  grind

theorem validate_quorums {read : ServerConfig} (h : validate read replicaId = .value config) :
    config.writeQuorum = normaliseWriteQuorum read.writeQuorum config.replicas.length ∧
      config.readQuorum =
        normaliseReadQuorum read.readQuorum config.writeQuorum config.replicas.length := by
  unfold validate at h
  split_ifs at h
  cases h
  exact ⟨rfl, rfl⟩

theorem validate_listed {read : ServerConfig}
    (h : validate read replicaId = .value config) : 1 ≤ config.replicas.length := by
  unfold validate at h
  split_ifs at h with hnone
  cases h
  exact Nat.one_le_iff_ne_zero.mpr hnone

/-- The repair leaves a pair alone exactly when it needs none. -/
theorem normalise_eq_iff (readQuorum writeQuorum : ℤ) {size : ℤ} (hsize : 0 ≤ size) :
    normaliseWriteQuorum writeQuorum size = writeQuorum ∧
        normaliseReadQuorum readQuorum (normaliseWriteQuorum writeQuorum size) size =
          readQuorum ↔
      QuorumsOk (size + 1) readQuorum writeQuorum := by
  constructor
  · rintro ⟨hwrite, hread⟩
    -- whatever comes out of the repair is within the bounds
    have hok := normalise_ok readQuorum writeQuorum hsize
    rwa [hread, hwrite] at hok
  · rintro ⟨-, hread, hwrite, hmajority, hoverlap⟩
    have hkept : normaliseWriteQuorum writeQuorum size = writeQuorum := by
      rw [normaliseWriteQuorum, if_neg (by omega), if_neg (by omega)]
    refine ⟨hkept, ?_⟩
    rw [hkept, normaliseReadQuorum, if_neg (by omega), if_neg (by omega)]

/-! ## `int` and `size_t` -/

/-- The write quorum with the conversions of the source; `replicas.size()` is a `size_t`. -/
def machineWriteQuorum (writeQuorum : ℤ) (size : ℕ) : ℤ :=
  if writeQuorum ≤ (castInt size + 1) / 2 then
    castInt (Coordinator.toSize (Coordinator.toSize (size + 1) / 2 + 1))
  else if writeQuorum > castInt size + 1 then castInt (Coordinator.toSize (size + 1))
  else writeQuorum

/-- The read quorum with the conversions of the source. -/
def machineReadQuorum (readQuorum writeQuorum : ℤ) (size : ℕ) : ℤ :=
  if readQuorum ≤ castInt size + 1 - writeQuorum then
    castInt (Coordinator.toSize (size - writeQuorum + 2))
  else if readQuorum > castInt size + 1 then castInt (Coordinator.toSize (size + 1))
  else readQuorum

/-- As long as an `int` counts the replicas, the conversions change nothing. -/
theorem machineQuorums_eq (readQuorum writeQuorum : ℤ) {size : ℕ} (hsize : size + 1 < 2 ^ 31) :
    machineWriteQuorum writeQuorum size = normaliseWriteQuorum writeQuorum size ∧
      machineReadQuorum readQuorum (normaliseWriteQuorum writeQuorum size) size =
        normaliseReadQuorum readQuorum (normaliseWriteQuorum writeQuorum size) size := by
  have hbound : (size : ℤ) + 1 < 2 ^ 31 := by exact_mod_cast hsize
  have hcast : castInt size = size := castInt_of_lt (by omega) (by omega)
  have hconverted : ∀ n : ℤ, 0 ≤ n → n < 2 ^ 31 → castInt (Coordinator.toSize n) = n := by
    intro n h0 h
    have htoSize : (Coordinator.toSize n : ℤ) = n := by
      unfold Coordinator.toSize
      omega
    rw [htoSize, castInt_of_lt h0 h]
  have hhalf : ((Coordinator.toSize (size + 1) : ℤ)) = size + 1 := by
    unfold Coordinator.toSize
    omega
  have hok := normalise_ok readQuorum writeQuorum (Int.natCast_nonneg size)
  refine ⟨?_, ?_⟩
  · rw [machineWriteQuorum, normaliseWriteQuorum, hcast, hhalf,
      hconverted _ (by omega) (by omega), castInt_of_lt (by omega) hbound]
  · have hwrite := hok.write_le
    have hmajority := hok.majority
    rw [machineReadQuorum, normaliseReadQuorum, hcast, hconverted _ (by omega) (by omega),
      hconverted _ (by omega) (by omega)]

/-! ## The entries of the file -/

/-- A pair that is read without error is in the fields, in whatever order the entries are. -/
theorem processConfig_pair {read write : Text} {rest : List Text} {r w : ℤ}
    (hread : Text.stoi read = .ok r) (hwrite : Text.stoi write = .ok w)
    (htokens : file.tokens = dash :: readEntry :: read :: dash :: writeEntry :: write :: rest ∨
      file.tokens = dash :: writeEntry :: write :: dash :: readEntry :: read :: rest)
    (heof : file.eof = false) :
    ∃ file', file'.tokens = rest ∧ processConfig (fuel + 1) config file =
      .value ({ config with readQuorum := r, writeQuorum := w }, file') := by
  have hne : readEntry ≠ writeEntry := by decide
  obtain ⟨tokens, trailingBlank, eof⟩ := file
  subst heof
  rcases htokens with htokens | htokens <;> subst htokens <;> cases rest <;>
    simp [processConfig, processConfigFrom, nextEntry, TokenStream.extract, Bind.bind,
      Outcome.bind, hne, hne.symm, hread, hwrite]

/-! ## The accepted quorums -/

/-- Whatever the file holds, the quorums of an accepted configuration are within bounds and
meet, and a pair that already does so is the one that was read. -/
theorem initialise_quorums (h : initialise fuel file replicaId = .value config) :
    (1 ≤ config.readQuorum ∧ config.readQuorum ≤ config.replicas.length + 1 ∧
      1 ≤ config.writeQuorum ∧ config.writeQuorum ≤ config.replicas.length + 1) ∧
    (∀ {α : Type} [Fintype α] [DecidableEq α], Fintype.card α = config.replicas.length + 1 →
      ∀ s t : Finset α, (t.card : ℤ) = config.writeQuorum →
        (s.card : ℤ) = config.readQuorum ∨ (s.card : ℤ) = config.writeQuorum →
        (s ∩ t).Nonempty) ∧
    ∀ read rest, readSections fuel file replicaId = .value (read, rest) →
      (config.writeQuorum = read.writeQuorum ∧ config.readQuorum = read.readQuorum ↔
        QuorumsOk (config.replicas.length + 1) read.readQuorum read.writeQuorum) := by
  obtain ⟨read, rest, hread, hvalidate⟩ := initialise_eq_value.mp h
  obtain ⟨hwrite, hquorum⟩ := validate_quorums hvalidate
  have hok := normalise_ok read.readQuorum read.writeQuorum
    (Int.natCast_nonneg config.replicas.length)
  rw [← hwrite, ← hquorum] at hok
  obtain ⟨hpos, hle, hwle, hmajority, hoverlap⟩ := hok
  refine ⟨⟨hpos, hle, by omega, hwle⟩, ?_, ?_⟩
  · intro α _ _ hcard s t ht hs
    -- two sets that are together larger than the whole meet
    refine Finset.inter_nonempty_of_card_lt_card_add_card (Finset.subset_univ s)
      (Finset.subset_univ t) ?_
    rw [Finset.card_univ, hcard]
    omega
  · intro read' rest' hread'
    cases hread.symm.trans hread'
    rw [← normalise_eq_iff _ _ (Int.natCast_nonneg _), ← hwrite, ← hquorum]

/-- Five servers and a pair that is kept, read by the replica 2. -/
theorem initialise_quorums_kept : ∃ config,
    initialise 6 (shippedFile "2".toList "4".toList (List.replicate 5 "h:1".toList) true) 2 =
      .value config ∧ config.writeQuorum = 4 ∧ config.readQuorum = 2 := by
  obtain ⟨config, hconfig, hsize⟩ : ∃ config,
      initialise 6 (shippedFile "2".toList "4".toList (List.replicate 5 "h:1".toList) true) 2 =
        .value config ∧ config.replicas.length = 4 := ⟨_, rfl, rfl⟩
  obtain ⟨read, rest, hread, hwrite, hquorum⟩ : ∃ read rest,
      readSections 6 (shippedFile "2".toList "4".toList (List.replicate 5 "h:1".toList) true) 2 =
        .value (read, rest) ∧ read.writeQuorum = 4 ∧ read.readQuorum = 2 := ⟨_, _, rfl, rfl, rfl⟩
  have hkept := ((initialise_quorums hconfig).2.2 read rest hread).mpr
    (by rw [hwrite, hquorum, hsize]; exact ⟨by decide, by decide, by decide, by decide, by decide⟩)
  exact ⟨config, hconfig, hkept.1.trans hwrite, hkept.2.trans hquorum⟩

end ServerConfig
end LeaderlessDatastore
