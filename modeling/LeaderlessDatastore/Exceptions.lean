import LeaderlessDatastore.EntryLists

/-!
# The exceptions of the decoders

`startReceiving` catches a `runtime_error` and closes the connection; what `stoi` and `stoll`
throw is no `runtime_error`.  The patterns let every run of digits through to them, the
empty one included.
-/

namespace LeaderlessDatastore

open Pattern ServerMessage

/-- Whatever is thrown, the receiving thread catches it. -/
def Caught {α : Type} (result : Except Thrown α) : Prop :=
  ∀ thrown, result = .error thrown → thrown.isRuntimeError

/-- Digits that a conversion to a signed type of `bits` bits accepts. -/
def Fits (bits : ℕ) (digits : Text) : Prop :=
  digits ≠ [] ∧ Nat.ofDigitChars 10 digits 0 < 2 ^ (bits - 1)

/-- `digits` is read as a number by the loop over a list or at the end of the list. -/
inductive Listed (entry last : Pattern Char) : Text → Text → Prop
  | here {remaining digits rest : Text} {fields : List Text} :
    regexMatch remaining entry = some (fields ++ [digits, rest]) →
      Listed entry last remaining digits
  | later {remaining timestamp rest digits : Text} {fields : List Text} :
    regexMatch remaining entry = some (fields ++ [timestamp, rest]) →
      Listed entry last rest digits → Listed entry last remaining digits
  | last {remaining digits : Text} {fields : List Text} :
    regexMatch remaining entry = none → regexMatch remaining last = some (fields ++ [digits]) →
      Listed entry last remaining digits

/-- `digits` is a numeric field of a message of the given type, and the width it is read with. -/
inductive Number (message : Text) : MessageType → ℕ → Text → Prop
  | fetchedValue {key value timestamp : Text} :
    regexMatch message Regex.fetchedValue = some [key, value, timestamp] →
      Number message .fetchedValue 32 timestamp
  | prepare {uid key value : Text} :
    regexMatch message Regex.prepare = some [uid, key, value] → Number message .prepare 32 uid
  | voteCommitUid {uid key timestamp : Text} :
    regexMatch message Regex.voteCommit = some [uid, key, timestamp] →
      Number message .voteCommit 32 uid
  | voteCommit {uid key timestamp : Text} :
    regexMatch message Regex.voteCommit = some [uid, key, timestamp] →
      Number message .voteCommit 32 timestamp
  | voteAbort {uid key : Text} :
    regexMatch message Regex.voteAbort = some [uid, key] → Number message .voteAbort 32 uid
  | globalAbort {uid key : Text} :
    regexMatch message Regex.globalAbort = some [uid, key] → Number message .globalAbort 32 uid
  | globalCommitUid {uid key value timestamp : Text} :
    regexMatch message Regex.globalCommit = some [uid, key, value, timestamp] →
      Number message .globalCommit 32 uid
  | globalCommit {uid key value timestamp : Text} :
    regexMatch message Regex.globalCommit = some [uid, key, value, timestamp] →
      Number message .globalCommit 32 timestamp
  | repair {key value timestamp : Text} :
    regexMatch message Regex.repair = some [key, value, timestamp] →
      Number message .repair 32 timestamp
  | sync {remaining digits : Text} :
    regexMatch message Regex.syncStart = some [remaining] →
      "none".toList.isPrefixOf remaining = false →
      Listed Regex.sync Regex.syncEnd remaining digits → Number message .sync 64 digits
  | update {remaining digits : Text} :
    regexMatch message Regex.updateStart = some [remaining] →
      "none".toList.isPrefixOf remaining = false →
      Listed Regex.update Regex.updateEnd remaining digits → Number message .update 64 digits

/-- Every numeric field that a message of the given type has can be converted. -/
def NumbersFitAs (message : Text) (type : MessageType) : Prop :=
  ∀ bits digits, Number message type bits digits → Fits bits digits

/-- Every numeric field of the message can be converted. -/
def NumbersFit (s : Text) : Prop :=
  ∀ name body type, regexMatch s Regex.split = some [name, body] →
    Message.toMessageType name = .ok type → NumbersFitAs s.dropLast type

/-! ## Results that are caught -/

section Caught

variable {α β : Type} {bits : ℕ} {digits : Text}

theorem caught_ok (a : α) : Caught (.ok a : Except Thrown α) := nofun

theorem caught_error {thrown : Thrown} (h : thrown.isRuntimeError) :
    Caught (.error thrown : Except Thrown α) := by
  rintro _ ⟨⟩
  exact h

theorem caught_mismatch (name : String) : Caught (mismatch name) := caught_error rfl

theorem number_of_fits (hdigits : ∀ c ∈ digits, c.isDigit) (h : Fits bits digits) :
    number (Text.toSigned bits digits) = .ok (Nat.ofDigitChars 10 digits 0 : ℤ) := by
  have hlt : (Nat.ofDigitChars 10 digits 0 : ℤ) < 2 ^ (bits - 1) := by exact_mod_cast h.2
  rw [Text.toSigned_of_digits hdigits, if_neg h.1, if_pos hlt]
  rfl

/-- A conversion that throws is not caught. -/
theorem fits_of_caught (hdigits : ∀ c ∈ digits, c.isDigit)
    (h : Caught (number (Text.toSigned bits digits))) : Fits bits digits := by
  rw [Text.toSigned_of_digits hdigits] at h
  split_ifs at h with hempty hlt
  · cases h _ rfl
  · exact ⟨hempty, by exact_mod_cast hlt⟩
  · cases h _ rfl

theorem caught_bind_number (hdigits : ∀ c ∈ digits, c.isDigit)
    {next : ℤ → Except Thrown α} :
    Caught (number (Text.toSigned bits digits) >>= next) ↔
      Fits bits digits ∧ Caught (next (Nat.ofDigitChars 10 digits 0)) := by
  constructor
  · intro h
    have hfits : Fits bits digits := fits_of_caught hdigits fun thrown hthrown =>
      h thrown (by rw [hthrown]; rfl)
    rw [number_of_fits hdigits hfits] at h
    exact ⟨hfits, h⟩
  · rintro ⟨hfits, h⟩
    rw [number_of_fits hdigits hfits]
    exact h

/-- What stands at a place of `\d*` is digits. -/
theorem isDigit_of_match {s : Text} {pattern : Pattern Char} {groups : List Text} {n : ℕ}
    (h : regexMatch s pattern = some groups)
    (hpred : (groupPreds pattern)[n]? = some Char.isDigit) (hdigits : groups[n]? = some digits) :
    ∀ c ∈ digits, c.isDigit := by
  obtain ⟨hn, hget⟩ := List.getElem?_eq_some_iff.mp hpred
  obtain ⟨hn', hget'⟩ := List.getElem?_eq_some_iff.mp hdigits
  have := (matches_of_exec h).forall_groups.get hn hn'
  rw [List.get_eq_getElem, List.get_eq_getElem, hget, hget'] at this
  exact this

end Caught

/-! ## Messages with one record -/

section Record

variable {s digits : Text} {bits : ℕ} {type : MessageType}

theorem caught_of_no_number {α : Type} {result : Except Thrown α} (hresult : Caught result)
    (hnone : ∀ bits digits, ¬ Number s type bits digits) :
    Caught result ↔ NumbersFitAs s type :=
  iff_of_true hresult fun bits digits h => absurd h (hnone bits digits)

/-- A message with one number. -/
theorem caught_one_number {pattern : Pattern Char} {groups : List Text} (n : ℕ)
    {message : ℤ → Message Text Text} (hmatch : regexMatch s pattern = some groups)
    (hpred : (groupPreds pattern)[n]? = some Char.isDigit) (hdigits : groups[n]? = some digits)
    (hnumber : Number s type bits digits)
    (honly : ∀ bits' digits', Number s type bits' digits' → bits' = bits ∧ digits' = digits) :
    Caught (number (Text.toSigned bits digits) >>= fun n => .ok (message n)) ↔
      NumbersFitAs s type := by
  rw [caught_bind_number (isDigit_of_match hmatch hpred hdigits)]
  constructor
  · rintro ⟨hfits, -⟩ bits' digits' h
    -- the message has no other number
    obtain ⟨rfl, rfl⟩ := honly bits' digits' h
    exact hfits
  · exact fun h => ⟨h bits digits hnumber, caught_ok _⟩

/-- A message with an id at its start and a second number. -/
theorem caught_two_numbers {pattern : Pattern Char} {groups : List Text} {uid timestamp : Text}
    (n : ℕ) {message : ℤ → ℤ → Message Text Text}
    (hmatch : regexMatch s pattern = some groups)
    (huidPred : (groupPreds pattern)[0]? = some Char.isDigit)
    (hpred : (groupPreds pattern)[n]? = some Char.isDigit)
    (huid : groups[0]? = some uid) (htimestamp : groups[n]? = some timestamp)
    (hnumber : ∀ bits digits,
      Number s type bits digits ↔ bits = 32 ∧ (digits = uid ∨ digits = timestamp)) :
    Caught (number (Text.stoi uid) >>= fun uid => number (Text.stoi timestamp) >>= fun timestamp =>
      .ok (message uid timestamp)) ↔ NumbersFitAs s type := by
  rw [Text.stoi, caught_bind_number (isDigit_of_match hmatch huidPred huid), Text.stoi,
    caught_bind_number (isDigit_of_match hmatch hpred htimestamp)]
  constructor
  · rintro ⟨hfits, hfits', -⟩ bits digits h
    obtain ⟨rfl, rfl | rfl⟩ := (hnumber bits digits).mp h
    exacts [hfits, hfits']
  · intro h
    exact ⟨h _ _ ((hnumber _ _).mpr ⟨rfl, .inl rfl⟩), h _ _ ((hnumber _ _).mpr ⟨rfl, .inr rfl⟩),
      caught_ok _⟩

theorem caught_fetchedValue :
    Caught (FetchedValue.toMessage s) ↔ NumbersFitAs s .fetchedValue := by
  unfold FetchedValue.toMessage
  split
  · next key value timestamp hmatch =>
    refine caught_one_number 2 hmatch rfl rfl (.fetchedValue hmatch) fun
      | _, _, .fetchedValue h => ?_
    cases hmatch.symm.trans h
    exact ⟨rfl, rfl⟩
  · next hne =>
    refine caught_of_no_number ?_ fun | _, _, .fetchedValue h => hne _ _ _ h
    split
    exacts [caught_ok _, caught_mismatch _]

theorem caught_prepare : Caught (Prepare.toMessage s) ↔ NumbersFitAs s .prepare := by
  unfold Prepare.toMessage
  split
  · next uid key value hmatch =>
    refine caught_one_number 0 hmatch rfl rfl (.prepare hmatch) fun | _, _, .prepare h => ?_
    cases hmatch.symm.trans h
    exact ⟨rfl, rfl⟩
  · next hne => exact caught_of_no_number (caught_mismatch _) fun | _, _, .prepare h => hne _ _ _ h

theorem caught_voteCommit : Caught (VoteCommit.toMessage s) ↔ NumbersFitAs s .voteCommit := by
  unfold VoteCommit.toMessage
  split
  · next uid key timestamp hmatch =>
    refine caught_two_numbers 2 hmatch rfl rfl rfl rfl fun bits digits => ⟨fun h => ?_, ?_⟩
    · cases h with
      | voteCommitUid h | voteCommit h =>
        cases hmatch.symm.trans h
        simp
    · rintro ⟨rfl, rfl | rfl⟩
      exacts [.voteCommitUid hmatch, .voteCommit hmatch]
  · next hne =>
    exact caught_of_no_number (caught_mismatch _) fun
      | _, _, .voteCommitUid h | _, _, .voteCommit h => hne _ _ _ h

theorem caught_voteAbort : Caught (VoteAbort.toMessage s) ↔ NumbersFitAs s .voteAbort := by
  unfold VoteAbort.toMessage
  split
  · next uid key hmatch =>
    refine caught_one_number 0 hmatch rfl rfl (.voteAbort hmatch) fun | _, _, .voteAbort h => ?_
    cases hmatch.symm.trans h
    exact ⟨rfl, rfl⟩
  · next hne => exact caught_of_no_number (caught_mismatch _) fun | _, _, .voteAbort h => hne _ _ h

theorem caught_globalAbort : Caught (GlobalAbort.toMessage s) ↔ NumbersFitAs s .globalAbort := by
  unfold GlobalAbort.toMessage
  split
  · next uid key hmatch =>
    refine caught_one_number 0 hmatch rfl rfl (.globalAbort hmatch) fun
      | _, _, .globalAbort h => ?_
    cases hmatch.symm.trans h
    exact ⟨rfl, rfl⟩
  · next hne =>
    exact caught_of_no_number (caught_mismatch _) fun | _, _, .globalAbort h => hne _ _ h

theorem caught_globalCommit :
    Caught (GlobalCommit.toMessage s) ↔ NumbersFitAs s .globalCommit := by
  unfold GlobalCommit.toMessage
  split
  · next uid key value timestamp hmatch =>
    refine caught_two_numbers 3 hmatch rfl rfl rfl rfl fun bits digits => ⟨fun h => ?_, ?_⟩
    · cases h with
      | globalCommitUid h | globalCommit h =>
        cases hmatch.symm.trans h
        simp
    · rintro ⟨rfl, rfl | rfl⟩
      exacts [.globalCommitUid hmatch, .globalCommit hmatch]
  · next hne =>
    exact caught_of_no_number (caught_mismatch _) fun
      | _, _, .globalCommitUid h | _, _, .globalCommit h => hne _ _ _ _ h

theorem caught_repair : Caught (Repair.toMessage s) ↔ NumbersFitAs s .repair := by
  unfold Repair.toMessage
  split
  · next key value timestamp hmatch =>
    refine caught_one_number 2 hmatch rfl rfl (.repair hmatch) fun | _, _, .repair h => ?_
    cases hmatch.symm.trans h
    exact ⟨rfl, rfl⟩
  · next hne => exact caught_of_no_number (caught_mismatch _) fun | _, _, .repair h => hne _ _ _ h

end Record

/-! ## Lists of entries -/

section List

variable {α γ : Type} {entry last : Pattern Char}
  {read : γ → Text → Except Thrown (γ × Text)} {finish : γ × Text → Except Thrown α}

/-- A loop over the entries of a list, with what reads the last one. -/
theorem caught_list
    (hmatch : ∀ found remaining groups, regexMatch remaining entry = some groups →
      ∃ fields timestamp rest, groups = fields ++ [timestamp, rest] ∧
        (∀ c ∈ timestamp, c.isDigit) ∧ rest.length < remaining.length ∧
        ∃ next : ℤ → γ, read found remaining = number (Text.stoll timestamp) >>= fun n =>
          read (next n) rest)
    (hnone : ∀ found remaining, regexMatch remaining entry = none →
      read found remaining = .ok (found, remaining))
    (hlast : ∀ found remaining groups, regexMatch remaining last = some groups →
      ∃ fields timestamp, groups = fields ++ [timestamp] ∧ (∀ c ∈ timestamp, c.isDigit) ∧
        ∃ next : ℤ → α, finish (found, remaining) = number (Text.stoll timestamp) >>= fun n =>
          .ok (next n))
    (hend : ∀ found remaining, regexMatch remaining last = none →
      Caught (finish (found, remaining)))
    (found : γ) (remaining : Text) :
    Caught (read found remaining >>= finish) ↔
      ∀ digits, Listed entry last remaining digits → Fits 64 digits := by
  -- on the length of the list: what a match leaves is shorter
  induction hlength : remaining.length using Nat.strong_induction_on generalizing found remaining
  with
  | h length ih =>
    cases hentry : regexMatch remaining entry with
    | some groups =>
      obtain ⟨fields, timestamp, rest, rfl, hdigits, hlt, next, hread⟩ :=
        hmatch found remaining groups hentry
      rw [hread, bind_assoc, Text.stoll, caught_bind_number hdigits,
        ih rest.length (hlength ▸ hlt) _ rest rfl]
      constructor
      · rintro ⟨hfits, hrest⟩ digits h
        cases h with
        | here h =>
          have heq := Option.some.inj (hentry.symm.trans h)
          obtain ⟨-, heq⟩ := List.append_inj' heq rfl
          cases heq
          exact hfits
        | later h hlater =>
          have heq := Option.some.inj (hentry.symm.trans h)
          obtain ⟨-, heq⟩ := List.append_inj' heq rfl
          cases heq
          exact hrest digits hlater
        | last h => cases hentry.symm.trans h
      · exact fun h => ⟨h _ (.here hentry), fun digits hlater => h _ (.later hentry hlater)⟩
    | none =>
      rw [hnone found remaining hentry]
      change Caught (finish (found, remaining)) ↔ _
      cases hgroups : regexMatch remaining last with
      | some groups =>
        obtain ⟨fields, timestamp, rfl, hdigits, next, hfinish⟩ :=
          hlast found remaining groups hgroups
        rw [hfinish, Text.stoll, caught_bind_number hdigits]
        constructor
        · rintro ⟨hfits, -⟩ digits h
          cases h with
          | here h | later h _ => cases hentry.symm.trans h
          | last _ h =>
            have heq := Option.some.inj (hgroups.symm.trans h)
            obtain ⟨-, heq⟩ := List.append_inj' heq rfl
            cases heq
            exact hfits
        · exact fun h => ⟨h _ (.last hentry hgroups), caught_ok _⟩
      | none =>
        refine iff_of_true (hend found remaining hgroups) fun digits h => ?_
        cases h with
        | here h | later h _ => cases hentry.symm.trans h
        | last _ h => cases hgroups.symm.trans h

end List

/-- The start of a list, `none` or entries. -/
theorem numbersFitAs_of_listed {s remaining : Text} {type : MessageType}
    {start entry last : Pattern Char} (hstart : regexMatch s start = some [remaining])
    (hnone : "none".toList.isPrefixOf remaining = false)
    (hnumber : ∀ bits digits, Number s type bits digits ↔ bits = 64 ∧ ∃ remaining,
      regexMatch s start = some [remaining] ∧ "none".toList.isPrefixOf remaining = false ∧
        Listed entry last remaining digits) :
    NumbersFitAs s type ↔ ∀ digits, Listed entry last remaining digits → Fits 64 digits := by
  constructor
  · exact fun h digits hlisted =>
      h 64 digits ((hnumber 64 digits).mpr ⟨rfl, remaining, hstart, hnone, hlisted⟩)
  · intro h bits digits hdigits
    obtain ⟨rfl, remaining', hstart', -, hlisted⟩ := (hnumber bits digits).mp hdigits
    cases hstart.symm.trans hstart'
    exact h digits hlisted

theorem caught_sync {s : Text} : Caught (Sync.toMessage s) ↔ NumbersFitAs s .sync := by
  unfold Sync.toMessage
  split
  · next remaining hstart =>
    split_ifs with hnone
    · refine caught_of_no_number (caught_ok _) fun | _, _, .sync hstart' hnone' _ => ?_
      cases hstart.symm.trans hstart'
      cases hnone.symm.trans hnone'
    · rw [numbersFitAs_of_listed hstart (Bool.eq_false_iff.mpr hnone) fun bits digits =>
        ⟨fun | .sync h h' h'' => ⟨rfl, _, h, h', h''⟩,
          fun ⟨hbits, _, h, h', h''⟩ => hbits ▸ .sync h h' h''⟩]
      refine caught_list ?_ (fun found remaining => Sync.entries_of_none) ?_ ?_ [] remaining
      · intro found remaining groups hmatch
        obtain ⟨key, timestamp, rest, rfl⟩ := List.length_eq_three.mp
          (matches_of_exec hmatch).forall_groups.length_eq.symm
        have hlength := (matches_of_exec hmatch).length_le
          (show rest ∈ [key, timestamp, rest] by simp)
        have hpos : 0 < literalLength Regex.sync := by decide
        exact ⟨[key], timestamp, rest, rfl, isDigit_of_match (n := 1) hmatch rfl rfl, by omega,
          _, Sync.entries_of_match hmatch⟩
      · intro found remaining groups hmatch
        obtain ⟨key, timestamp, rfl⟩ := List.length_eq_two.mp
          (matches_of_exec hmatch).forall_groups.length_eq.symm
        refine ⟨[key], timestamp, rfl, isDigit_of_match (n := 1) hmatch rfl rfl,
          fun n => .sync (emplace found key n), ?_⟩
        simp only [hmatch]
      · intro found remaining hmatch
        simp only [hmatch]
        exact caught_mismatch _
  · next hne => exact caught_of_no_number (caught_mismatch _) fun | _, _, .sync h _ _ => hne _ h

theorem caught_update {s : Text} : Caught (Update.toMessage s) ↔ NumbersFitAs s .update := by
  unfold Update.toMessage
  split
  · next remaining hstart =>
    split_ifs with hnone
    · refine caught_of_no_number (caught_ok _) fun | _, _, .update hstart' hnone' _ => ?_
      cases hstart.symm.trans hstart'
      cases hnone.symm.trans hnone'
    · rw [numbersFitAs_of_listed hstart (Bool.eq_false_iff.mpr hnone) fun bits digits =>
        ⟨fun | .update h h' h'' => ⟨rfl, _, h, h', h''⟩,
          fun ⟨hbits, _, h, h', h''⟩ => hbits ▸ .update h h' h''⟩]
      refine caught_list ?_ (fun found remaining => Update.newValues_of_none) ?_ ?_ [] remaining
      · intro found remaining groups hmatch
        obtain ⟨key, value, timestamp, rest, rfl⟩ := List.length_eq_four.mp
          (matches_of_exec hmatch).forall_groups.length_eq.symm
        have hlength := (matches_of_exec hmatch).length_le
          (show rest ∈ [key, value, timestamp, rest] by simp)
        have hpos : 0 < literalLength Regex.update := by decide
        exact ⟨[key, value], timestamp, rest, rfl, isDigit_of_match (n := 2) hmatch rfl rfl,
          by omega, _, Update.newValues_of_match hmatch⟩
      · intro found remaining groups hmatch
        obtain ⟨key, value, timestamp, rfl⟩ := List.length_eq_three.mp
          (matches_of_exec hmatch).forall_groups.length_eq.symm
        refine ⟨[key, value], timestamp, rfl, isDigit_of_match (n := 2) hmatch rfl rfl,
          fun n => .update (emplace found key (value, n)), ?_⟩
        simp only [hmatch]
      · intro found remaining hmatch
        simp only [hmatch]
        exact caught_mismatch _
  · next hne => exact caught_of_no_number (caught_mismatch _) fun | _, _, .update h _ _ => hne _ h

/-! ## All messages -/

theorem caught_toMessageOf (type : MessageType) (message : Text) :
    Caught (toMessageOf type message) ↔ NumbersFitAs message type := by
  cases type with
  | get =>
    refine caught_of_no_number ?_ fun _ _ h => by cases h
    simp only [toMessageOf, Get.toMessage]
    split
    exacts [caught_ok _, caught_mismatch _]
  | put =>
    refine caught_of_no_number ?_ fun _ _ h => by cases h
    simp only [toMessageOf, Put.toMessage]
    split
    exacts [caught_ok _, caught_mismatch _]
  | fetch =>
    refine caught_of_no_number ?_ fun _ _ h => by cases h
    simp only [toMessageOf, Fetch.toMessage]
    split
    exacts [caught_ok _, caught_mismatch _]
  | fetchedValue => exact caught_fetchedValue
  | prepare => exact caught_prepare
  | voteCommit => exact caught_voteCommit
  | voteAbort => exact caught_voteAbort
  | globalAbort => exact caught_globalAbort
  | globalCommit => exact caught_globalCommit
  | repair => exact caught_repair
  | sync => exact caught_sync
  | update => exact caught_update
  | _ => exact caught_of_no_number (caught_error rfl) fun _ _ h => by cases h

theorem caught_toMessageType (name : Text) : Caught (Message.toMessageType name) := by
  have helse : ∀ {c : Prop} [Decidable c] {type : MessageType} {rest : Except Thrown MessageType},
      Caught rest → Caught (if c then .ok type else rest) := by
    intro c _ type rest h
    split_ifs
    exacts [caught_ok type, h]
  unfold Message.toMessageType
  repeat refine helse ?_
  exact caught_error rfl

/-- The decoder that is tried first has no numbers to convert. -/
theorem caught_common (s : Text) : Caught (Message.toMessage s) := by
  unfold Message.toMessage
  split
  · next name _ _ =>
    cases htype : Message.toMessageType name with
    | error thrown => exact caught_error (caught_toMessageType name thrown htype)
    | ok type =>
      cases type with
      | ack =>
        change Caught (Message.Ack.toMessage s.dropLast)
        unfold Message.Ack.toMessage
        split
        exacts [caught_ok _, caught_mismatch _]
      | nack =>
        change Caught (Message.Nack.toMessage s.dropLast)
        unfold Message.Nack.toMessage
        split
        exacts [caught_ok _, caught_mismatch _]
      | value =>
        change Caught (Message.Value.toMessage s.dropLast)
        unfold Message.Value.toMessage
        split
        exacts [caught_ok _, caught_mismatch _]
      | _ => exact caught_error rfl
  · exact caught_error rfl

theorem numbersFit_of_common {s : Text} {message : Message Text Text}
    (h : Message.toMessage s = .ok message) : NumbersFit s := by
  intro name body type hsplit htype
  simp only [Message.toMessage, hsplit, htype] at h
  cases type with
  | ack | nack | value =>
    intro _ _ h
    cases h
  | _ => cases h

/-- A replica survives a message exactly when all its numbers can be converted. -/
theorem ServerMessage.caught_toMessage_iff (s : Text) : Caught (toMessage s) ↔ NumbersFit s := by
  cases hcommon : Message.toMessage s with
  | ok message =>
    rw [toMessage, hcommon]
    exact iff_of_true (caught_ok message) (numbersFit_of_common hcommon)
  | error thrown =>
    simp only [toMessage, hcommon, caught_common s thrown hcommon, if_true]
    cases hsplit : regexMatch s Regex.split with
    | none =>
      refine iff_of_true (caught_error rfl) fun _ _ _ hsplit' => ?_
      cases hsplit.symm.trans hsplit'
    | some groups =>
      obtain ⟨name, body, rfl⟩ := List.length_eq_two.mp
        (matches_of_exec hsplit).forall_groups.length_eq.symm
      change Caught (Message.toMessageType name >>= fun type => toMessageOf type s.dropLast) ↔ _
      cases htype : Message.toMessageType name with
      | error thrown =>
        refine iff_of_true (caught_error (caught_toMessageType name thrown htype))
          fun name' body' type hsplit' htype' => ?_
        cases hsplit.symm.trans hsplit'
        cases htype.symm.trans htype'
      | ok type =>
        change Caught (toMessageOf type s.dropLast) ↔ _
        rw [caught_toMessageOf]
        constructor
        · intro h name' body' type' hsplit' htype'
          cases hsplit.symm.trans hsplit'
          cases htype.symm.trans htype'
          exact h
        · exact fun h => h name body type hsplit htype

/-- One line that ends the whole replica. -/
theorem ServerMessage.toMessage_not_caught :
    toMessage ("VOTE_ABORT; tId:, k:\"a\"".toList ++ [escape]) =
      .error (.conversion .invalidArgument) ∧ ¬ ∀ s, Caught (toMessage s) := by
  have herror : toMessage ("VOTE_ABORT; tId:, k:\"a\"".toList ++ [escape]) =
    .error (.conversion .invalidArgument) := by decide +kernel
  exact ⟨herror, fun h => by cases h _ _ herror⟩

end LeaderlessDatastore
