import LeaderlessDatastore.Encoding

/-!
# Lists of entries

The entries of a `SYNC` and of an `UPDATE`.  The decoder takes one entry after the other
off the list; each one reaches as far as the first text that can end it.
-/

namespace LeaderlessDatastore

open Pattern Regex

/-- What ends an entry that is not the last one. -/
def entryEnd : Pattern Char := [lit "\",", space, lit "ts:", digits, lit "),"]

/-- An entry could end inside the text. -/
def HoldsEnd (t : Text) : Prop :=
  ∃ front delimiter after groups, t = front ++ (delimiter ++ after) ∧
    Matches sameLetter entryEnd delimiter groups

section Append

variable {α : Type*} {a : α} {front rest start stop : List α}

/-- Two places of one character, the second one its last place. -/
theorem append_cons_eq (h : front ++ a :: rest = start ++ a :: stop) (ha : a ∉ stop) :
    (∃ middle, start = front ++ a :: middle ∧ rest = middle ++ a :: stop) ∨
      front = start ∧ rest = stop := by
  rcases List.append_eq_append_iff.mp h with ⟨middle, rfl, hmiddle⟩ | ⟨middle, rfl, hmiddle⟩
  · cases middle with
    | nil => exact .inr ⟨by simp, (List.cons.inj hmiddle).2⟩
    | cons b middle =>
      obtain ⟨rfl, hrest⟩ := List.cons.inj hmiddle
      exact .inl ⟨middle, rfl, hrest⟩
  · cases middle with
    | nil => exact .inr ⟨by simp, (List.cons.inj hmiddle).2.symm⟩
    | cons b middle =>
      obtain ⟨-, hstop⟩ := List.cons.inj hmiddle
      exact absurd (by simp [hstop]) ha

end Append

section Ends

variable {t front middle tail delimiter after rest key : Text} {items : Pattern Char}
  {groups : List Text} {n : ℤ}

theorem entryEnd_quote (h : Matches sameLetter entryEnd delimiter groups) :
    ∃ rest, delimiter = '"' :: rest ∧ '"' ∉ rest := by
  have hcount : delimiter.count '"' = 1 := h.count_eq sharp_quote
    (by simp [entryEnd, Excludes, lit, space, digits, Text.isSpace])
  obtain ⟨_, behind, rfl, hcomma, -⟩ := h
  obtain ⟨comma, rfl⟩ := sharp_quote.cons [','] hcomma
  refine ⟨comma ++ behind, rfl, List.count_eq_zero.mp ?_⟩
  rw [List.cons_append, List.count_cons_self] at hcount
  omega

theorem not_holdsEnd_of_not_mem (h : '"' ∉ t) : ¬ HoldsEnd t := by
  rintro ⟨front, delimiter, after, groups, rfl, hmatch⟩
  obtain ⟨rest, rfl, -⟩ := entryEnd_quote hmatch
  exact h (by simp)

/-- Nor does one end at a quote in the text and behind the text. -/
theorem not_matches_entryEnd (h : ¬ HoldsEnd t) (ht : t = front ++ middle) (hmiddle : middle ≠ [])
    (heq : middle ++ '"' :: tail = delimiter ++ after) :
    ¬ Matches sameLetter entryEnd delimiter groups := by
  intro hmatch
  obtain ⟨rest, rfl, hrest⟩ := entryEnd_quote hmatch
  obtain ⟨c, middle, rfl⟩ := List.exists_cons_of_ne_nil hmiddle
  obtain ⟨rfl, heq'⟩ := List.cons.inj heq
  obtain ⟨more, rfl, -⟩ := append_left_of_not_mem heq'.symm hrest
  exact h ⟨front, _, more, groups, by simp [ht], hmatch⟩

/-- A text in which no entry can end is read whole. -/
theorem exec_whole (h : ¬ HoldsEnd t) (hdot : ∀ c ∈ t, isDot c)
    (hrest : exec sameLetter (entryEnd ++ items) ('"' :: tail) = some groups) :
    exec sameLetter (text :: (entryEnd ++ items)) (t ++ '"' :: tail) = some (t :: groups) := by
  refine exec_lazy hdot hrest fun front middle ht hmiddle => exec_eq_none fun groups' hmatch => ?_
  obtain ⟨delimiter, after, groups₁, groups₂, heq, -, hend, -⟩ := matches_append.mp hmatch
  exact not_matches_entryEnd h ht hmiddle heq hend

theorem exec_entryEnd (hn : 0 ≤ n) (hrest : exec sameLetter items rest = some groups) :
    exec sameLetter (entryEnd ++ items)
      ("\", ts:".toList ++ (Text.ofInt n ++ ("),".toList ++ rest))) =
        some (Text.ofInt n :: groups) := by
  have hclose : exec sameLetter (lit ")," :: items) ("),".toList ++ rest) = some groups :=
    (exec_lit sameLetter_refl "),".toList rest).trans hrest
  have hdigits : exec sameLetter (digits :: lit ")," :: items)
      (Text.ofInt n ++ ("),".toList ++ rest)) = some (Text.ofInt n :: groups) :=
    exec_greedy _ (fun c => isDigit_of_mem_ofInt hn) (by simp) hclose
  have hspace := exec_space (by simp [Text.isSpace])
    ((exec_lit sameLetter_refl "ts:".toList _).trans hdigits)
  exact (exec_lit sameLetter_refl "\",".toList _).trans hspace

theorem exec_text (hdot : ∀ c ∈ t, isDot c) : exec sameLetter [text] t = some [t] := by
  have hlazy : exec sameLetter [text] (t ++ []) = some [t] :=
    exec_lazy hdot rfl fun front middle _ hmiddle => by simp [exec, hmiddle]
  rwa [List.append_nil] at hlazy

/-- The last entry has one comma too few behind its last quote. -/
theorem not_matches_last (h : ¬ HoldsEnd t) (hn : 0 ≤ n)
    (heq : t ++ ("\", ts:".toList ++ (Text.ofInt n ++ ")".toList)) =
      front ++ (delimiter ++ after)) :
    ¬ Matches sameLetter entryEnd delimiter groups := by
  intro hmatch
  have hdigits : ∀ c ∈ Text.ofInt n, c ≠ '"' ∧ c ≠ ',' := by
    intro c hc
    have hdigit := isDigit_of_mem_ofInt hn hc
    constructor <;> rintro rfl <;> simp at hdigit
  have hcommas : delimiter.count ',' = 2 :=
    hmatch.count_eq (sharp_of_not_isAlpha rfl)
      (by simp [entryEnd, Excludes, lit, space, digits, Text.isSpace])
  obtain ⟨rest, rfl, -⟩ := entryEnd_quote hmatch
  have hquote : '"' ∉ ", ts:".toList ++ (Text.ofInt n ++ ")".toList) := by
    simp only [List.mem_append, not_or]
    exact ⟨by simp, fun hmem => (hdigits _ hmem).1 rfl, by simp⟩
  have heq' : front ++ '"' :: (rest ++ after) =
      t ++ '"' :: (", ts:".toList ++ (Text.ofInt n ++ ")".toList)) := by simpa using heq.symm
  rcases append_cons_eq heq' hquote with
    ⟨middle, rfl, hmiddle⟩ | ⟨-, htail⟩
  · have hquoted : ('"' :: middle) ++ '"' :: (", ts:".toList ++ (Text.ofInt n ++ ")".toList)) =
        '"' :: rest ++ after := by simp [hmiddle]
    exact not_matches_entryEnd h rfl (by simp) hquoted hmatch
  · have hone : (", ts:".toList ++ (Text.ofInt n ++ ")".toList)).count ',' = 1 := by
      have hzero := List.count_eq_zero.mpr fun hmem => (hdigits ',' hmem).2 rfl
      simp [hzero]
    have hcount := congrArg (List.count ',') htail
    rw [hone, List.count_append] at hcount
    rw [List.count_cons_of_ne (by decide)] at hcommas
    omega

end Ends

/-! ## One entry -/

section Entry

variable {key value rest : Text} {n : ℤ}

/-- An entry without the comma and the blank that follow it in a list. -/
def ServerMessage.Sync.record (entry : Text × ℤ) : Text :=
  "(k:\"".toList ++ (entry.1 ++ ("\", ts:".toList ++ (Text.ofInt entry.2 ++ ")".toList)))

def ServerMessage.Update.record (entry : Text × Text × ℤ) : Text :=
  "(k:\"".toList ++ (entry.1 ++ ("\", v:\"".toList ++ (entry.2.1 ++
    ("\", ts:".toList ++ (Text.ofInt entry.2.2 ++ ")".toList)))))

/-- What follows an entry in a list. -/
structure Follows (rest : Text) : Prop where
  head : ∀ c ∈ rest.head?, ¬ Text.isSpace c
  isDot : ∀ c ∈ rest, isDot c

theorem Follows.append {front : Text} (hfront : Follows front) (hrest : Follows rest) :
    Follows (front ++ rest) where
  head := by
    cases front with
    | nil => exact hrest.head
    | cons c front => exact hfront.head
  isDot := List.forall_mem_append.mpr ⟨hfront.isDot, hrest.isDot⟩

theorem exec_next (hn : 0 ≤ n) (hrest : Follows rest) :
    exec sameLetter (entryEnd ++ [space, text])
      ("\", ts:".toList ++ (Text.ofInt n ++ ("), ".toList ++ rest))) = some [Text.ofInt n, rest] :=
  exec_entryEnd hn (exec_space hrest.head (exec_text hrest.isDot))

theorem regexMatch_sync (hkey : ¬ HoldsEnd key) (hdot : ∀ c ∈ key, isDot c) (hn : 0 ≤ n)
    (hrest : Follows rest) :
    regexMatch (ServerMessage.Sync.entry (key, n) ++ rest) sync =
      some [key, Text.ofInt n, rest] := by
  have htext : ServerMessage.Sync.entry (key, n) ++ rest = "(k:\"".toList ++ (key ++
      ("\", ts:".toList ++ (Text.ofInt n ++ ("), ".toList ++ rest)))) := by
    unfold ServerMessage.Sync.entry
    simp
  have hpattern : sync = lit "(k:\"" :: text :: (entryEnd ++ [space, text]) := rfl
  rw [htext, hpattern, regexMatch, lit, exec_lit sameLetter_refl]
  exact exec_whole hkey hdot (exec_next hn hrest)

theorem regexMatch_update (hkey : Keyable key) (hvalue : ¬ HoldsEnd value)
    (hdot : ∀ c ∈ value, isDot c) (hn : 0 ≤ n) (hrest : Follows rest) :
    regexMatch (ServerMessage.Update.entry (key, value, n) ++ rest) update =
      some [key, value, Text.ofInt n, rest] := by
  have htext : ServerMessage.Update.entry (key, value, n) ++ rest = "(k:\"".toList ++ (key ++
      ("\", v:\"".toList ++ (value ++
        ("\", ts:".toList ++ (Text.ofInt n ++ ("), ".toList ++ rest)))))) := by
    unfold ServerMessage.Update.entry
    simp
  have hpattern : update = lit "(k:\"" ::
      text :: (valueStart ++ text :: (entryEnd ++ [space, text])) := rfl
  rw [htext, hpattern, regexMatch, lit, exec_lit sameLetter_refl]
  exact exec_key hkey (exec_whole hvalue hdot (exec_next hn hrest))

/-- The loop stops in front of the last entry. -/
theorem regexMatch_sync_record (hkey : ¬ HoldsEnd key) (hn : 0 ≤ n) :
    regexMatch (ServerMessage.Sync.record (key, n)) sync = none := by
  have hpattern : sync = [lit "(k:\"", text] ++ (entryEnd ++ [space, text]) := rfl
  rw [regexMatch, hpattern]
  refine exec_eq_none fun groups hmatch => ?_
  obtain ⟨_, _, _, _, heq, -, ⟨start, _, rfl, hstart, run, _, _, rfl, -, ⟨rfl, -⟩, -⟩, hend⟩ :=
    matches_append.mp hmatch
  obtain ⟨delimiter, after, _, _, rfl, -, hdelimiter, -⟩ := matches_append.mp hend
  rw [ServerMessage.Sync.record, List.append_nil, List.append_assoc] at heq
  exact not_matches_last hkey hn (List.append_inj heq hstart.length_eq).2 hdelimiter

/-- A value that starts behind the key starts in its value. -/
theorem Keyable.exists_append {run delimiter after t : Text} {groups : List Text}
    (hkey : Keyable key) (hmatch : Matches sameLetter valueStart delimiter groups)
    (heq : key ++ ("\", v:\"".toList ++ t) = run ++ (delimiter ++ after)) :
    ∃ front, t = front ++ after := by
  have hnil : groups = [] := by
    obtain ⟨_, _, -, -, _, _, _, -, -, ⟨_, _, -, -, -, rfl⟩, rfl⟩ := hmatch
    rfl
  subst hnil
  obtain ⟨more, hmore⟩ : ∃ more, "\", v:\"".toList ++ t = more ++ (delimiter ++ after) := by
    rcases List.append_eq_append_iff.mp heq with ⟨more, -, hmore⟩ | ⟨more, hsplit, hmore⟩
    · exact ⟨more, hmore⟩
    · by_cases hempty : more = []
      · exact ⟨[], by simp [hmore, hempty]⟩
      · exact absurd hmatch (hkey.not_matches hsplit hempty hmore.symm)
  have hquotes : "\", v:\"".toList ++ t = '"' :: (", v:".toList ++ '"' :: t) := by simp
  rw [hquotes] at hmore
  obtain ⟨middle, rfl, -⟩ := valueStart_ends hmatch
  -- the second quote of the delimiter is the second one here or a later one
  obtain ⟨before, hbefore⟩ : ∃ before, ", v:".toList ++ '"' :: t = before ++ '"' :: after := by
    cases more with
    | nil => exact ⟨middle, by simpa using hmore⟩
    | cons c more =>
      obtain ⟨-, htail⟩ := List.cons.inj hmore
      exact ⟨more ++ '"' :: middle, by simpa using htail⟩
  obtain ⟨front, -, hfront⟩ := append_left_of_not_mem hbefore (by simp)
  cases front with
  | nil => exact ⟨[], (List.cons.inj hfront).2⟩
  | cons c front => exact ⟨front ++ ['"'], by simpa using (List.cons.inj hfront).2⟩

theorem regexMatch_update_record (hkey : Keyable key) (hvalue : ¬ HoldsEnd value) (hn : 0 ≤ n) :
    regexMatch (ServerMessage.Update.record (key, value, n)) update = none := by
  have hpattern : update =
      [lit "(k:\"", text] ++ (valueStart ++ ([text] ++ (entryEnd ++ [space, text]))) := rfl
  rw [regexMatch, hpattern]
  refine exec_eq_none fun groups hmatch => ?_
  obtain ⟨_, _, _, _, heq, -, ⟨start, _, rfl, hstart, run, _, _, rfl, -, ⟨rfl, -⟩, -⟩, hbehind⟩ :=
    matches_append.mp hmatch
  obtain ⟨delimiter, _, _, _, rfl, -, hdelimiter, hvalues⟩ := matches_append.mp hbehind
  obtain ⟨middle, _, _, _, rfl, -, -, hend⟩ := matches_append.mp hvalues
  obtain ⟨delimiter', after, _, _, rfl, -, hdelimiter', -⟩ := matches_append.mp hend
  rw [ServerMessage.Update.record, List.append_nil, List.append_assoc] at heq
  obtain ⟨front, hfront⟩ :=
    hkey.exists_append hdelimiter (List.append_inj heq hstart.length_eq).2
  exact not_matches_last hvalue hn (hfront.trans (List.append_assoc ..).symm) hdelimiter'

theorem exec_lastTimestamp (hn : 0 ≤ n) :
    exec sameLetter [lit "\",", space, lit "ts:", digits, lit ")"]
      ("\", ts:".toList ++ (Text.ofInt n ++ ")".toList)) = some [Text.ofInt n] := by
  have hdigits : exec sameLetter [digits, lit ")"] (Text.ofInt n ++ ")".toList) =
      some [Text.ofInt n] :=
    exec_greedy _ (fun c => isDigit_of_mem_ofInt hn) (by simp) (by decide)
  have hspace := exec_space (by simp [Text.isSpace])
    ((exec_lit sameLetter_refl "ts:".toList _).trans hdigits)
  exact (exec_lit sameLetter_refl "\",".toList _).trans hspace

theorem exec_last (hdot : ∀ c ∈ value, isDot c) (hn : 0 ≤ n) :
    exec sameLetter [text, lit "\",", space, lit "ts:", digits, lit ")"]
      (value ++ ("\", ts:".toList ++ (Text.ofInt n ++ ")".toList))) =
        some [value, Text.ofInt n] :=
  exec_quoted [','] (by simp [Excludes, space, digits, lit, Text.isSpace]) (by decide)
    hdot (exec_lastTimestamp hn)

theorem regexMatch_syncEnd (hdot : ∀ c ∈ key, isDot c) (hn : 0 ≤ n) :
    regexMatch (ServerMessage.Sync.record (key, n)) syncEnd = some [key, Text.ofInt n] := by
  rw [ServerMessage.Sync.record, syncEnd, regexMatch, lit, exec_lit sameLetter_refl]
  exact exec_last hdot hn

theorem regexMatch_updateEnd (hkey : Keyable key) (hdot : ∀ c ∈ value, isDot c) (hn : 0 ≤ n) :
    regexMatch (ServerMessage.Update.record (key, value, n)) updateEnd =
      some [key, value, Text.ofInt n] := by
  have hpattern : updateEnd = lit "(k:\"" :: text ::
      (valueStart ++ [text, lit "\",", space, lit "ts:", digits, lit ")"]) := rfl
  rw [ServerMessage.Update.record, hpattern, regexMatch, lit, exec_lit sameLetter_refl]
  exact exec_key hkey (exec_last hdot hn)

end Entry

/-! ## The loop -/

section Loop

variable {γ : Type} {entry : Text × γ → Text} {good : Text × γ → Prop}
  {read : List (Text × γ) → Text → Except Thrown (List (Text × γ) × Text)}

theorem emplace_new {found : List (Text × γ)} {e : Text × γ} (h : e.1 ∉ found.map Prod.fst) :
    emplace found e.1 e.2 = found ++ [e] := if_neg h

theorem follows_flatMap {entries : List (Text × γ)} {rest : Text}
    (hentries : ∀ e ∈ entries, Follows (entry e)) (hrest : Follows rest) :
    Follows (entries.flatMap entry ++ rest) := by
  induction entries with
  | nil => exact hrest
  | cons e entries ih =>
    rw [List.flatMap_cons, List.append_assoc]
    exact (hentries e List.mem_cons_self).append
      (ih fun e' he' => hentries e' (List.mem_cons_of_mem e he'))

/-- A loop that takes one entry after the other takes all of them, in their order. -/
theorem read_entries
    (hread : ∀ found e rest, good e → e.1 ∉ found.map Prod.fst → Follows rest →
      read found (entry e ++ rest) = read (found ++ [e]) rest)
    (hentry : ∀ e, good e → Follows (entry e))
    (found : List (Text × γ)) {entries : List (Text × γ)} {rest : Text}
    (hgood : ∀ e ∈ entries, good e)
    (hnodup : ((found ++ entries).map Prod.fst).Nodup) (hrest : Follows rest) :
    read found (entries.flatMap entry ++ rest) = read (found ++ entries) rest := by
  induction entries generalizing found with
  | nil => simp
  | cons e entries ih =>
    have happend : found ++ e :: entries = found ++ [e] ++ entries := by simp
    rw [happend] at hnodup ⊢
    have hgood' : ∀ e' ∈ entries, good e' := fun e' he' => hgood e' (List.mem_cons_of_mem e he')
    have hnew : e.1 ∉ found.map Prod.fst := by
      rw [List.map_append, List.map_append] at hnodup
      have hdisjoint := (List.nodup_append.mp (List.nodup_append.mp hnodup).1).2.2
      exact fun hmem => hdisjoint _ hmem _ (List.mem_singleton.mpr rfl) rfl
    have hfollows : Follows (entries.flatMap entry ++ rest) :=
      follows_flatMap (fun e' he' => hentry e' (hgood' e' he')) hrest
    rw [List.flatMap_cons, List.append_assoc]
    exact (hread found e _ (hgood e List.mem_cons_self) hnew hfollows).trans (ih _ hgood' hnodup)

theorem number_stoll {n : ℤ} (h : 0 ≤ n ∧ n < 2 ^ 63) :
    number (Text.stoll (Text.ofInt n)) = .ok n := by
  rw [Text.stoll, Text.toSigned_ofInt h.1 h.2]
  rfl

end Loop

namespace ServerMessage

theorem Sync.entries_of_match {found : List (Text × ℤ)} {remaining key timestamp rest : Text}
    (h : regexMatch remaining Regex.sync = some [key, timestamp, rest]) :
    Sync.entries found remaining = (do
      Sync.entries (emplace found key (← number (Text.stoll timestamp))) rest) := by
  rw [Sync.entries]
  split
  · next heq =>
    cases heq.symm.trans h
    rfl
  · next hne => exact absurd h (hne _ _ _)

theorem Sync.entries_of_none {found : List (Text × ℤ)} {remaining : Text}
    (h : regexMatch remaining Regex.sync = none) :
    Sync.entries found remaining = .ok (found, remaining) := by
  rw [Sync.entries]
  split
  · next heq => cases heq.symm.trans h
  · rfl

theorem Update.newValues_of_match {found : List (Text × Text × ℤ)}
    {remaining key value timestamp rest : Text}
    (h : regexMatch remaining Regex.update = some [key, value, timestamp, rest]) :
    Update.newValues found remaining = (do
      Update.newValues (emplace found key (value, ← number (Text.stoll timestamp))) rest) := by
  rw [Update.newValues]
  split
  · next heq =>
    cases heq.symm.trans h
    rfl
  · next hne => exact absurd h (hne _ _ _ _)

theorem Update.newValues_of_none {found : List (Text × Text × ℤ)} {remaining : Text}
    (h : regexMatch remaining Regex.update = none) :
    Update.newValues found remaining = .ok (found, remaining) := by
  rw [Update.newValues]
  split
  · next heq => cases heq.symm.trans h
  · rfl

/-- An entry of a `SYNC` that is read back. -/
structure Sync.Readable (e : Text × ℤ) : Prop where
  ends : ¬ HoldsEnd e.1
  isDot : ∀ c ∈ e.1, LeaderlessDatastore.isDot c
  version : 0 ≤ e.2 ∧ e.2 < 2 ^ 63

/-- An entry of an `UPDATE` that is read back. -/
structure Update.Readable (e : Text × Text × ℤ) : Prop where
  key : Keyable e.1
  ends : ¬ HoldsEnd e.2.1
  isDot : ∀ c ∈ e.2.1, LeaderlessDatastore.isDot c
  version : 0 ≤ e.2.2 ∧ e.2.2 < 2 ^ 63

theorem Sync.entries_entry {found : List (Text × ℤ)} {e : Text × ℤ} {rest : Text}
    (he : Readable e) (hnew : e.1 ∉ found.map Prod.fst) (hrest : Follows rest) :
    Sync.entries found (entry e ++ rest) = Sync.entries (found ++ [e]) rest := by
  rw [entries_of_match (regexMatch_sync he.ends he.isDot he.version.1 hrest),
    number_stoll he.version, ← emplace_new hnew]
  rfl

theorem Update.newValues_entry {found : List (Text × Text × ℤ)} {e : Text × Text × ℤ}
    {rest : Text} (he : Readable e) (hnew : e.1 ∉ found.map Prod.fst) (hrest : Follows rest) :
    Update.newValues found (entry e ++ rest) = Update.newValues (found ++ [e]) rest := by
  rw [newValues_of_match (regexMatch_update he.key he.ends he.isDot he.version.1 hrest),
    number_stoll he.version, ← emplace_new hnew]
  rfl

theorem Sync.follows_record {e : Text × ℤ} (hkey : ∀ c ∈ e.1, isDot c) (hversion : 0 ≤ e.2) :
    Follows (record e) where
  head := by simp [record, Text.isSpace]
  isDot := by
    simp only [record, List.forall_mem_append]
    exact ⟨by simp [isDot], hkey, by simp [isDot], isDot_ofInt hversion, by simp [isDot]⟩

theorem Update.follows_record {e : Text × Text × ℤ} (hkey : ∀ c ∈ e.1, isDot c)
    (hvalue : ∀ c ∈ e.2.1, isDot c) (hversion : 0 ≤ e.2.2) : Follows (record e) where
  head := by simp [record, Text.isSpace]
  isDot := by
    simp only [record, List.forall_mem_append]
    exact ⟨by simp [isDot], hkey, by simp [isDot], hvalue, by simp [isDot],
      isDot_ofInt hversion, by simp [isDot]⟩

theorem Sync.entry_eq (e : Text × ℤ) : entry e = record e ++ ", ".toList := by
  unfold entry record
  simp

theorem Update.entry_eq (e : Text × Text × ℤ) : entry e = record e ++ ", ".toList := by
  unfold entry record
  simp

end ServerMessage

section Whole

variable {γ : Type} {entry record : Text × γ → Text}

/-- The two `pop_back`s take the comma and the blank behind the last entry. -/
theorem dropLast_flatMap (hentry : ∀ e, entry e = record e ++ ", ".toList) (header : Text)
    (entries : List (Text × γ)) (last : Text × γ) :
    (header ++ (entries ++ [last]).flatMap entry).dropLast.dropLast =
      header ++ (entries.flatMap entry ++ record last) := by
  have htext : header ++ (entries ++ [last]).flatMap entry =
      header ++ (entries.flatMap entry ++ record last) ++ [','] ++ [' '] := by
    simp [hentry]
  rw [htext, List.dropLast_concat, List.dropLast_concat]

theorem follows_entry (hentry : ∀ e, entry e = record e ++ ", ".toList) {e : Text × γ}
    (h : Follows (record e)) : Follows (entry e) :=
  hentry e ▸ h.append ⟨by simp [Text.isSpace], by simp [isDot]⟩

theorem regexMatch_start {name body : Text} {word : String} {c : Char}
    (hname : ∀ c ∈ name, c.isUpper || c = '_') (hword : word.toList = name ++ [';'])
    (hbody : Follows body) (hclose : ∃ front, body = front ++ [c])
    (hc : Text.isSpace c = false := by rfl) :
    regexMatch (name ++ ';' :: ' ' :: body) [space, lit word, space, text, space] =
      some [body] := by
  obtain ⟨front, rfl⟩ := hclose
  exact regexMatch_of_exec hname hword hbody.head (exec_trimmed hbody.isDot hc)

end Whole

/-! ## The two messages -/

namespace ServerMessage

theorem Sync.Readable.follows {e : Text × ℤ} (he : Readable e) : Follows (record e) :=
  follows_record he.isDot he.version.1

theorem Update.Readable.follows {e : Text × Text × ℤ} (he : Readable e) : Follows (record e) :=
  follows_record he.key.isDot he.isDot he.version.1

theorem Sync.entries_list {entries : List (Text × ℤ)} {rest : Text}
    (hnodup : (entries.map Prod.fst).Nodup) (hentries : ∀ e ∈ entries, Readable e)
    (hrest : Follows rest) :
    Sync.entries [] (entries.flatMap entry ++ rest) = Sync.entries entries rest :=
  read_entries (fun _ _ _ => entries_entry) (fun _ he => follows_entry entry_eq he.follows)
    [] hentries hnodup hrest

theorem Update.newValues_list {entries : List (Text × Text × ℤ)} {rest : Text}
    (hnodup : (entries.map Prod.fst).Nodup) (hentries : ∀ e ∈ entries, Readable e)
    (hrest : Follows rest) :
    Update.newValues [] (entries.flatMap entry ++ rest) = Update.newValues entries rest :=
  read_entries (fun _ _ _ => newValues_entry) (fun _ he => follows_entry entry_eq he.follows)
    [] hentries hnodup hrest

end ServerMessage

section Messages

open ServerMessage

theorem nodup_init {γ : Type} {front : List (Text × γ)} {last : Text × γ}
    (h : ((front ++ [last]).map Prod.fst).Nodup) :
    (front.map Prod.fst).Nodup ∧ last.1 ∉ front.map Prod.fst := by
  rw [List.map_append, List.nodup_append] at h
  exact ⟨h.1, fun hmem => h.2.2 _ hmem _ (List.mem_singleton.mpr rfl) rfl⟩

theorem exists_close (front : Text) {t : Text} {c : Char} (h : ∃ init, t = init ++ [c]) :
    ∃ init, front ++ t = init ++ [c] := by
  obtain ⟨init, rfl⟩ := h
  exact ⟨front ++ init, (List.append_assoc ..).symm⟩

/-- What the decoder does with a list that is not empty. -/
theorem toMessage_syncList (front : List (Text × ℤ)) (last : Text × ℤ)
    (hbody : Follows (front.flatMap Sync.entry ++ Sync.record last)) :
    ServerMessage.toMessage ((Message.sync (front ++ [last])).toString ++ [escape]) = (do
      let (found, remaining) ← Sync.entries [] (front.flatMap Sync.entry ++ Sync.record last)
      match regexMatch remaining syncEnd with
      | some [key, timestamp] => do
        .ok (.sync (emplace found key (← number (Text.stoll timestamp))))
      | _ => mismatch "Sync") := by
  have hnone : "none".toList.isPrefixOf (front.flatMap Sync.entry ++ Sync.record last) = false := by
    cases front <;> rfl
  have hclose := exists_close (front.flatMap Sync.entry) (t := Sync.record last) (c := ')')
    ⟨_, by simp only [Sync.record, ← List.append_assoc]; rfl⟩
  have hs : (Message.sync (front ++ [last])).toString = "SYNC".toList ++ ';' :: ' ' ::
      (front.flatMap Sync.entry ++ Sync.record last) := by
    rw [Message.toString, Sync.toString, if_neg (by simp), dropLast_flatMap Sync.entry_eq]
    simp
  have hstart : regexMatch (Message.sync (front ++ [last])).toString syncStart =
      some [front.flatMap Sync.entry ++ Sync.record last] :=
    hs ▸ regexMatch_start (by simp) (by simp) hbody hclose
  rw [toMessage_eq_toMessageOf .sync hs (by simp) (by decide) (by decide) hbody.head hbody.isDot]
  rw [toMessageOf, Sync.toMessage, hstart]
  exact if_neg (Bool.eq_false_iff.mp hnone)

theorem toMessage_sync {entries : List (Text × ℤ)} (hnodup : (entries.map Prod.fst).Nodup)
    (hentries : ∀ e ∈ entries, Sync.Readable e) :
    ServerMessage.toMessage ((Message.sync entries).toString ++ [escape]) =
      .ok (.sync entries) := by
  rcases List.eq_nil_or_concat entries with rfl | ⟨front, last, rfl⟩
  · have hs : (Message.sync []).toString = "SYNC".toList ++ ';' :: ' ' :: "none".toList := rfl
    have hbody : Follows "none".toList := ⟨by simp [Text.isSpace], by simp [isDot]⟩
    have hstart : regexMatch (Message.sync []).toString syncStart = some ["none".toList] :=
      hs ▸ regexMatch_start (c := 'e') (by simp) (by simp) hbody ⟨"non".toList, rfl⟩
    refine toMessage_of_type .sync hs (by simp) (by decide) (by decide) hbody.head hbody.isDot ?_
    simp only [toMessageOf, Sync.toMessage, hstart]
    rfl
  · rw [List.concat_eq_append] at hnodup hentries ⊢
    obtain ⟨hfront, hnew⟩ := nodup_init hnodup
    have hlast := hentries last (by simp)
    have hinit : ∀ e ∈ front, Sync.Readable e := fun e he => hentries e (by simp [he])
    have hbody := follows_flatMap (fun e he => follows_entry Sync.entry_eq (hinit e he).follows)
      hlast.follows
    have hstop := regexMatch_sync_record hlast.ends hlast.version.1
    have hend := regexMatch_syncEnd hlast.isDot hlast.version.1
    rw [toMessage_syncList front last hbody, Sync.entries_list hfront hinit hlast.follows,
      Sync.entries_of_none hstop]
    change (match regexMatch (Sync.record last) syncEnd with
      | some [key, timestamp] => _
      | _ => _) = _
    simp only [hend, number_stoll hlast.version]
    rw [← emplace_new hnew]
    rfl

theorem toMessage_updateList (front : List (Text × Text × ℤ)) (last : Text × Text × ℤ)
    (hbody : Follows (front.flatMap Update.entry ++ Update.record last)) :
    ServerMessage.toMessage ((Message.update (front ++ [last])).toString ++ [escape]) = (do
      let (found, remaining) ←
        Update.newValues [] (front.flatMap Update.entry ++ Update.record last)
      match regexMatch remaining updateEnd with
      | some [key, value, timestamp] => do
        .ok (.update (emplace found key (value, ← number (Text.stoll timestamp))))
      | _ => mismatch "Update") := by
  have hnone : "none".toList.isPrefixOf (front.flatMap Update.entry ++ Update.record last) =
      false := by
    cases front <;> rfl
  have hclose := exists_close (front.flatMap Update.entry) (t := Update.record last) (c := ')')
    ⟨_, by simp only [Update.record, ← List.append_assoc]; rfl⟩
  have hs : (Message.update (front ++ [last])).toString = "UPDATE".toList ++ ';' :: ' ' ::
      (front.flatMap Update.entry ++ Update.record last) := by
    rw [Message.toString, Update.toString, if_neg (by simp), dropLast_flatMap Update.entry_eq]
    simp
  have hstart : regexMatch (Message.update (front ++ [last])).toString updateStart =
      some [front.flatMap Update.entry ++ Update.record last] :=
    hs ▸ regexMatch_start (by simp) (by simp) hbody hclose
  rw [toMessage_eq_toMessageOf .update hs (by simp) (by decide) (by decide) hbody.head hbody.isDot]
  rw [toMessageOf, Update.toMessage, hstart]
  exact if_neg (Bool.eq_false_iff.mp hnone)

theorem toMessage_update {entries : List (Text × Text × ℤ)}
    (hnodup : (entries.map Prod.fst).Nodup) (hentries : ∀ e ∈ entries, Update.Readable e) :
    ServerMessage.toMessage ((Message.update entries).toString ++ [escape]) =
      .ok (.update entries) := by
  rcases List.eq_nil_or_concat entries with rfl | ⟨front, last, rfl⟩
  · have hs : (Message.update []).toString = "UPDATE".toList ++ ';' :: ' ' :: "none".toList := rfl
    have hbody : Follows "none".toList := ⟨by simp [Text.isSpace], by simp [isDot]⟩
    have hstart : regexMatch (Message.update []).toString updateStart = some ["none".toList] :=
      hs ▸ regexMatch_start (c := 'e') (by simp) (by simp) hbody ⟨"non".toList, rfl⟩
    refine toMessage_of_type .update hs (by simp) (by decide) (by decide) hbody.head hbody.isDot ?_
    simp only [toMessageOf, Update.toMessage, hstart]
    rfl
  · rw [List.concat_eq_append] at hnodup hentries ⊢
    obtain ⟨hfront, hnew⟩ := nodup_init hnodup
    have hlast := hentries last (by simp)
    have hinit : ∀ e ∈ front, Update.Readable e := fun e he => hentries e (by simp [he])
    have hbody := follows_flatMap (fun e he => follows_entry Update.entry_eq (hinit e he).follows)
      hlast.follows
    have hstop := regexMatch_update_record hlast.key hlast.ends hlast.version.1
    have hend := regexMatch_updateEnd hlast.key hlast.isDot hlast.version.1
    rw [toMessage_updateList front last hbody, Update.newValues_list hfront hinit hlast.follows,
      Update.newValues_of_none hstop]
    change (match regexMatch (Update.record last) updateEnd with
      | some [key, value, timestamp] => _
      | _ => _) = _
    simp only [hend, number_stoll hlast.version]
    rw [← emplace_new hnew]
    rfl

/-- A text without a quote and without a line break. -/
def Plain (t : Text) : Prop := ∀ c ∈ t, c ≠ '"' ∧ c ≠ '\r' ∧ c ≠ '\n'

theorem Plain.quote_not_mem {t : Text} (h : Plain t) : '"' ∉ t := fun hmem => (h _ hmem).1 rfl

theorem Plain.isDot {t : Text} (h : Plain t) : ∀ c ∈ t, isDot c := fun c hc => by
  simp [LeaderlessDatastore.isDot, h c hc]

theorem Plain.sync {e : Text × ℤ} (hkey : Plain e.1) (hversion : 0 ≤ e.2 ∧ e.2 < 2 ^ 63) :
    Sync.Readable e :=
  ⟨not_holdsEnd_of_not_mem hkey.quote_not_mem, hkey.isDot, hversion⟩

theorem Plain.update {e : Text × Text × ℤ} (hkey : Plain e.1) (hvalue : Plain e.2.1)
    (hversion : 0 ≤ e.2.2 ∧ e.2.2 < 2 ^ 63) : Update.Readable e :=
  ⟨keyable_of_not_mem hkey.quote_not_mem hkey.isDot,
    not_holdsEnd_of_not_mem hvalue.quote_not_mem, hvalue.isDot, hversion⟩

/-- The maps of a `SYNC` and of an `UPDATE` are read back, in any order of their entries. -/
theorem toMessage_lists :
    (∀ entries : List (Text × ℤ), (entries.map Prod.fst).Nodup →
      (∀ e ∈ entries, Plain e.1 ∧ 0 ≤ e.2 ∧ e.2 < 2 ^ 63) →
      ServerMessage.toMessage ((Message.sync entries).toString ++ [escape]) =
        .ok (.sync entries)) ∧
    ∀ newValues : List (Text × Text × ℤ), (newValues.map Prod.fst).Nodup →
      (∀ e ∈ newValues, Plain e.1 ∧ Plain e.2.1 ∧ 0 ≤ e.2.2 ∧ e.2.2 < 2 ^ 63) →
      ServerMessage.toMessage ((Message.update newValues).toString ++ [escape]) =
        .ok (.update newValues) := by
  constructor
  · intro entries hnodup hentries
    refine toMessage_sync hnodup fun e he => ?_
    obtain ⟨hkey, hversion⟩ := hentries e he
    exact hkey.sync hversion
  · intro newValues hnodup hentries
    refine toMessage_update hnodup fun e he => ?_
    obtain ⟨hkey, hvalue, hversion⟩ := hentries e he
    exact hkey.update hvalue hversion

/-- Texts that look like parts of the list. -/
theorem toMessage_lists_odd :
    ServerMessage.toMessage ((Message.sync [("none".toList, 0), ("), (k:".toList, 7)]).toString ++
      [escape]) = .ok (.sync [("none".toList, 0), ("), (k:".toList, 7)]) ∧
    ServerMessage.toMessage ((Message.update [([], ", ts:9)".toList, 1)]).toString ++ [escape]) =
      .ok (.update [([], ", ts:9)".toList, 1)]) := by
  constructor
  · exact toMessage_lists.1 _ (by decide) (by simp [Plain])
  · exact toMessage_lists.2 _ (by decide) (by simp [Plain])

end Messages

/-! ## What else a list can be read as -/

section Ending

variable {front : Text} {message : Message Text Text}

/-- A pattern whose end has no parenthesis does not match a text that ends with one. -/
theorem regexMatch_eq_none_of_paren (items : Pattern Char) {tail : Pattern Char}
    (hexcludes : Excludes ')' tail) (hcount : literalCount ')' tail = 0)
    (hlength : 0 < literalLength tail) : regexMatch (front ++ [')']) (items ++ tail) = none := by
  refine exec_eq_none fun groups hmatch => ?_
  obtain ⟨before, behind, -, groups', heq, -, -, htail⟩ := matches_append.mp hmatch
  have hzero := htail.count_eq (sharp_of_not_isAlpha (a := ')') rfl) hexcludes
  rw [hcount, List.count_eq_zero] at hzero
  have hne : behind ≠ [] := List.length_pos_iff.mp (hlength.trans_le htail.literalLength_le)
  have hlast := congrArg List.getLast? heq
  rw [List.getLast?_concat, List.getLast?_append_of_ne_nil _ hne] at hlast
  exact hzero (List.mem_of_getLast? hlast.symm)

namespace ServerMessage

/-- What ends like a list of entries is read as a list of entries, or as a message that has any
text. -/
theorem getType_of_paren (h : toMessage (front ++ [')'] ++ [escape]) = .ok message) :
    message.getType ∈ [.ack, .nack, .value, .sync, .update] := by
  by_contra hnot
  simp only [List.mem_cons, List.not_mem_nil, or_false, not_or] at hnot
  obtain ⟨-, -, -, -, hmessage⟩ := toMessageOf_of_toMessage h (by simp [hnot])
  rw [List.dropLast_concat] at hmessage
  -- all other patterns end with a quote, with a number or with `null`
  have hquoted : ∀ items, regexMatch (front ++ [')']) (items ++ [lit "\"", space]) = none :=
    fun items => regexMatch_eq_none_of_paren items ⟨rfl, trivial⟩ rfl (by decide)
  have hnumbered : ∀ items,
      regexMatch (front ++ [')']) (items ++ [lit "ts:", digits, space]) = none :=
    fun items => regexMatch_eq_none_of_paren items ⟨rfl, rfl, trivial⟩ rfl (by decide)
  have hnull : ∀ items, regexMatch (front ++ [')']) (items ++ [lit "v:null", space]) = none :=
    fun items => regexMatch_eq_none_of_paren items ⟨rfl, trivial⟩ rfl (by decide)
  have hget : regexMatch (front ++ [')']) Regex.get = none :=
    hquoted Regex.get.dropLast.dropLast
  have hput : regexMatch (front ++ [')']) Regex.put = none :=
    hquoted Regex.put.dropLast.dropLast
  have hfetch : regexMatch (front ++ [')']) Regex.fetch = none :=
    hquoted Regex.fetch.dropLast.dropLast
  have hvalue : regexMatch (front ++ [')']) Regex.fetchedValue = none :=
    hnumbered Regex.fetchedValue.dropLast.dropLast.dropLast
  have habsent : regexMatch (front ++ [')']) Regex.fetchedValueNull = none :=
    hnull Regex.fetchedValueNull.dropLast.dropLast
  have hprepare : regexMatch (front ++ [')']) Regex.prepare = none :=
    hquoted Regex.prepare.dropLast.dropLast
  have hcommit : regexMatch (front ++ [')']) Regex.voteCommit = none :=
    hnumbered Regex.voteCommit.dropLast.dropLast.dropLast
  have habort : regexMatch (front ++ [')']) Regex.voteAbort = none :=
    hquoted Regex.voteAbort.dropLast.dropLast
  have hglobal : regexMatch (front ++ [')']) Regex.globalAbort = none :=
    hquoted Regex.globalAbort.dropLast.dropLast
  have hdecision : regexMatch (front ++ [')']) Regex.globalCommit = none :=
    hnumbered Regex.globalCommit.dropLast.dropLast.dropLast
  have hrepair : regexMatch (front ++ [')']) Regex.repair = none :=
    hnumbered Regex.repair.dropLast.dropLast.dropLast
  generalize message.getType = type at hmessage hnot
  cases type <;> simp_all [toMessageOf, Get.toMessage, Put.toMessage, Fetch.toMessage,
    FetchedValue.toMessage, Prepare.toMessage, VoteCommit.toMessage, VoteAbort.toMessage,
    GlobalAbort.toMessage, GlobalCommit.toMessage, Repair.toMessage, mismatch]

theorem Update.exists_paren {newValues : List (Text × Text × ℤ)} (h : newValues ≠ []) :
    ∃ front, (Message.update newValues).toString = front ++ [')'] := by
  obtain ⟨init, last, rfl⟩ := (List.eq_nil_or_concat newValues).resolve_left h
  obtain ⟨front, hfront⟩ := exists_close (init.flatMap Update.entry) (t := Update.record last)
    (c := ')') ⟨_, by simp only [Update.record, ← List.append_assoc]; rfl⟩
  refine ⟨"UPDATE; ".toList ++ front, ?_⟩
  rw [List.concat_eq_append, Message.toString, Update.toString, if_neg (by simp),
    dropLast_flatMap Update.entry_eq, hfront, List.append_assoc]

theorem getType_of_drop_none {n : ℕ}
    (h : toMessage (("UPDATE; none".toList ++ [escape]).drop n) = .ok message) :
    message.getType ∈ [.ack, .nack, .value, .sync, .update] := by
  have hread : ∀ n < 14, (toMessage (("UPDATE; none".toList ++ [escape]).drop n)).toOption.all
      fun message => decide (message.getType ∈
        [MessageType.ack, .nack, .value, .sync, .update]) := by decide +kernel
  have hdrop : ("UPDATE; none".toList ++ [escape]).drop n =
      ("UPDATE; none".toList ++ [escape]).drop (min n 13) := by
    rcases le_total n 13 with hn | hn
    · rw [min_eq_left hn]
    · rw [min_eq_right hn, List.drop_of_length_le (by simpa using hn)]
      rfl
  have hall := hread (min n 13) (by omega)
  rw [← hdrop, h] at hall
  simpa [Except.toOption] using hall

/-- So it is with what is left of an `UPDATE` behind a cut. -/
theorem getType_of_drop_update {newValues : List (Text × Text × ℤ)} {n : ℕ}
    (h : toMessage (((Message.update newValues).toString ++ [escape]).drop n) = .ok message) :
    message.getType ∈ [.ack, .nack, .value, .sync, .update] := by
  by_cases hempty : newValues = []
  · subst hempty
    exact getType_of_drop_none h
  · obtain ⟨front, hfront⟩ := Update.exists_paren hempty
    rw [hfront, List.append_assoc] at h
    by_cases hn : n ≤ front.length
    · rw [List.drop_append_of_le_length hn, ← List.append_assoc] at h
      exact getType_of_paren h
    · obtain ⟨k, rfl⟩ := Nat.exists_eq_add_of_le (Nat.lt_of_not_le hn)
      refine getType_of_drop_none (n := "UPDATE; none".toList.length + k) ?_
      have hone : front.length.succ + k = front.length + (k + 1) := by omega
      rw [hone, List.drop_length_add_append] at h
      rw [List.drop_length_add_append]
      exact h

end ServerMessage

end Ending

end LeaderlessDatastore
