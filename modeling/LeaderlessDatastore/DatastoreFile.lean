import LeaderlessDatastore.Forgery
import LeaderlessDatastore.Synchronisation

/-!
# The datastore file

`DatastoreManager::dump` writes one line for each entry and escapes nothing;
`DatastoreManager::load` cuts each line with a regular expression.
-/

namespace LeaderlessDatastore

open Function Pattern Regex

/-- The lines that `getline` takes off a file. -/
def getlines : Text → List Text
  | [] => []
  | c :: s =>
    if c = '\n' then [] :: getlines s
    else match getlines s with
      | [] => [[c]]
      | line :: lines => (c :: line) :: lines

/-- `^\s*\"(.*?)\",\s*\"(.*?)\",\s*(.*?)$` -/
def Regex.line : Pattern Char :=
  [space, lit "\"", text, lit "\",", space, lit "\"", text, lit "\",", space, text]

namespace DatastoreManager

/-- The line of an entry, as `dump` writes it. -/
def line (key value : Text) (version : ℤ) : Text :=
  '"' :: (key ++ ("\",\"".toList ++ (value ++ ("\",".toList ++ Text.ofInt version))))

/-- What `dump` writes, with the entries in iteration order. -/
def dump (localDatastore : Entries Text Text) : Text :=
  localDatastore.entries.flatMap fun entry => line entry.1 entry.2.1 entry.2.2 ++ ['\n']

/-- The body of the loop of `load`. -/
def loadLine (ds : DatastoreManager Text Text) (line : Text) :
    Except Text.ConversionError (DatastoreManager Text Text) :=
  match regexMatch line Regex.line with
  | some [key, value, version] => (Text.stoll version).map fun version => { ds with
      datastore := update ds.datastore key (some ((ds.datastore key).getD (value, version))) }
  | _ => .ok ds

/-- `load`, where the file holds the given text. -/
def load (ds : DatastoreManager Text Text) (file : Text) :
    Except Text.ConversionError (DatastoreManager Text Text) :=
  (getlines file).foldlM loadLine ds

/-- `load` on an empty datastore brings back what `dump` has written. -/
def Restored (contents : Entries Text Text) : Prop :=
  ∃ ds, load .empty (dump contents) = .ok ds ∧ ds.datastore = contents.lookup

end DatastoreManager

/-! ## Where a line is cut -/

/-- A text that separates two fields of a line begins inside the key. -/
def SplitsKey (key : Text) : Prop :=
  ∃ front blanks after, key ++ ['"'] = front ++ ("\",".toList ++ (blanks ++ '"' :: after)) ∧
    ∀ c ∈ blanks, Text.isSpace c

def SplitsValue (value : Text) : Prop := "\",".toList <:+: value

/-- What follows a value in a line. -/
def afterValue : Pattern Char := [lit "\",", space, text]

/-- What follows a key in a line. -/
def afterKey : Pattern Char := lit "\"," :: space :: lit "\"" :: text :: afterValue

section Fields

variable {key value front blanks rest t : Text} {groups : List Text} {n : ℤ}

theorem exec_afterValue (hdot : ∀ c ∈ t, isDot c) :
    exec sameLetter afterValue ("\",".toList ++ t) = some [t.dropWhile Text.isSpace] :=
  (exec_lit sameLetter_refl "\",".toList t).trans (exec_blanks hdot)

theorem exec_afterKey (hblanks : ∀ c ∈ blanks, Text.isSpace c)
    (h : exec sameLetter (text :: afterValue) rest = some groups) :
    exec sameLetter afterKey ("\",".toList ++ (blanks ++ '"' :: rest)) = some groups := by
  have hquote : exec sameLetter (lit "\"" :: text :: afterValue) ('"' :: rest) = some groups :=
    (exec_lit sameLetter_refl "\"".toList rest).trans h
  have hspace : exec sameLetter (space :: lit "\"" :: text :: afterValue)
      (blanks ++ '"' :: rest) = some groups :=
    exec_greedy blanks hblanks (by simp [Text.isSpace]) hquote
  exact (exec_lit sameLetter_refl "\",".toList _).trans hspace

/-- A value is read up to a place where it can end, or less. -/
theorem exists_exec_value (hfront : ∀ c ∈ front, isDot c) (ht : ∀ c ∈ t, isDot c) :
    ∃ value number, exec sameLetter (text :: afterValue) (front ++ ("\",".toList ++ t)) =
      some [value, number] ∧ value.length ≤ front.length := by
  obtain ⟨value, _, groups, -, hle, hgroups, hexec⟩ := exec_lazy_le hfront (exec_afterValue ht)
  obtain ⟨number, rfl⟩ :=
    List.length_eq_one_iff.mp (matches_of_exec hgroups).forall_groups.length_eq.symm
  exact ⟨value, number, hexec, hle⟩

/-- A key is read up to a place where it can end, or less. -/
theorem exists_exec_key (hfront : ∀ c ∈ front, isDot c) (hblanks : ∀ c ∈ blanks, Text.isSpace c)
    (h : exec sameLetter (text :: afterValue) rest = some groups) :
    ∃ key value number, exec sameLetter (text :: afterKey)
      (front ++ ("\",".toList ++ (blanks ++ '"' :: rest))) = some [key, value, number] ∧
        key.length ≤ front.length := by
  obtain ⟨key, _, groups, -, hle, hgroups, hexec⟩ :=
    exec_lazy_le hfront (exec_afterKey hblanks h)
  obtain ⟨value, number, rfl⟩ :=
    List.length_eq_two.mp (matches_of_exec hgroups).forall_groups.length_eq.symm
  exact ⟨key, value, number, hexec, hle⟩

theorem eq_comma {word : Text} (h : List.Forall₂ (sameLetter · ·) "\",".toList word) :
    word = "\",".toList :=
  eq_of_sharp (by simpa using ⟨sharp_quote, sharp_of_not_isAlpha rfl⟩) h

/-- A value that does not hold the end of a value is read whole. -/
theorem exec_value (hvalue : ¬ SplitsValue value) (hdot : ∀ c ∈ value, isDot c)
    (ht : ∀ c ∈ t, isDot c) :
    exec sameLetter (text :: afterValue) (value ++ ("\",".toList ++ t)) =
      some [value, t.dropWhile Text.isSpace] := by
  refine exec_lazy hdot (exec_afterValue ht) fun front middle heq hmiddle =>
    exec_eq_none fun groups hmatch => hvalue ?_
  obtain ⟨_, after, hafter, hcomma, -⟩ := hmatch
  rw [eq_comma hcomma] at hafter
  match middle, hmiddle, hafter with
  | [c], _, hafter => simp at hafter
  | c :: d :: middle, _, hafter =>
    obtain ⟨rfl, rfl, -⟩ : c = '"' ∧ d = ',' ∧ _ := by simpa using hafter
    exact ⟨front, middle, by simp [heq]⟩

/-- A key in which no separator begins is read whole. -/
theorem exec_wholeKey (hkey : ¬ SplitsKey key) (hdot : ∀ c ∈ key, isDot c)
    (h : exec sameLetter (text :: afterValue) rest = some groups) :
    exec sameLetter (text :: afterKey) (key ++ ("\",".toList ++ '"' :: rest)) =
      some (key :: groups) := by
  refine exec_lazy hdot (exec_afterKey (List.forall_mem_nil _) h) fun front middle heq hmiddle =>
    exec_eq_none fun groups hmatch => hkey ?_
  obtain ⟨_, _, hafter, hcomma, blanks, _, _, rfl, hblanks, ⟨_, after, rfl, hquote, -⟩, -⟩ :=
    hmatch
  obtain ⟨quote, rfl⟩ := sharp_quote.cons [] hquote
  rw [eq_comma hcomma] at hafter
  obtain ⟨c, middle, rfl⟩ := List.exists_cons_of_ne_nil hmiddle
  obtain ⟨rfl, hafter'⟩ : c = '"' ∧ middle ++ '"' :: (',' :: '"' :: rest) =
    (',' :: blanks) ++ ('"' :: (quote ++ after)) := by simpa using hafter
  have hplain : '"' ∉ ',' :: blanks := by
    simpa using quote_not_mem_of_isSpace hblanks
  obtain ⟨more, rfl, hmore⟩ := append_left_of_not_mem hafter'.symm hplain
  -- the quote behind the blanks is in the key or ends it
  obtain ⟨behind, hbehind⟩ : ∃ behind, more ++ ['"'] = '"' :: behind := by
    cases more with
    | nil => exact ⟨[], rfl⟩
    | cons d more =>
      obtain ⟨rfl, -⟩ := List.cons.inj hmore
      exact ⟨more ++ ['"'], rfl⟩
  exact ⟨front, blanks, behind, by simp [heq, hbehind], hblanks⟩

theorem exec_start {items : Pattern Char} (s : Text) :
    exec sameLetter (space :: lit "\"" :: items) ('"' :: s) = exec sameLetter items s := by
  simp [exec, lengths, strip, space, lit, Text.isSpace, sameLetter_refl]

theorem regexMatch_eq (key value : Text) (n : ℤ) :
    regexMatch (DatastoreManager.line key value n) Regex.line = exec sameLetter
      (text :: afterKey) (key ++ ("\",".toList ++ '"' ::
        (value ++ ("\",".toList ++ Text.ofInt n)))) :=
  exec_start _

theorem dropWhile_ofInt (hn : 0 ≤ n) : (Text.ofInt n).dropWhile Text.isSpace = Text.ofInt n := by
  rw [List.dropWhile_eq_self_iff]
  intro hlength
  simp [Text.not_isSpace_of_isDigit (isDigit_of_mem_ofInt hn (List.getElem_mem hlength))]

/-- A line that can be cut at no other place. -/
theorem regexMatch_line (hkey : ∀ c ∈ key, isDot c) (hvalue : ∀ c ∈ value, isDot c) (hn : 0 ≤ n)
    (hkeySplit : ¬ SplitsKey key) (hvalueSplit : ¬ SplitsValue value) :
    regexMatch (DatastoreManager.line key value n) Regex.line =
      some [key, value, Text.ofInt n] := by
  have hexec := exec_value hvalueSplit hvalue (isDot_ofInt hn)
  rw [dropWhile_ofInt hn] at hexec
  rw [regexMatch_eq]
  exact exec_wholeKey hkeySplit hkey hexec

/-- A key in which a separator begins is read as a shorter one. -/
theorem exists_regexMatch_splitsKey (hkey : ∀ c ∈ key, isDot c) (hvalue : ∀ c ∈ value, isDot c)
    (hn : 0 ≤ n) (hsplit : SplitsKey key) : ∃ key' value' number,
    regexMatch (DatastoreManager.line key value n) Regex.line = some [key', value', number] ∧
      key'.length < key.length := by
  obtain ⟨front, blanks, after, heq, hblanks⟩ := hsplit
  have hdot : ∀ c ∈ key ++ ['"'], isDot c :=
    List.forall_mem_append.mpr ⟨hkey, by simp [isDot]⟩
  rw [heq, List.forall_mem_append] at hdot
  have hafter : ∀ c ∈ after ++ (",\"".toList ++ value), isDot c := by
    simp only [List.forall_mem_append]
    exact ⟨fun c hc => hdot.2 c (by simp [hc]), by simp [isDot], hvalue⟩
  obtain ⟨value', number, hexec, -⟩ := exists_exec_value hafter (isDot_ofInt hn)
  obtain ⟨key', value', number, hexec', hle⟩ := exists_exec_key hdot.1 hblanks hexec
  refine ⟨key', value', number, ?_, ?_⟩
  · have htext : key ++ ("\",".toList ++ '"' :: (value ++ ("\",".toList ++ Text.ofInt n))) =
        (key ++ ['"']) ++ (",\"".toList ++ (value ++ ("\",".toList ++ Text.ofInt n))) := by simp
    rw [regexMatch_eq, htext, heq, ← hexec']
    simp
  · have hlength : key.length + 1 =
        front.length + (blanks.length + (after.length + 1) + 1 + 1) := by
      simpa using congrArg List.length heq
    omega

/-- A value that holds the end of a value is read as a shorter one. -/
theorem exists_regexMatch_splitsValue (hkey : ∀ c ∈ key, isDot c)
    (hvalue : ∀ c ∈ value, isDot c) (hn : 0 ≤ n) (hkeySplit : ¬ SplitsKey key)
    (hsplit : SplitsValue value) : ∃ value' number,
    regexMatch (DatastoreManager.line key value n) Regex.line = some [key, value', number] ∧
      value' ≠ value := by
  obtain ⟨front, after, rfl⟩ := hsplit
  simp only [List.forall_mem_append] at hvalue
  have hrest : ∀ c ∈ after ++ ("\",".toList ++ Text.ofInt n), isDot c := by
    simp only [List.forall_mem_append]
    exact ⟨hvalue.2, by simp [isDot], isDot_ofInt hn⟩
  obtain ⟨value', number, hexec, hle⟩ := exists_exec_value hvalue.1.1 hrest
  refine ⟨value', number, ?_, ?_⟩
  · rw [regexMatch_eq]
    refine exec_wholeKey hkeySplit hkey ?_
    rw [← hexec]
    simp
  · rintro rfl
    simp at hle

end Fields

/-! ## The lines of the file -/

theorem getlines_append {t : Text} (ht : '\n' ∉ t) (s : Text) :
    getlines (t ++ '\n' :: s) = t :: getlines s := by
  induction t with
  | nil => simp [getlines]
  | cons c t ih =>
    obtain ⟨hc, ht⟩ : c ≠ '\n' ∧ '\n' ∉ t := by simpa [eq_comm] using ht
    rw [List.cons_append, getlines, if_neg hc, ih ht]

namespace DatastoreManager

abbrev FileEntry := Sigma fun _ : Text => Text × ℤ

/-- An entry that `dump` may have to write: no line breaks, and a version that `stoll` reads. -/
structure Writable (entry : FileEntry) : Prop where
  key : ∀ c ∈ entry.1, isDot c
  value : ∀ c ∈ entry.2.1, isDot c
  version : 1 ≤ entry.2.2 ∧ entry.2.2 < 2 ^ 63

theorem Writable.nonneg {entry : FileEntry} (h : Writable entry) : 0 ≤ entry.2.2 :=
  Int.le_of_lt h.version.1

variable {ds ds' : DatastoreManager Text Text} {entry : FileEntry}

theorem newline_not_mem_line (h : Writable entry) :
    '\n' ∉ line entry.1 entry.2.1 entry.2.2 := by
  have hdot : ∀ c ∈ line entry.1 entry.2.1 entry.2.2, isDot c := by
    simp only [line, List.forall_mem_cons, List.forall_mem_append]
    exact ⟨by decide, h.key, by simp [isDot], h.value, by simp [isDot],
      isDot_ofInt h.nonneg⟩
  intro hmem
  simpa [isDot] using hdot _ hmem

theorem getlines_flatMap {entries : List FileEntry} (h : ∀ entry ∈ entries, Writable entry) :
    getlines (entries.flatMap fun entry => line entry.1 entry.2.1 entry.2.2 ++ ['\n']) =
      entries.map fun entry => line entry.1 entry.2.1 entry.2.2 := by
  induction entries with
  | nil => rfl
  | cons entry entries ih =>
    obtain ⟨hentry, hentries⟩ := List.forall_mem_cons.mp h
    rw [List.flatMap_cons, List.append_assoc, List.singleton_append,
      getlines_append (newline_not_mem_line hentry), List.map_cons, ih hentries]

/-- What the line of an entry is read as. -/
def Reads (entry read : FileEntry) : Prop :=
  read.1.length ≤ entry.1.length ∧ (SplitsKey entry.1 → read.1.length < entry.1.length) ∧
    (¬ SplitsKey entry.1 → read.1 = entry.1 ∧
      (SplitsValue entry.2.1 → read.2.1 ≠ entry.2.1))

theorem loadLine_eq_ok (h : Writable entry)
    (hload : loadLine ds (line entry.1 entry.2.1 entry.2.2) = .ok ds') :
    ∃ read, Reads entry read ∧ ds'.datastore =
      update ds.datastore read.1 (some ((ds.datastore read.1).getD read.2)) := by
  -- every line of an entry matches, cut in one of three ways
  obtain ⟨key, value, number, hmatch, hreads⟩ : ∃ key value number,
      regexMatch (line entry.1 entry.2.1 entry.2.2) Regex.line = some [key, value, number] ∧
        ∀ version, Reads entry ⟨key, value, version⟩ := by
    by_cases hkey : SplitsKey entry.1
    · obtain ⟨key, value, number, hmatch, hlt⟩ :=
        exists_regexMatch_splitsKey h.key h.value h.nonneg hkey
      exact ⟨key, value, number, hmatch, fun _ => ⟨hlt.le, fun _ => hlt, fun hn => absurd hkey hn⟩⟩
    · by_cases hvalue : SplitsValue entry.2.1
      · obtain ⟨value, number, hmatch, hne⟩ :=
          exists_regexMatch_splitsValue h.key h.value h.nonneg hkey hvalue
        exact ⟨_, value, number, hmatch, fun _ =>
          ⟨le_rfl, fun hs => absurd hs hkey, fun _ => ⟨rfl, fun _ => hne⟩⟩⟩
      · exact ⟨_, _, _, regexMatch_line h.key h.value h.nonneg hkey hvalue, fun _ =>
          ⟨le_rfl, fun hs => absurd hs hkey, fun _ => ⟨rfl, fun hs => absurd hs hvalue⟩⟩⟩
  simp only [loadLine, hmatch] at hload
  cases hnumber : Text.stoll number with
  | error e =>
    rw [hnumber] at hload
    cases hload
  | ok version =>
    rw [hnumber] at hload
    cases hload
    exact ⟨_, hreads version, rfl⟩

theorem loadLine_line (h : Writable entry) (hkey : ¬ SplitsKey entry.1)
    (hvalue : ¬ SplitsValue entry.2.1) :
    loadLine ds (line entry.1 entry.2.1 entry.2.2) = .ok { ds with
      datastore := update ds.datastore entry.1 (some ((ds.datastore entry.1).getD entry.2)) } := by
  have hstoll : Text.stoll (Text.ofInt entry.2.2) = .ok entry.2.2 :=
    Text.toSigned_ofInt h.nonneg h.version.2
  simp only [loadLine, regexMatch_line h.key h.value h.nonneg hkey hvalue, hstoll, Except.map]

/-- The first line of a key counts. -/
theorem or_dlookup_cons (datastore : Text → Option (Text × ℤ)) (read : FileEntry)
    (reads : List FileEntry) (key : Text) :
    (update datastore read.1 (some ((datastore read.1).getD read.2)) key).or
        (reads.dlookup key) =
      (datastore key).or ((read :: reads).dlookup key) := by
  obtain ⟨readKey, entry⟩ := read
  by_cases hkey : key = readKey
  · subst hkey
    cases datastore key <;> simp
  · rw [update_of_ne hkey, List.dlookup_cons_ne _ _ hkey]

theorem foldlM_loadLine {entries : List FileEntry} (h : ∀ entry ∈ entries, Writable entry)
    (hload : (entries.map fun entry => line entry.1 entry.2.1 entry.2.2).foldlM loadLine ds =
      .ok ds') : ∃ reads, List.Forall₂ Reads entries reads ∧
        ds'.datastore = fun key => (ds.datastore key).or (reads.dlookup key) := by
  induction entries generalizing ds with
  | nil =>
    cases hload
    exact ⟨[], .nil, by simp⟩
  | cons entry entries ih =>
    obtain ⟨hentry, hentries⟩ := List.forall_mem_cons.mp h
    rw [List.map_cons, List.foldlM_cons] at hload
    cases hline : loadLine ds (line entry.1 entry.2.1 entry.2.2) with
    | error e =>
      rw [hline] at hload
      cases hload
    | ok ds₁ =>
      rw [hline] at hload
      obtain ⟨read, hread, hds₁⟩ := loadLine_eq_ok hentry hline
      obtain ⟨reads, hreads, hds'⟩ := ih hentries hload
      refine ⟨read :: reads, .cons hread hreads, hds'.trans ?_⟩
      funext key
      rw [hds₁, or_dlookup_cons]

/-- Lines that can be cut at no other place bring every entry back. -/
theorem foldlM_loadLine_eq {entries : List FileEntry} (h : ∀ entry ∈ entries, Writable entry)
    (hsplit : ∀ entry ∈ entries, ¬ SplitsKey entry.1 ∧ ¬ SplitsValue entry.2.1) :
    ∃ ds', (entries.map fun entry => line entry.1 entry.2.1 entry.2.2).foldlM loadLine ds =
      .ok ds' ∧ ds'.datastore = fun key => (ds.datastore key).or (entries.dlookup key) := by
  induction entries generalizing ds with
  | nil => exact ⟨ds, rfl, by simp⟩
  | cons entry entries ih =>
    obtain ⟨hentry, hentries⟩ := List.forall_mem_cons.mp h
    obtain ⟨⟨hkey, hvalue⟩, hsplits⟩ := List.forall_mem_cons.mp hsplit
    rw [List.map_cons, List.foldlM_cons, loadLine_line hentry hkey hvalue]
    obtain ⟨ds', hload, hds'⟩ := ih hentries hsplits
    refine ⟨ds', hload, hds'.trans ?_⟩
    funext key
    rw [or_dlookup_cons]

/-- One key that is read too short is missed in the total length. -/
theorem sum_length_lt {entries reads : List FileEntry} (h : List.Forall₂ Reads entries reads) :
    (reads.map fun read => read.1.length).sum ≤ (entries.map fun entry => entry.1.length).sum ∧
      ((∃ entry ∈ entries, SplitsKey entry.1) → (reads.map fun read => read.1.length).sum <
        (entries.map fun entry => entry.1.length).sum) := by
  induction h with
  | nil => simp
  | @cons entry read entries reads hread _ ih =>
    obtain ⟨hle, hlt, -⟩ := hread
    simp only [List.map_cons, List.sum_cons, List.exists_mem_cons_iff]
    refine ⟨by omega, ?_⟩
    rintro (hkey | hkeys)
    · have := hlt hkey
      omega
    · have := ih.2 hkeys
      omega

theorem exists_read {entries reads : List FileEntry} (h : List.Forall₂ Reads entries reads)
    (hentry : entry ∈ entries) : ∃ read ∈ reads, Reads entry read := by
  induction h with
  | nil => cases hentry
  | cons hread _ ih =>
    rcases List.mem_cons.mp hentry with rfl | hentry
    · exact ⟨_, List.mem_cons_self, hread⟩
    · obtain ⟨read, hmem, hreads⟩ := ih hentry
      exact ⟨read, List.mem_cons_of_mem _ hmem, hreads⟩

/-- Where every entry is back, the lines were read with the keys they were written with. -/
theorem keys_perm {contents : Entries Text Text} {reads : List FileEntry}
    (h : List.Forall₂ Reads contents.entries reads)
    (hlookup : ∀ key, reads.dlookup key = contents.lookup key) :
    contents.keys.Perm reads.keys := by
  refine (List.subperm_of_subset contents.nodupKeys fun key hkey => ?_).perm_of_length_le ?_
  · rw [← List.dlookup_isSome, hlookup]
    exact AList.lookup_isSome.mpr hkey
  · simp only [List.keys, List.length_map]
    exact h.length_eq.ge

theorem restored_iff_of_writable {contents : Entries Text Text}
    (h : ∀ entry ∈ contents.entries, Writable entry) :
    Restored contents ↔
      ∀ entry ∈ contents.entries, ¬ SplitsKey entry.1 ∧ ¬ SplitsValue entry.2.1 := by
  have hlines : load .empty (dump contents) = (contents.entries.map fun entry =>
      line entry.1 entry.2.1 entry.2.2).foldlM loadLine .empty := by
    rw [load, dump, getlines_flatMap h]
  unfold Restored
  rw [hlines]
  constructor
  · rintro ⟨ds, hload, hds⟩ entry hentry
    obtain ⟨reads, hreads, hreadsLookup⟩ := foldlM_loadLine h hload
    have hlookup : ∀ key, reads.dlookup key = contents.lookup key :=
      congrFun (hreadsLookup.symm.trans hds)
    have hperm := keys_perm hreads hlookup
    -- the keys that come back are the same ones, so none of them was read too short
    have hkey : ∀ entry ∈ contents.entries, ¬ SplitsKey entry.1 := by
      intro entry hentry hsplit
      have hsum : (contents.entries.map fun entry => entry.1.length).sum =
          (reads.map fun read => read.1.length).sum := by
        simpa [AList.keys, List.keys, Function.comp_def] using (hperm.map List.length).sum_eq
      exact ((sum_length_lt hreads).2 ⟨entry, hentry, hsplit⟩).ne hsum.symm
    obtain ⟨read, hread, -, -, hwhole⟩ := exists_read hreads hentry
    obtain ⟨hsame, hvalue⟩ := hwhole (hkey entry hentry)
    have hentry' : entry.2 ∈ contents.lookup entry.1 :=
      (List.mem_dlookup_iff contents.nodupKeys).mpr hentry
    have hread' : read.2 ∈ reads.dlookup read.1 :=
      (List.mem_dlookup_iff (hperm.nodup_iff.mp contents.nodupKeys)).mpr hread
    rw [hlookup, hsame] at hread'
    exact ⟨hkey entry hentry, fun hsplit =>
      hvalue hsplit (congrArg Prod.fst (Option.mem_unique hread' hentry'))⟩
  · intro hsplit
    obtain ⟨ds, hload, hds⟩ := foldlM_loadLine_eq h hsplit
    exact ⟨ds, hload, hds⟩

/-- Everything that is written comes back, exactly when no line can be cut inside its key or
its value. -/
theorem restored_iff (contents : Entries Text Text)
    (hstorable : ∀ entry ∈ contents.entries, Storable entry.1 entry.2.1)
    (hversion : ∀ entry ∈ contents.entries, 1 ≤ entry.2.2 ∧ entry.2.2 < 2 ^ 63) :
    Restored contents ↔
      ∀ entry ∈ contents.entries, ¬ SplitsKey entry.1 ∧ ¬ SplitsValue entry.2.1 := by
  refine restored_iff_of_writable fun entry hentry => ?_
  obtain ⟨s, hs⟩ := hstorable entry hentry
  obtain ⟨hkey, hvalue⟩ := keyable_of_toMessage hs
  exact ⟨hkey.isDot, hvalue, hversion entry hentry⟩

theorem not_splitsKey_of_not_mem {key : Text} (h : '"' ∉ key) : ¬ SplitsKey key := by
  rintro ⟨front, blanks, after, heq, -⟩
  have hcount := congrArg (List.count '"') heq
  simp [List.count_eq_zero.mpr h] at hcount
  omega

theorem restored_iff_quoted :
    Restored (AList.singleton "k".toList ("x,\"y".toList, 1)) := by
  refine (restored_iff _ ?_ ?_).mpr ?_ <;> intro entry hentry <;>
    obtain rfl := List.mem_singleton.mp hentry
  · exact ⟨"PUT; k:\"k\", v:\"x,\"y\"".toList ++ [escape], by decide +kernel⟩
  · decide
  · exact ⟨not_splitsKey_of_not_mem (by decide), by unfold SplitsValue; decide⟩

/-- The line of a value that ends early, where `stoll` gets no number. -/
theorem load_throws : Storable "k".toList "x\",y".toList ∧
    load .empty (dump (AList.singleton "k".toList ("x\",y".toList, 1))) =
      .error .invalidArgument ∧
    ¬ Restored (AList.singleton "k".toList ("x\",y".toList, 1)) := by
  have hmatch : regexMatch "\"k\",\"x\",y\",1".toList Regex.line =
      some ["k".toList, "x".toList, "y\",1".toList] := by decide +kernel
  have hload : load .empty (dump (AList.singleton "k".toList ("x\",y".toList, 1))) =
      .error .invalidArgument := by
    have hlines : getlines (dump (AList.singleton "k".toList ("x\",y".toList, 1))) =
      ["\"k\",\"x\",y\",1".toList] := by decide +kernel
    rw [load, hlines, List.foldlM_cons, loadLine, hmatch]
    rfl
  refine ⟨⟨"PUT; k:\"k\", v:\"x\",y\"".toList ++ [escape], by decide +kernel⟩, hload, ?_⟩
  rintro ⟨ds, hds, -⟩
  rw [hload] at hds
  cases hds

end DatastoreManager
end LeaderlessDatastore
