import LeaderlessDatastore.Encoding

/-!
# `ClientOperation`

The commands that a user types into the client.
-/

namespace LeaderlessDatastore

open Pattern Regex

inductive ClientOperationType where
  | get | put | exit | wrong
  deriving DecidableEq

structure ClientOperation where
  type : ClientOperationType := .wrong
  key : Text := []
  value : Text := []
  deriving DecidableEq

namespace ClientOperation

/-! ## The commands -/

/-- `(.*)` -/
def anything : Item Char := .run isDot true true

/-- The word of a command without the group around it, which `command` gives. -/
def regexExit : Pattern Char := [space, lit "exit", space]

def regexGet : Pattern Char := [space, lit "get", space, lit "\"", anything, lit "\"", space]

def regexPut : Pattern Char :=
  [space, lit "put", space, lit "\"", anything, lit "\"", space, lit "\"", anything, lit "\"",
    space]

/-- The group `(word)` behind `\s*`: the letters of the word as they are typed. -/
def command (word : String) (line : Text) : Text :=
  (line.dropWhile Text.isSpace).take word.toList.length

/-- `st.erase(remove(st.begin(), st.end(), '"'), st.end())` -/
def eraseQuotes (st : Text) : Text := st.filter (· ≠ '"')

def split (line : Text) : List Text :=
  match regexMatch line regexGet with
  -- the quotes inside stay
  | some [st] => [command "get" line, st]
  | _ =>
    match regexMatch line regexPut with
    | some [st, st'] => [command "put" line, eraseQuotes st, eraseQuotes st']
    | _ => if (regexMatch line regexExit).isSome then [command "exit" line] else []

def parse (line : Text) : ClientOperation :=
  match split line with
  | [word] => if word = "exit".toList then { type := .exit } else {}
  | [word, key] => if word = "get".toList then { type := .get, key := key } else {}
  | [word, key, value] =>
    if word = "put".toList then { type := .put, key := key, value := value } else {}
  | _ => {}

variable {line t u : Text}

/-- What `command` gives is the text that the word of the pattern stands for. -/
theorem command_eq {word : String} {items : Pattern Char} {groups : List Text}
    (hword : word ∈ ["exit", "get", "put"])
    (h : regexMatch line (space :: lit word :: items) = some groups) :
    ∃ front rest, line = front ++ (command word line ++ rest) ∧
      (∀ c ∈ front, Text.isSpace c) ∧
      List.Forall₂ (sameLetter · ·) word.toList (command word line) := by
  obtain ⟨front, _, _, rfl, hfront, ⟨typed, rest, rfl, htyped, -⟩, -⟩ := matches_of_exec h
  obtain ⟨c, letters, hletters, hc⟩ : ∃ c letters, word.toList = c :: letters ∧
      ¬ Text.isSpace c := by
    simp only [List.mem_cons, List.not_mem_nil, or_false] at hword
    rcases hword with rfl | rfl | rfl
    exacts [⟨'e', _, rfl, by decide⟩, ⟨'g', _, rfl, by decide⟩, ⟨'p', _, rfl, by decide⟩]
  have hdrop : (front ++ (typed ++ rest)).dropWhile Text.isSpace = typed ++ rest := by
    rw [List.dropWhile_append_of_pos hfront]
    rw [hletters] at htyped
    cases htyped with
    | cons hsame _ => exact List.dropWhile_cons_of_neg (not_isSpace_of_sameLetter hsame hc)
  have hcommand : command word (front ++ (typed ++ rest)) = typed := by
    rw [command, hdrop, htyped.length_eq, List.take_left]
  rw [hcommand]
  exact ⟨front, rest, rfl, hfront, htyped⟩

/-! ## What is recognised -/

theorem split_cases (line : Text) :
    (∃ st, regexMatch line regexGet = some [st] ∧ split line = [command "get" line, st]) ∨
    (∃ st st', regexMatch line regexPut = some [st, st'] ∧
      split line = [command "put" line, eraseQuotes st, eraseQuotes st']) ∨
    (split line = [command "exit" line]) ∨ split line = [] := by
  unfold split
  split
  · next st hget => exact .inl ⟨st, hget, rfl⟩
  · split
    · next st st' hput => exact .inr (.inl ⟨st, st', hput, rfl⟩)
    · split_ifs
      · exact .inr (.inr (.inl rfl))
      · exact .inr (.inr (.inr rfl))

theorem parse_eq_get (h : (parse line).type = .get) :
    regexMatch line regexGet = some [(parse line).key] := by
  unfold parse at h ⊢
  rcases split_cases line with ⟨st, hget, hsplit⟩ | ⟨st, st', -, hsplit⟩ | hsplit | hsplit
  · simp only [hsplit] at h ⊢
    split_ifs at h ⊢
    exact hget
  · simp only [hsplit] at h
    split_ifs at h
  · simp only [hsplit] at h
    split_ifs at h
  · rw [hsplit] at h
    cases h

theorem parse_eq_put (h : (parse line).type = .put) :
    ∃ st st', regexMatch line regexPut = some [st, st'] ∧
      (parse line).key = eraseQuotes st ∧ (parse line).value = eraseQuotes st' := by
  unfold parse at h ⊢
  rcases split_cases line with ⟨st, -, hsplit⟩ | ⟨st, st', hput, hsplit⟩ | hsplit | hsplit
  · simp only [hsplit] at h
    split_ifs at h
  · simp only [hsplit] at h ⊢
    split_ifs at h ⊢
    exact ⟨st, st', hput, rfl, rfl⟩
  · simp only [hsplit] at h
    split_ifs at h
  · rw [hsplit] at h
    cases h

theorem quote_not_mem_eraseQuotes (st : Text) : '"' ∉ eraseQuotes st := by simp [eraseQuotes]

/-- The key of a `get` is on one line. -/
theorem isDot_of_get (h : (parse line).type = .get) : ∀ c ∈ (parse line).key, isDot c := by
  have hpreds := (matches_of_exec (parse_eq_get h)).forall_groups
  cases hpreds with
  | cons hkey _ => exact hkey

/-- The key and the value of a `put` are on one line and have no quotes. -/
theorem isDot_of_put (h : (parse line).type = .put) :
    ((∀ c ∈ (parse line).key, isDot c) ∧ '"' ∉ (parse line).key) ∧
      (∀ c ∈ (parse line).value, isDot c) ∧ '"' ∉ (parse line).value := by
  obtain ⟨st, st', hput, hkey, hvalue⟩ := parse_eq_put h
  have hpreds := (matches_of_exec hput).forall_groups
  rw [hkey, hvalue]
  cases hpreds with
  | cons hst hrest =>
    cases hrest with
    | cons hst' _ =>
      exact ⟨⟨fun c hc => hst c (List.mem_of_mem_filter hc), quote_not_mem_eraseQuotes st⟩,
        fun c hc => hst' c (List.mem_of_mem_filter hc), quote_not_mem_eraseQuotes st'⟩

/-! ## The same key in both commands -/

/-- `get "t"` -/
def getLine (t : Text) : Text := "get \"".toList ++ t ++ "\"".toList

/-- `put "t" "u"` -/
def putLine (t u : Text) : Text := "put \"".toList ++ t ++ "\" \"".toList ++ u ++ "\"".toList

/-- A cut at a character that stands in neither part behind it. -/
theorem append_cons_inj {α : Type*} {a : α} {front front' rest rest' : List α} (h : a ∉ rest)
    (h' : a ∉ rest') (heq : front ++ a :: rest = front' ++ a :: rest') :
    front = front' ∧ rest = rest' := by
  have heq' : (front ++ [a]) ++ rest = front' ++ a :: rest' := by simpa using heq
  obtain ⟨middle, hfront, rfl⟩ := append_right_of_not_mem heq' h
  rcases List.eq_nil_or_concat middle with rfl | ⟨middle, b, rfl⟩
  · exact ⟨(List.append_inj' hfront rfl).1, rfl⟩
  · rw [List.concat_eq_append, ← List.cons_append, ← List.append_assoc] at hfront
    obtain rfl : a = b := by simpa using (List.append_inj' hfront rfl).2
    exact absurd (by simp) h'

theorem eq_of_append_cons {α : Type*} {a : α} {front front' rest rest' : List α} (h : a ∉ front)
    (h' : a ∉ front') (heq : front ++ a :: rest = front' ++ a :: rest') : rest = rest' := by
  obtain ⟨middle, rfl, hrest⟩ := append_left_of_not_mem heq h
  cases middle with
  | nil => exact List.cons_inj_right a |>.mp hrest
  | cons b middle =>
    obtain ⟨rfl, -⟩ := List.cons.inj hrest
    exact absurd (by simp) h'

theorem eq_quote {quote : Text} (h : List.Forall₂ (sameLetter · ·) "\"".toList quote) :
    quote = ['"'] := eq_of_sharp (by simpa using sharp_quote) h

/-- Behind the first quote of a line. -/
theorem matches_behind_quote (word : String) {items : Pattern Char} {front tail : Text}
    {groups : List Text} (hword : '"' ∉ word.toList) (hfront : '"' ∉ front)
    (h : Matches sameLetter (space :: lit word :: space :: lit "\"" :: items)
      (front ++ '"' :: tail) groups) : Matches sameLetter items tail groups := by
  obtain ⟨spaces, _, _, htext, hspaces, ⟨typed, _, rfl, htyped, spaces', _, _, rfl, hspaces',
    ⟨quote, rest, rfl, hquote, hmatch⟩, rfl⟩, rfl⟩ := h
  obtain rfl := eq_quote hquote
  have htyped' : typed.count '"' = 0 :=
    (sharp_quote.count_eq htyped).trans (List.count_eq_zero.mpr hword)
  have hbefore : '"' ∉ spaces ++ (typed ++ spaces') := by
    simp only [List.mem_append, not_or]
    exact ⟨quote_not_mem_of_isSpace hspaces, List.count_eq_zero.mp htyped',
      quote_not_mem_of_isSpace hspaces'⟩
  have htext' : front ++ '"' :: tail = (spaces ++ (typed ++ spaces')) ++ '"' :: rest := by
    simpa using htext
  rw [eq_of_append_cons hfront hbefore htext']
  exact hmatch

theorem eq_of_getLine {st : Text} (h : regexMatch (getLine t) regexGet = some [st]) : st = t := by
  have hline : getLine t = "get ".toList ++ '"' :: (t ++ ['"']) := by
    rw [getLine, List.append_assoc]
    rfl
  have hmatch := matches_of_exec h
  rw [hline] at hmatch
  obtain ⟨run, _, _, htext, -, ⟨quote, _, rfl, hquote, blanks, _, _, rfl, hblanks, ⟨rfl, -⟩, rfl⟩,
    hst⟩ := matches_behind_quote "get" (by decide) (by decide) hmatch
  obtain rfl := eq_quote hquote
  obtain ⟨rfl, -⟩ := List.cons.inj hst
  have htext' : t ++ '"' :: [] = st ++ '"' :: blanks := by simpa using htext
  exact (append_cons_inj (by simp) (quote_not_mem_of_isSpace hblanks) htext').1.symm

theorem putLine_eq (t u : Text) :
    putLine t u = "put ".toList ++ '"' :: (t ++ "\" \"".toList ++ u ++ ['"']) := by
  unfold putLine
  simp

/-- What the cut of a line at its quotes comes to: the last quote closes the value. -/
theorem exists_blanks {st st' : Text} (h : regexMatch (putLine t u) regexPut = some [st, st']) :
    ∃ blanks, (∀ c ∈ blanks, Text.isSpace c) ∧
      t ++ "\" \"".toList ++ u = st ++ '"' :: (blanks ++ ['"']) ++ st' := by
  have hmatch := matches_of_exec h
  rw [putLine_eq] at hmatch
  have hbehind : Matches sameLetter
      [anything, lit "\"", space, lit "\"", anything, lit "\"", space]
      (t ++ "\" \"".toList ++ u ++ ['"']) [st, st'] :=
    matches_behind_quote "put" (by decide) (by decide) hmatch
  clear hmatch h
  obtain ⟨_, _, _, htext, -, ⟨quote, _, rfl, hquote, blanks, _, _, rfl, hblanks, ⟨quote', _, rfl,
    hquote', _, _, _, rfl, -, ⟨quote'', _, rfl, hquote'', blanks', _, _, rfl, hblanks', ⟨rfl, -⟩,
    rfl⟩, rfl⟩, rfl⟩, hgroups⟩ := hbehind
  simp only [Bool.false_eq_true, if_false, if_true, List.cons.injEq] at hgroups
  obtain ⟨rfl, rfl, -⟩ := hgroups
  obtain rfl := eq_quote hquote
  obtain rfl := eq_quote hquote'
  obtain rfl := eq_quote hquote''
  refine ⟨blanks, hblanks, ?_⟩
  have htext' : (t ++ "\" \"".toList ++ u) ++ '"' :: [] =
      (st ++ '"' :: (blanks ++ ['"']) ++ st') ++ '"' :: blanks' := by simpa using htext
  exact (append_cons_inj (by simp) (quote_not_mem_of_isSpace hblanks') htext').1

theorem eraseQuotes_eq_self (hu : '"' ∉ u) : eraseQuotes u = u :=
  List.filter_eq_self.mpr fun c hc => by
    rw [decide_eq_true_eq]
    rintro rfl
    exact hu hc

/-- A value without quotes fixes where the key ends. -/
theorem eq_of_putLine {st st' : Text} (h : regexMatch (putLine t u) regexPut = some [st, st'])
    (hu : '"' ∉ u) (hvalue : eraseQuotes st' = u) : st = t := by
  obtain ⟨blanks, hblanks, hbody⟩ := exists_blanks h
  have hfront : t ++ "\" \"".toList = st ++ '"' :: (blanks ++ ['"']) := by
    rcases List.append_eq_append_iff.mp hbody with ⟨more, hmore, rfl⟩ | ⟨more, hmore, rfl⟩
    · -- the value starts behind a quote of `u`
      rcases List.eq_nil_or_concat more with rfl | ⟨more, c, rfl⟩
      · simpa using hmore.symm
      · have hlast : (st ++ '"' :: blanks) ++ ['"'] = (t ++ "\" \"".toList ++ more) ++ [c] := by
          simpa using hmore
        obtain rfl : '"' = c := by simpa using (List.append_inj' hlast rfl).2
        exact absurd (by simp) hu
    · -- the value starts too early: all that is too much is quotes
      have hquotes : eraseQuotes more = [] := by
        rw [eraseQuotes, List.filter_append] at hvalue
        change eraseQuotes more ++ eraseQuotes u = u at hvalue
        rw [eraseQuotes_eq_self hu] at hvalue
        exact List.append_left_eq_self.mp hvalue
      rcases List.eq_nil_or_concat more with rfl | ⟨more, c, rfl⟩
      · simpa using hmore
      · have hlast : (t ++ ['"', ' ']) ++ ['"'] =
            (st ++ '"' :: (blanks ++ ['"']) ++ more) ++ [c] := by
          simpa using hmore
        have hblank := (List.append_inj' hlast rfl).1
        rcases List.eq_nil_or_concat more with rfl | ⟨more, d, rfl⟩
        · have hclash : (t ++ ['"']) ++ [' '] = (st ++ '"' :: blanks) ++ ['"'] := by
            simpa using hblank
          simpa using (List.append_inj' hclash rfl).2
        · have hclash : (t ++ ['"']) ++ [' '] =
              (st ++ '"' :: (blanks ++ ['"']) ++ more) ++ [d] := by simpa using hblank
          obtain rfl : ' ' = d := by simpa using (List.append_inj' hclash rfl).2
          simp [eraseQuotes] at hquotes
  have hcut : (t ++ '"' :: [' ']) ++ ['"'] = (st ++ '"' :: blanks) ++ ['"'] := by
    simpa using hfront
  exact (append_cons_inj (by simp) (quote_not_mem_of_isSpace hblanks)
    (List.append_inj' hcut rfl).1).1.symm

/-- For every text for which both commands are understood, they name the same key exactly when
it has no quotes. -/
theorem same_key_iff (hget : (parse (getLine t)).type = .get)
    (hput : (parse (putLine t u)).type = .put) (hvalue : (parse (putLine t u)).value = u)
    (hu : '"' ∉ u) : (parse (getLine t)).key = (parse (putLine t u)).key ↔ '"' ∉ t := by
  have hkey := eq_of_getLine (parse_eq_get hget)
  obtain ⟨st, st', hmatch, hputKey, hputValue⟩ := parse_eq_put hput
  obtain rfl := eq_of_putLine hmatch hu (hputValue.symm.trans hvalue)
  rw [hkey, hputKey]
  constructor
  · intro h
    rw [h]
    exact quote_not_mem_eraseQuotes st
  · exact fun h => (eraseQuotes_eq_self h).symm

theorem same_key_iff_spaced :
    (parse (getLine " a; b".toList)).key = (parse (putLine " a; b".toList "c".toList)).key :=
  (same_key_iff (by decide +kernel) (by decide +kernel) (by decide +kernel) (by decide)).mpr
    (by decide)

/-- What `put "a"b" "c"` stores is not what `get "a"b"` looks up. -/
theorem put_other_key :
    parse (getLine "a\"b".toList) = { type := .get, key := "a\"b".toList } ∧
    parse (putLine "a\"b".toList "c".toList) =
      { type := .put, key := "ab".toList, value := "c".toList } ∧
    "a\"b".toList ≠ "ab".toList := by
  refine ⟨?_, ?_, ?_⟩ <;> decide +kernel

end ClientOperation
end LeaderlessDatastore
