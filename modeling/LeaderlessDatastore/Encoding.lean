import LeaderlessDatastore.Codec

/-!
# Reading back what was written

Nothing is escaped in the text of a message.  The messages between replicas are read back
all the same, because their keys and values came in with a `PUT`.
-/

namespace LeaderlessDatastore

open Pattern Regex

/-! ## Keys that a `PUT` carries -/

/-- What stands between the key and the value. -/
def valueStart : Pattern Char := [lit "\",", space, lit "v:\""]

/-- No value starts inside the key or at the quote behind it. -/
structure Keyable (key : Text) : Prop where
  isDot : ∀ c ∈ key, isDot c
  whole : ∀ front rest delimiter after, key = front ++ rest → rest ≠ [] →
    rest ++ ['"'] = delimiter ++ after → ¬ Matches sameLetter valueStart delimiter []

theorem sharp_quote : Sharp sameLetter '"' := sharp_of_not_isAlpha (by decide)

theorem valueStart_ends {delimiter : Text} (h : Matches sameLetter valueStart delimiter []) :
    ∃ middle, delimiter = '"' :: (middle ++ ['"']) ∧ '"' ∉ middle := by
  have hcount : delimiter.count '"' = 2 :=
    h.count_eq sharp_quote (by simp [valueStart, Excludes, lit, space, Text.isSpace])
  obtain ⟨_, _, rfl, hcomma, spaces, _, _, rfl, -, ⟨_, _, rfl, hstart, rfl, -⟩, -⟩ := h
  obtain ⟨comma, rfl⟩ := sharp_quote.cons [','] hcomma
  obtain ⟨start, rfl⟩ := sharp_quote.concat ['v', ':'] hstart
  refine ⟨comma ++ (spaces ++ start), by simp, List.count_eq_zero.mp ?_⟩
  simp only [List.count_append, List.count_cons, List.count_nil, beq_self_eq_true] at hcount ⊢
  simp only [ite_true] at hcount
  omega

theorem keyable_of_not_mem {key : Text} (hquote : '"' ∉ key) (hdot : ∀ c ∈ key, isDot c) :
    Keyable key where
  isDot := hdot
  whole front rest delimiter after hkey hrest heq hmatch := by
    obtain ⟨c, rest, rfl⟩ := List.exists_cons_of_ne_nil hrest
    obtain ⟨middle, rfl, -⟩ := valueStart_ends hmatch
    obtain ⟨rfl, -⟩ := List.cons.inj heq
    exact hquote (by simp [hkey])

/-- Whatever text follows the quote. -/
theorem Keyable.not_matches {key front rest delimiter after tail : Text} (h : Keyable key)
    (hkey : key = front ++ rest) (hrest : rest ≠ [])
    (htail : rest ++ '"' :: tail = delimiter ++ after) :
    ¬ Matches sameLetter valueStart delimiter [] := by
  intro hmatch
  have htail' : (rest ++ ['"']) ++ tail = delimiter ++ after := by simpa using htail
  rcases List.append_eq_append_iff.mp htail' with ⟨more, hdelimiter, -⟩ | ⟨after', hrest', -⟩
  · -- a longer delimiter has a quote at both ends and the quote behind the key in between
    obtain ⟨middle, rfl, hmiddle⟩ := valueStart_ends hmatch
    obtain ⟨c, rest, rfl⟩ := List.exists_cons_of_ne_nil hrest
    simp only [List.cons_append, List.cons.injEq] at hdelimiter
    obtain ⟨rfl, heq⟩ := hdelimiter
    rcases List.eq_nil_or_concat more with rfl | ⟨more, d, rfl⟩
    · exact h.whole front _ _ [] hkey hrest (by simp [heq]) hmatch
    · rw [List.concat_eq_append, ← List.append_assoc] at heq
      have hmiddle' : middle = rest ++ ['"'] ++ more := (List.append_inj' heq rfl).1
      exact hmiddle (by simp [hmiddle'])
  · exact h.whole front rest delimiter after' hkey hrest hrest' hmatch

theorem exec_space {rest : Text} {items : Pattern Char} {groups : List Text}
    (hrest : ∀ c ∈ rest.head?, ¬ Text.isSpace c)
    (h : exec sameLetter items rest = some groups) :
    exec sameLetter (space :: items) (' ' :: rest) = some groups :=
  exec_greedy [' '] (by simp [Text.isSpace]) hrest h

theorem exec_key {key rest : Text} {items : Pattern Char} {groups : List Text} (h : Keyable key)
    (hrest : exec sameLetter items rest = some groups) :
    exec sameLetter (text :: (valueStart ++ items)) (key ++ ("\", v:\"".toList ++ rest)) =
      some (key :: groups) := by
  have hvalue : exec sameLetter (valueStart ++ items) ("\", v:\"".toList ++ rest) =
      some groups := by
    have hspace := exec_space (by simp [Text.isSpace])
      ((exec_lit sameLetter_refl "v:\"".toList rest).trans hrest)
    exact (exec_lit sameLetter_refl "\",".toList (' ' :: ("v:\"".toList ++ rest))).trans hspace
  refine exec_lazy h.isDot hvalue fun front middle hkey hmiddle =>
    exec_eq_none fun groups' hmatch => ?_
  obtain ⟨delimiter, after, groups₁, groups₂, hdelimiter, -, hmatch, -⟩ := matches_append.mp hmatch
  have hnil : groups₁ = [] := by
    obtain ⟨_, _, -, -, _, _, _, -, -, ⟨_, _, -, -, -, rfl⟩, rfl⟩ := hmatch
    rfl
  subst hnil
  exact h.not_matches hkey hmiddle hdelimiter hmatch

/-! ## The texts that are read as a `PUT` -/

section Append

variable {α : Type*} {a : α} {front rest start stop : List α}

theorem append_left_of_not_mem (h : front ++ rest = start ++ a :: stop) (ha : a ∉ front) :
    ∃ middle, start = front ++ middle ∧ rest = middle ++ a :: stop := by
  rcases List.append_eq_append_iff.mp h with ⟨t, hstart, hrest⟩ | ⟨t, hfront, hstop⟩
  · exact ⟨t, hstart, hrest⟩
  · cases t with
    | nil => exact ⟨[], by simpa using hfront.symm, by simpa using hstop.symm⟩
    | cons b t =>
      obtain ⟨rfl, -⟩ := List.cons.inj hstop
      exact absurd (by simp [hfront]) ha

theorem append_right_of_not_mem (h : front ++ rest = start ++ a :: stop) (ha : a ∉ rest) :
    ∃ middle, front = start ++ a :: middle ∧ stop = middle ++ rest := by
  rcases List.append_eq_append_iff.mp h with ⟨t, -, hrest⟩ | ⟨t, hfront, hstop⟩
  · exact absurd (by simp [hrest]) ha
  · cases t with
    | nil => exact absurd ((List.nil_append rest ▸ hstop) ▸ List.mem_cons_self) ha
    | cons b t =>
      obtain ⟨rfl, rfl⟩ := List.cons.inj hstop
      exact ⟨t, hfront, rfl⟩

end Append

theorem quote_not_mem_of_isSpace {spaces : Text} (h : ∀ c ∈ spaces, Text.isSpace c) :
    '"' ∉ spaces := fun hmem => by simpa [Text.isSpace] using h _ hmem

/-- Between two quotes of a `PUT` there is no line break. -/
theorem isDot_between {s body : Text} (start middle stop : Text)
    (hsplit : regexMatch s split = some ["PUT".toList, body])
    (hs : s = start ++ '"' :: (middle ++ '"' :: stop)) : ∀ c ∈ middle, isDot c := by
  obtain ⟨before, _, _, hs', hbefore, ⟨type, _, _, rfl, -, ⟨semicolon, _, rfl, hsemicolon, between,
    _, _, rfl, hbetween, ⟨body', _, _, rfl, hbody, ⟨behind, _, _, rfl, hbehind, ⟨rfl, -⟩, rfl⟩,
    rfl⟩, rfl⟩, rfl⟩, htype⟩ := matches_of_exec hsplit
  simp only [Bool.false_eq_true, if_false, if_true, List.cons.injEq] at htype
  obtain ⟨rfl, -⟩ := htype
  have hsemicolon' : semicolon.count '"' = 0 := sharp_quote.count_eq hsemicolon
  have hheader : '"' ∉ before ++ ("PUT".toList ++ (semicolon ++ between)) := by
    simp only [List.mem_append, not_or]
    exact ⟨quote_not_mem_of_isSpace hbefore, by decide, List.count_eq_zero.mp hsemicolon',
      quote_not_mem_of_isSpace hbetween⟩
  have heq : (before ++ ("PUT".toList ++ (semicolon ++ between))) ++ (body' ++ behind) =
      start ++ '"' :: (middle ++ '"' :: stop) := by
    rw [← hs, hs']
    simp
  obtain ⟨t, -, ht⟩ := append_left_of_not_mem heq hheader
  have ht' : body' ++ behind = (t ++ '"' :: middle) ++ '"' :: stop := by simp [ht]
  obtain ⟨t', hbody', -⟩ := append_right_of_not_mem ht' (quote_not_mem_of_isSpace hbehind)
  exact fun c hc => hbody c (by simp [hbody', hc])

theorem keyable_of_toMessage {s key value : Text}
    (h : ServerMessage.toMessage s = .ok (.put key value)) :
    Keyable key ∧ ∀ c ∈ value, isDot c := by
  obtain ⟨body, hsplit, hput⟩ := ServerMessage.regexMatch_of_toMessage h
  -- the text in front of the key
  obtain ⟨before, _, _, hs, -, hname, hgroups, -⟩ := exec_run_some hput
  obtain ⟨name, _, rfl, -, hbetween⟩ := exec_lit_some hname
  obtain ⟨between, _, _, rfl, -, hkeyStart, rfl, -⟩ := exec_run_some hbetween
  obtain ⟨keyStart, _, rfl, -, hkeyText⟩ := exec_lit_some hkeyStart
  obtain ⟨key', _, _, rfl, hkey, hcommas, rfl, hfirst⟩ := exec_run_some hkeyText
  -- the text behind the key
  obtain ⟨_, _, rfl, hcomma, hspaces⟩ := exec_lit_some hcommas
  obtain ⟨spaces, _, _, rfl, -, hstarts, rfl, -⟩ := exec_run_some hspaces
  obtain ⟨_, _, rfl, hstart, hvalueText⟩ := exec_lit_some hstarts
  obtain ⟨value', _, _, rfl, hvalue, hquotes, rfl, -⟩ := exec_run_some hvalueText
  obtain ⟨quote, behind, rfl, hquote, hbehind⟩ := exec_lit_some hquotes
  obtain ⟨comma, rfl⟩ := sharp_quote.cons [','] hcomma
  obtain ⟨start, rfl⟩ := sharp_quote.concat ['v', ':'] hstart
  simp only [Bool.false_eq_true, if_false, if_true, List.cons.injEq] at hgroups
  obtain ⟨rfl, rfl, -⟩ := hgroups
  obtain ⟨last, hlast⟩ : ∃ last, s = s.dropLast ++ [last] := by
    rcases List.eq_nil_or_concat s with rfl | ⟨front, last, rfl⟩
    · simp at hs
    · exact ⟨last, by simp⟩
  have hmiddle : ∀ c ∈ comma ++ (spaces ++ start), isDot c :=
    isDot_between (before ++ (name ++ (between ++ (keyStart ++ key)))) _
      (value ++ (quote ++ (behind ++ [last]))) hsplit (by rw [hlast, hs]; simp)
  refine ⟨⟨hkey, fun front rest delimiter after hfront hrest hdelimiter hmatch => ?_⟩, hvalue⟩
  -- a shorter key would have been found first, with a value that reaches as far
  have hafter : ∀ c ∈ after, isDot c := by
    intro c hc
    have hmem : c ∈ rest ++ ['"'] := by simp [hdelimiter, hc]
    rcases List.mem_append.mp hmem with hc | hc
    · exact hkey c (by simp [hfront, hc])
    · obtain rfl := List.mem_singleton.mp hc
      rfl
  have hlonger : ∀ c ∈ after ++ (comma ++ (spaces ++ start) ++ '"' :: value), isDot c := by
    simp only [List.forall_mem_append, List.forall_mem_cons] at hmiddle ⊢
    exact ⟨hafter, hmiddle, rfl, hvalue⟩
  have htext : rest ++
      ('"' :: comma ++ (spaces ++ (start ++ ['"'] ++ (value ++ (quote ++ behind))))) =
        delimiter ++
          (after ++ (comma ++ (spaces ++ start) ++ '"' :: value) ++ (quote ++ behind)) := by
    have := congrArg (· ++ (comma ++ (spaces ++ start) ++ '"' :: value ++ (quote ++ behind)))
      hdelimiter
    simpa using this
  have hlate : Matches sameLetter (valueStart ++ [text, lit "\"", space]) _ _ :=
    matches_append.mpr ⟨delimiter, _, [], _, htext, rfl, hmatch, _, _, _, rfl, hlonger,
      ⟨quote, behind, rfl, hquote, matches_of_exec hbehind⟩, rfl⟩
  exact exec_ne_none hlate (hfirst rfl front _ (by rw [hfront, List.append_assoc])
    (by
      have := List.length_pos_iff.mpr hrest
      rw [hfront, List.length_append]
      omega))

/-! ## Pieces of the texts that are written -/

section Pieces

variable {name body rest key value : Text} {items : Pattern Char} {groups : List Text} {n : ℤ}

theorem isDigit_of_mem_ofInt (hn : 0 ≤ n) {c : Char} (hc : c ∈ Text.ofInt n) : c.isDigit := by
  obtain ⟨m, rfl⟩ := Int.eq_ofNat_of_zero_le hn
  exact Text.isDigit_of_mem_toDigits hc

theorem exec_end : exec sameLetter [space] [] = some [] := rfl

theorem exec_tId (hn : 0 ≤ n) (hrest : ∀ c ∈ rest.head?, ¬ Text.isSpace c)
    (h : exec sameLetter items rest = some groups) :
    exec sameLetter (lit "tId:" :: digits :: lit "," :: space :: items)
      ("tId:".toList ++ (Text.ofInt n ++ (", ".toList ++ rest))) =
        some (Text.ofInt n :: groups) := by
  have hcomma : exec sameLetter (lit "," :: space :: items) (", ".toList ++ rest) = some groups :=
    (exec_lit sameLetter_refl ",".toList (' ' :: rest)).trans (exec_space hrest h)
  exact (exec_lit sameLetter_refl _ _).trans
    (exec_greedy _ (fun c => isDigit_of_mem_ofInt hn) (by simp) hcomma)

theorem exec_closing : exec sameLetter [lit "\"", space] "\"".toList = some [] := by decide

theorem exec_null :
    exec sameLetter [lit "\",", space, lit "v:null", space] "\", v:null".toList = some [] := by
  decide

theorem exec_timestamp (hn : 0 ≤ n) :
    exec sameLetter [lit "\",", space, lit "ts:", digits, space]
      ("\", ts:".toList ++ Text.ofInt n) = some [Text.ofInt n] := by
  have hdigits : exec sameLetter [digits, space] (Text.ofInt n ++ []) = some [Text.ofInt n] :=
    exec_greedy _ (fun c => isDigit_of_mem_ofInt hn) (by simp) exec_end
  rw [List.append_nil] at hdigits
  have hspace := exec_space (by simp [Text.isSpace])
    ((exec_lit sameLetter_refl "ts:".toList _).trans hdigits)
  exact (exec_lit sameLetter_refl "\",".toList _).trans hspace

/-- The last text in quotes. -/
theorem exec_quoted (word : Text) (hexcludes : Excludes '"' (.lit ('"' :: word) :: items))
    (hcount : literalCount '"' (.lit ('"' :: word) :: items) = 1) (hvalue : ∀ c ∈ value, isDot c)
    (h : exec sameLetter (.lit ('"' :: word) :: items) rest = some groups) :
    exec sameLetter (text :: .lit ('"' :: word) :: items) (value ++ rest) =
      some (value :: groups) :=
  exec_lazy_last sharp_quote hexcludes rfl hcount hvalue h

theorem exec_lastQuoted (hvalue : ∀ c ∈ value, isDot c) :
    exec sameLetter [text, lit "\"", space] (value ++ "\"".toList) = some [value] :=
  exec_quoted [] (by simp [Excludes, space, Text.isSpace]) (by decide) hvalue exec_closing

theorem exec_quotedTimestamp (hvalue : ∀ c ∈ value, isDot c) (hn : 0 ≤ n) :
    exec sameLetter [text, lit "\",", space, lit "ts:", digits, space]
      (value ++ ("\", ts:".toList ++ Text.ofInt n)) = some [value, Text.ofInt n] :=
  exec_quoted [','] (by simp [Excludes, space, digits, lit, Text.isSpace]) (by decide)
    hvalue (exec_timestamp hn)

theorem isDot_ofInt (hn : 0 ≤ n) : ∀ c ∈ Text.ofInt n, isDot c := by
  intro c hc
  have hdigit := isDigit_of_mem_ofInt hn hc
  have hline : c ≠ '\n' := by
    rintro rfl
    simp at hdigit
  have hreturn : c ≠ '\r' := by
    rintro rfl
    simp at hdigit
  simp [isDot, hline, hreturn]

theorem number_ofInt (hn : 0 ≤ n ∧ n < 2 ^ 31) : number (Text.stoi (Text.ofInt n)) = .ok n := by
  rw [Text.stoi_ofInt hn.1 hn.2]
  rfl

end Pieces

/-! ## The type of a message -/

section Header

variable {name body : Text} {message : Message Text Text}

theorem ne_of_isUpper (hname : ∀ c ∈ name, c.isUpper || c = '_') {c d : Char} (hc : c ∈ name)
    (hupper : d.isUpper = false) (hd : d ≠ '_') : c ≠ d := by
  rintro rfl
  simpa [hupper, hd] using hname c hc

theorem not_isSpace_of_isUpper (hname : ∀ c ∈ name, c.isUpper || c = '_') {rest : Text} :
    ∀ c ∈ (name ++ ';' :: rest).head?, ¬ Text.isSpace c := by
  cases name with
  | nil => simp [Text.isSpace]
  | cons c name =>
    rintro _ ⟨⟩ hspace
    simp only [Text.isSpace, Bool.or_eq_true, decide_eq_true_eq] at hspace
    rcases hspace with ((((h | h) | h) | h) | h) | h
    all_goals exact ne_of_isUpper hname List.mem_cons_self rfl (by decide) h

/-- A text that ends in no blank is the group. -/
theorem exec_trimmed {c : Char} (hbody : ∀ d ∈ body ++ [c], isDot d)
    (hc : Text.isSpace c = false) :
    exec sameLetter [text, space] (body ++ [c]) = some [body ++ [c]] := by
  have hlazy : exec sameLetter [text, space] (body ++ [c] ++ []) = some [body ++ [c]] :=
    exec_lazy hbody exec_end fun front middle heq hmiddle => exec_eq_none fun groups hmatch => ?_
  · rwa [List.append_nil] at hlazy
  · obtain ⟨run, _, _, hrun, hspace, ⟨rfl, -⟩, -⟩ := hmatch
    obtain ⟨middle, d, rfl⟩ := (List.eq_nil_or_concat middle).resolve_left hmiddle
    rw [List.concat_eq_append, ← List.append_assoc] at heq
    obtain ⟨-, hd⟩ := List.append_inj' heq rfl
    obtain rfl : c = d := by simpa using hd
    have hblank := hspace c (by rw [← List.append_nil run, ← hrun]; simp)
    simp [hc] at hblank

theorem regexMatch_split (hname : ∀ c ∈ name, c.isUpper || c = '_')
    (hhead : ∀ c ∈ body.head?, ¬ Text.isSpace c) (hbody : ∀ c ∈ body, isDot c) :
    regexMatch (name ++ ';' :: ' ' :: body ++ [escape]) split = some [name, body ++ [escape]] := by
  have hdot : ∀ c ∈ name, isDot c := fun c hc => by
    simp [isDot, ne_of_isUpper hname hc (d := '\n') rfl (by decide),
      ne_of_isUpper hname hc (d := '\r') rfl (by decide)]
  have hbehind : exec sameLetter [text, space] (body ++ [escape]) = some [body ++ [escape]] := by
    refine exec_trimmed ?_ (by simp [escape, Text.isSpace])
    simp only [List.forall_mem_append, List.forall_mem_singleton]
    exact ⟨hbody, rfl⟩
  have htail : exec sameLetter [lit ";", space, text, space] (';' :: ' ' :: (body ++ [escape])) =
      some [body ++ [escape]] := by
    have hhead' : ∀ c ∈ (body ++ [escape]).head?, ¬ Text.isSpace c := by
      cases body with
      | nil => simp [escape, Text.isSpace]
      | cons c body => exact hhead
    exact (exec_lit sameLetter_refl ";".toList _).trans (exec_space hhead' hbehind)
  have hsplit : exec sameLetter [text, lit ";", space, text, space]
      (name ++ ';' :: ' ' :: (body ++ [escape])) = some [name, body ++ [escape]] := by
    refine exec_lazy hdot htail fun front middle heq hmiddle => exec_eq_none fun groups hmatch => ?_
    obtain ⟨c, middle, rfl⟩ := List.exists_cons_of_ne_nil hmiddle
    obtain ⟨_, _, htext, hsemicolon, -⟩ := hmatch
    obtain ⟨_, rfl⟩ := (sharp_of_not_isAlpha (a := ';') rfl).cons [] hsemicolon
    exact ne_of_isUpper hname (by simp [heq]) rfl (by decide) (List.cons.inj htext).1
  rw [List.append_assoc]
  exact exec_greedy [] (by simp) (not_isSpace_of_isUpper hname) hsplit

theorem regexMatch_of_exec {word : String} {items : Pattern Char} {groups : List Text}
    (hname : ∀ c ∈ name, c.isUpper || c = '_') (hword : word.toList = name ++ [';'])
    (hhead : ∀ c ∈ body.head?, ¬ Text.isSpace c)
    (hexec : exec sameLetter items body = some groups) :
    regexMatch (name ++ ';' :: ' ' :: body) (space :: lit word :: space :: items) =
      some groups := by
  have hlit := (exec_lit sameLetter_refl word.toList (' ' :: body)).trans (exec_space hhead hexec)
  have htext : word.toList ++ ' ' :: body = name ++ ';' :: ' ' :: body := by simp [hword]
  rw [htext] at hlit
  exact exec_greedy [] (by simp) (not_isSpace_of_isUpper hname) hlit

/-- A text with a name of a type in front goes to the decoder of that type. -/
theorem toMessage_eq_toMessageOf {s : Text} (type : MessageType)
    (hs : s = name ++ ';' :: ' ' :: body) (hname : ∀ c ∈ name, c.isUpper || c = '_')
    (htype : Message.toMessageType name = .ok type) (hserver : type ∉ [.ack, .nack, .value])
    (hhead : ∀ c ∈ body.head?, ¬ Text.isSpace c) (hbody : ∀ c ∈ body, isDot c) :
    ServerMessage.toMessage (s ++ [escape]) = ServerMessage.toMessageOf type s := by
  have hsplit : regexMatch (s ++ [escape]) split = some [name, body ++ [escape]] := by
    rw [hs]
    exact regexMatch_split hname hhead hbody
  have hcommon : Message.toMessage (s ++ [escape]) =
      .error (.runtimeError "Unable to parse message") := by
    simp only [Message.toMessage, hsplit, htype]
    cases type <;> first | rfl | simp at hserver
  simp only [ServerMessage.toMessage, hcommon, hsplit, htype]
  rw [List.dropLast_concat]
  rfl

theorem toMessage_of_type {s : Text} (type : MessageType) (hs : s = name ++ ';' :: ' ' :: body)
    (hname : ∀ c ∈ name, c.isUpper || c = '_') (htype : Message.toMessageType name = .ok type)
    (hserver : type ∉ [.ack, .nack, .value]) (hhead : ∀ c ∈ body.head?, ¬ Text.isSpace c)
    (hbody : ∀ c ∈ body, isDot c) (hdecode : ServerMessage.toMessageOf type s = .ok message) :
    ServerMessage.toMessage (s ++ [escape]) = .ok message :=
  (toMessage_eq_toMessageOf type hs hname htype hserver hhead hbody).trans hdecode

end Header

/-! ## The nine messages -/

section Messages

variable {key value : Text} {uid timestamp : ℤ}

theorem toMessage_fetch (hkey : Keyable key) :
    ServerMessage.toMessage ((Message.fetch key).toString ++ [escape]) = .ok (.fetch key) := by
  have hs : (Message.fetch key).toString =
      "FETCH".toList ++ ';' :: ' ' :: ("k:\"".toList ++ (key ++ "\"".toList)) := by
    unfold Message.toString ServerMessage.Fetch.toString
    simp
  have hmatch : regexMatch (Message.fetch key).toString fetch = some [key] :=
    hs ▸ regexMatch_of_exec (by simp) (by simp) (by simp [Text.isSpace])
      ((exec_lit sameLetter_refl "k:\"".toList _).trans (exec_lastQuoted hkey.isDot))
  refine toMessage_of_type .fetch hs (by simp) (by decide) (by decide) (by simp [Text.isSpace])
    ?_ ?_
  · simp only [List.forall_mem_append]
    exact ⟨by simp [isDot], hkey.isDot, by simp [isDot]⟩
  · simp [ServerMessage.toMessageOf, ServerMessage.Fetch.toMessage, hmatch]

theorem toMessage_voteAbort (hkey : Keyable key) (huid : 0 ≤ uid ∧ uid < 2 ^ 31) :
    ServerMessage.toMessage ((Message.voteAbort uid key).toString ++ [escape]) =
      .ok (.voteAbort uid key) := by
  have hs : (Message.voteAbort uid key).toString = "VOTE_ABORT".toList ++ ';' :: ' ' ::
      ("tId:".toList ++ (Text.ofInt uid ++ (", ".toList ++
        ("k:\"".toList ++ (key ++ "\"".toList))))) := by
    unfold Message.toString ServerMessage.VoteAbort.toString
    simp
  have hmatch : regexMatch (Message.voteAbort uid key).toString voteAbort =
      some [Text.ofInt uid, key] :=
    hs ▸ regexMatch_of_exec (by simp) (by simp) (by simp [Text.isSpace])
      (exec_tId huid.1 (by simp [Text.isSpace])
        ((exec_lit sameLetter_refl "k:\"".toList _).trans (exec_lastQuoted hkey.isDot)))
  refine toMessage_of_type .voteAbort hs (by simp) (by decide) (by decide)
    (by simp [Text.isSpace]) ?_ ?_
  · simp only [List.forall_mem_append]
    exact ⟨by simp [isDot], isDot_ofInt huid.1, by simp [isDot], by simp [isDot], hkey.isDot,
      by simp [isDot]⟩
  · simp only [ServerMessage.toMessageOf, ServerMessage.VoteAbort.toMessage, hmatch,
      number_ofInt huid]
    rfl

theorem toMessage_globalAbort (hkey : Keyable key) (huid : 0 ≤ uid ∧ uid < 2 ^ 31) :
    ServerMessage.toMessage ((Message.globalAbort uid key).toString ++ [escape]) =
      .ok (.globalAbort uid key) := by
  have hs : (Message.globalAbort uid key).toString = "GLOBAL_ABORT".toList ++ ';' :: ' ' ::
      ("tId:".toList ++ (Text.ofInt uid ++ (", ".toList ++
        ("k:\"".toList ++ (key ++ "\"".toList))))) := by
    unfold Message.toString ServerMessage.GlobalAbort.toString
    simp
  have hmatch : regexMatch (Message.globalAbort uid key).toString globalAbort =
      some [Text.ofInt uid, key] :=
    hs ▸ regexMatch_of_exec (by simp) (by simp) (by simp [Text.isSpace])
      (exec_tId huid.1 (by simp [Text.isSpace])
        ((exec_lit sameLetter_refl "k:\"".toList _).trans (exec_lastQuoted hkey.isDot)))
  refine toMessage_of_type .globalAbort hs (by simp) (by decide) (by decide)
    (by simp [Text.isSpace]) ?_ ?_
  · simp only [List.forall_mem_append]
    exact ⟨by simp [isDot], isDot_ofInt huid.1, by simp [isDot], by simp [isDot], hkey.isDot,
      by simp [isDot]⟩
  · simp only [ServerMessage.toMessageOf, ServerMessage.GlobalAbort.toMessage, hmatch,
      number_ofInt huid]
    rfl

theorem toMessage_voteCommit (hkey : Keyable key) (huid : 0 ≤ uid ∧ uid < 2 ^ 31)
    (htimestamp : 0 ≤ timestamp ∧ timestamp < 2 ^ 31) :
    ServerMessage.toMessage ((Message.voteCommit uid key timestamp).toString ++ [escape]) =
      .ok (.voteCommit uid key timestamp) := by
  have hs : (Message.voteCommit uid key timestamp).toString = "VOTE_COMMIT".toList ++ ';' :: ' ' ::
      ("tId:".toList ++ (Text.ofInt uid ++ (", ".toList ++
        ("k:\"".toList ++ (key ++ ("\", ts:".toList ++ Text.ofInt timestamp)))))) := by
    unfold Message.toString ServerMessage.VoteCommit.toString
    simp
  have hmatch : regexMatch (Message.voteCommit uid key timestamp).toString voteCommit =
      some [Text.ofInt uid, key, Text.ofInt timestamp] :=
    hs ▸ regexMatch_of_exec (by simp) (by simp) (by simp [Text.isSpace])
      (exec_tId huid.1 (by simp [Text.isSpace])
        ((exec_lit sameLetter_refl "k:\"".toList _).trans
          (exec_quotedTimestamp hkey.isDot htimestamp.1)))
  refine toMessage_of_type .voteCommit hs (by simp) (by decide) (by decide)
    (by simp [Text.isSpace]) ?_ ?_
  · simp only [List.forall_mem_append]
    exact ⟨by simp [isDot], isDot_ofInt huid.1, by simp [isDot], by simp [isDot], hkey.isDot,
      by simp [isDot], isDot_ofInt htimestamp.1⟩
  · simp only [ServerMessage.toMessageOf, ServerMessage.VoteCommit.toMessage, hmatch,
      number_ofInt huid, number_ofInt htimestamp]
    rfl

theorem toMessage_prepare (hkey : Keyable key) (hvalue : ∀ c ∈ value, isDot c)
    (huid : 0 ≤ uid ∧ uid < 2 ^ 31) :
    ServerMessage.toMessage ((Message.prepare uid key value).toString ++ [escape]) =
      .ok (.prepare uid key value) := by
  have hs : (Message.prepare uid key value).toString = "PREPARE".toList ++ ';' :: ' ' ::
      ("tId:".toList ++ (Text.ofInt uid ++ (", ".toList ++
        ("k:\"".toList ++ (key ++ ("\", v:\"".toList ++ (value ++ "\"".toList))))))) := by
    unfold Message.toString ServerMessage.Prepare.toString
    simp
  have hmatch : regexMatch (Message.prepare uid key value).toString prepare =
      some [Text.ofInt uid, key, value] :=
    hs ▸ regexMatch_of_exec (by simp) (by simp) (by simp [Text.isSpace])
      (exec_tId huid.1 (by simp [Text.isSpace])
        ((exec_lit sameLetter_refl "k:\"".toList _).trans (exec_key hkey (exec_lastQuoted hvalue))))
  refine toMessage_of_type .prepare hs (by simp) (by decide) (by decide)
    (by simp [Text.isSpace]) ?_ ?_
  · simp only [List.forall_mem_append]
    exact ⟨by simp [isDot], isDot_ofInt huid.1, by simp [isDot], by simp [isDot], hkey.isDot,
      by simp [isDot], hvalue, by simp [isDot]⟩
  · simp only [ServerMessage.toMessageOf, ServerMessage.Prepare.toMessage, hmatch,
      number_ofInt huid]
    rfl

theorem toMessage_globalCommit (hkey : Keyable key) (hvalue : ∀ c ∈ value, isDot c)
    (huid : 0 ≤ uid ∧ uid < 2 ^ 31) (htimestamp : 0 ≤ timestamp ∧ timestamp < 2 ^ 31) :
    ServerMessage.toMessage ((Message.globalCommit uid key value timestamp).toString ++ [escape]) =
      .ok (.globalCommit uid key value timestamp) := by
  have hs : (Message.globalCommit uid key value timestamp).toString =
      "GLOBAL_COMMIT".toList ++ ';' :: ' ' :: ("tId:".toList ++ (Text.ofInt uid ++ (", ".toList ++
        ("k:\"".toList ++ (key ++ ("\", v:\"".toList ++
          (value ++ ("\", ts:".toList ++ Text.ofInt timestamp)))))))) := by
    unfold Message.toString ServerMessage.GlobalCommit.toString
    simp
  have hmatch : regexMatch (Message.globalCommit uid key value timestamp).toString globalCommit =
      some [Text.ofInt uid, key, value, Text.ofInt timestamp] :=
    hs ▸ regexMatch_of_exec (by simp) (by simp) (by simp [Text.isSpace])
      (exec_tId huid.1 (by simp [Text.isSpace])
        ((exec_lit sameLetter_refl "k:\"".toList _).trans
          (exec_key hkey (exec_quotedTimestamp hvalue htimestamp.1))))
  refine toMessage_of_type .globalCommit hs (by simp) (by decide) (by decide)
    (by simp [Text.isSpace]) ?_ ?_
  · simp only [List.forall_mem_append]
    exact ⟨by simp [isDot], isDot_ofInt huid.1, by simp [isDot], by simp [isDot], hkey.isDot,
      by simp [isDot], hvalue, by simp [isDot], isDot_ofInt htimestamp.1⟩
  · simp only [ServerMessage.toMessageOf, ServerMessage.GlobalCommit.toMessage, hmatch,
      number_ofInt huid, number_ofInt htimestamp]
    rfl

theorem toMessage_repair (hkey : Keyable key) (hvalue : ∀ c ∈ value, isDot c)
    (htimestamp : 0 ≤ timestamp ∧ timestamp < 2 ^ 31) :
    ServerMessage.toMessage ((Message.repair key value timestamp).toString ++ [escape]) =
      .ok (.repair key value timestamp) := by
  have hs : (Message.repair key value timestamp).toString = "REPAIR".toList ++ ';' :: ' ' ::
      ("k:\"".toList ++ (key ++ ("\", v:\"".toList ++
        (value ++ ("\", ts:".toList ++ Text.ofInt timestamp))))) := by
    unfold Message.toString ServerMessage.Repair.toString
    simp
  have hmatch : regexMatch (Message.repair key value timestamp).toString repair =
      some [key, value, Text.ofInt timestamp] :=
    hs ▸ regexMatch_of_exec (by simp) (by simp) (by simp [Text.isSpace])
      ((exec_lit sameLetter_refl "k:\"".toList _).trans
        (exec_key hkey (exec_quotedTimestamp hvalue htimestamp.1)))
  refine toMessage_of_type .repair hs (by simp) (by decide) (by decide)
    (by simp [Text.isSpace]) ?_ ?_
  · simp only [List.forall_mem_append]
    exact ⟨by simp [isDot], hkey.isDot, by simp [isDot], hvalue, by simp [isDot],
      isDot_ofInt htimestamp.1⟩
  · simp only [ServerMessage.toMessageOf, ServerMessage.Repair.toMessage, hmatch,
      number_ofInt htimestamp]
    rfl

theorem toMessage_fetchedValue_some (hkey : Keyable key) (hvalue : ∀ c ∈ value, isDot c)
    (htimestamp : 0 ≤ timestamp ∧ timestamp < 2 ^ 31) :
    ServerMessage.toMessage
      ((Message.fetchedValue key (some (value, timestamp))).toString ++ [escape]) =
        .ok (.fetchedValue key (some (value, timestamp))) := by
  have hs : (Message.fetchedValue key (some (value, timestamp))).toString =
      "FETCHED_VALUE".toList ++ ';' :: ' ' :: ("k:\"".toList ++ (key ++ ("\", v:\"".toList ++
        (value ++ ("\", ts:".toList ++ Text.ofInt timestamp))))) := by
    unfold Message.toString ServerMessage.FetchedValue.toString
    simp
  have hmatch : regexMatch (Message.fetchedValue key (some (value, timestamp))).toString
      fetchedValue = some [key, value, Text.ofInt timestamp] :=
    hs ▸ regexMatch_of_exec (by simp) (by simp) (by simp [Text.isSpace])
      ((exec_lit sameLetter_refl "k:\"".toList _).trans
        (exec_key hkey (exec_quotedTimestamp hvalue htimestamp.1)))
  refine toMessage_of_type .fetchedValue hs (by simp) (by decide) (by decide)
    (by simp [Text.isSpace]) ?_ ?_
  · simp only [List.forall_mem_append]
    exact ⟨by simp [isDot], hkey.isDot, by simp [isDot], hvalue, by simp [isDot],
      isDot_ofInt htimestamp.1⟩
  · simp only [ServerMessage.toMessageOf, ServerMessage.FetchedValue.toMessage, hmatch,
      number_ofInt htimestamp]
    rfl

/-- A text with a version at its end does not end with a letter. -/
theorem regexMatch_fetchedValue_eq_none {front : Text} :
    regexMatch (front ++ ['l']) fetchedValue = none := by
  refine exec_eq_none fun groups hmatch => ?_
  have hcut : Matches sameLetter (fetchedValue.take 11 ++ [lit "ts:", digits, space])
    (front ++ ['l']) groups := hmatch
  obtain ⟨before, rest, _, _, htext, -, -, hversion⟩ := matches_append.mp hcut
  obtain ⟨_, _, rfl, hword, number, _, _, rfl, hnumber, ⟨behind, _, _, rfl, hbehind, ⟨rfl, -⟩, -⟩,
    -⟩ := hversion
  obtain ⟨start, rfl⟩ := (sharp_of_not_isAlpha (a := ':') rfl).concat ['t', 's'] hword
  have hletter : 'l' ∉ ':' :: (number ++ behind) := by
    simp only [List.mem_cons, List.mem_append, not_or]
    refine ⟨by decide, fun h => ?_, fun h => ?_⟩
    · simpa using hnumber _ h
    · simpa [Text.isSpace] using hbehind _ h
  have heq : (before ++ start) ++ ':' :: (number ++ behind) = front ++ 'l' :: [] := by
    rw [htext]
    simp
  obtain ⟨middle, -, hnil⟩ := append_right_of_not_mem heq hletter
  simp at hnil

theorem toMessage_fetchedValue_none (hkey : Keyable key) :
    ServerMessage.toMessage ((Message.fetchedValue key none).toString ++ [escape]) =
      .ok (.fetchedValue key none) := by
  have hs : (Message.fetchedValue key none).toString = "FETCHED_VALUE".toList ++ ';' :: ' ' ::
      ("k:\"".toList ++ (key ++ "\", v:null".toList)) := by
    unfold Message.toString ServerMessage.FetchedValue.toString
    simp
  have hvalued : regexMatch (Message.fetchedValue key none).toString fetchedValue = none := by
    have hlast : (Message.fetchedValue key none).toString = "FETCHED_VALUE".toList ++ ';' :: ' ' ::
      ("k:\"".toList ++ (key ++ "\", v:nul".toList)) ++ ['l'] := by
      rw [hs]
      simp
    rw [hlast]
    exact regexMatch_fetchedValue_eq_none
  have hmatch : regexMatch (Message.fetchedValue key none).toString fetchedValueNull =
      some [key] :=
    hs ▸ regexMatch_of_exec (by simp) (by simp) (by simp [Text.isSpace])
      ((exec_lit sameLetter_refl "k:\"".toList _).trans
        (exec_quoted [','] (by simp [Excludes, space, lit, Text.isSpace]) (by decide) hkey.isDot
          exec_null))
  refine toMessage_of_type .fetchedValue hs (by simp) (by decide) (by decide)
    (by simp [Text.isSpace]) ?_ ?_
  · simp only [List.forall_mem_append]
    exact ⟨by simp [isDot], hkey.isDot, by simp [isDot]⟩
  · simp only [ServerMessage.toMessageOf, ServerMessage.FetchedValue.toMessage, hvalued, hmatch]

end Messages

/-- The messages between replicas about a key and a value of a `PUT`. -/
def replicaMessages (key value : Text) (uid timestamp : ℤ) : List (Message Text Text) :=
  [.prepare uid key value, .voteCommit uid key timestamp, .voteAbort uid key,
    .globalAbort uid key, .globalCommit uid key value timestamp, .fetch key,
    .fetchedValue key none, .fetchedValue key (some (value, timestamp)),
    .repair key value timestamp]

/-- What the replicas write about the key and the value of a `PUT` is read as it was meant. -/
theorem toMessage_toString {s key value : Text} {uid timestamp : ℤ}
    (hput : ServerMessage.toMessage s = .ok (.put key value)) (huid : 0 ≤ uid ∧ uid < 2 ^ 31)
    (htimestamp : 0 ≤ timestamp ∧ timestamp < 2 ^ 31) {message : Message Text Text}
    (hmessage : message ∈ replicaMessages key value uid timestamp) :
    ServerMessage.toMessage (message.toString ++ [escape]) = .ok message := by
  obtain ⟨hkey, hvalue⟩ := keyable_of_toMessage hput
  simp only [replicaMessages, List.mem_cons, List.not_mem_nil, or_false] at hmessage
  rcases hmessage with rfl | rfl | rfl | rfl | rfl | rfl | rfl | rfl | rfl
  · exact toMessage_prepare hkey hvalue huid
  · exact toMessage_voteCommit hkey huid htimestamp
  · exact toMessage_voteAbort hkey huid
  · exact toMessage_globalAbort hkey huid
  · exact toMessage_globalCommit hkey hvalue huid htimestamp
  · exact toMessage_fetch hkey
  · exact toMessage_fetchedValue_none hkey
  · exact toMessage_fetchedValue_some hkey hvalue htimestamp
  · exact toMessage_repair hkey hvalue htimestamp

theorem toMessage_toString_quotes :
    ServerMessage.toMessage
      ((Message.repair "a\"; ts:5".toList "b\", v:\"c".toList 7).toString ++ [escape]) =
        .ok (.repair "a\"; ts:5".toList "b\", v:\"c".toList 7) := by
  have hput : ServerMessage.toMessage "PUT; k:\"a\"; ts:5\", v:\"b\", v:\"c\"\x1b".toList =
      .ok (.put "a\"; ts:5".toList "b\", v:\"c".toList) := by decide +kernel
  have huid : (0 : ℤ) ≤ 3 ∧ (3 : ℤ) < 2 ^ 31 := by decide
  have htimestamp : (0 : ℤ) ≤ 7 ∧ (7 : ℤ) < 2 ^ 31 := by decide
  exact toMessage_toString hput huid htimestamp (by simp [replicaMessages])

end LeaderlessDatastore
