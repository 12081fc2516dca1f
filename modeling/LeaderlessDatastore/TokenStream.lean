import LeaderlessDatastore.Text

/-!
# Files read token by token

Reading with `file >> tmp`, and loops around it that are given a number of iterations: `running`
is the outcome of a loop that has not ended within them.
-/

namespace LeaderlessDatastore

/-! ## Outcomes -/

inductive Outcome (α : Type) where
  | value (a : α)
  | throw (what : Text)
  | running

namespace Outcome

variable {α β : Type}

def bind : Outcome α → (α → Outcome β) → Outcome β
  | value a, f => f a
  | throw what, _ => throw what
  | running, _ => running

instance : Monad Outcome where
  pure := value
  bind := bind

theorem bind_eq_value {x : Outcome α} {f : α → Outcome β} {b : β} :
    x.bind f = value b ↔ ∃ a, x = value a ∧ f a = value b := by
  cases x <;> simp [bind]

/-- A loop that has not ended is below every outcome it may still have. -/
instance : Preorder (Outcome α) where
  le x y := x = running ∨ x = y
  le_refl _ := .inr rfl
  le_trans x y z := by
    rintro (rfl | rfl) hyz
    · exact .inl rfl
    · exact hyz

theorem running_le (x : Outcome α) : running ≤ x := .inl rfl

theorem eq_of_le {x y : Outcome α} (h : x ≤ y) (hx : x ≠ running) : x = y :=
  h.resolve_left hx

theorem eq_running_of_le {x y : Outcome α} (h : x ≤ y) (hy : y = running) : x = running :=
  h.elim id fun hxy => hxy.trans hy

theorem bind_mono {x y : Outcome α} {f g : α → Outcome β} (h : x ≤ y) (hfg : ∀ a, f a ≤ g a) :
    x.bind f ≤ y.bind g := by
  rcases h with rfl | rfl
  · exact running_le _
  · cases x with
    | value a => exact hfg a
    | throw what => exact le_rfl
    | running => exact running_le _

theorem bind_eq_running {x : Outcome α} {f : α → Outcome β} :
    x.bind f = running ↔ x = running ∨ ∃ a, x = value a ∧ f a = running := by
  cases x <;> simp [bind]

/-- Two runs that end have the same outcome. -/
theorem eq_of_monotone {f : ℕ → Outcome α} (hf : Monotone f) {fuel fuel' : ℕ} {x y : Outcome α}
    (h : f fuel = x) (hx : x ≠ running) (h' : f fuel' = y) (hy : y ≠ running) : x = y := by
  subst h h'
  exact (eq_of_le (hf (le_max_left fuel fuel')) hx).trans
    (eq_of_le (hf (le_max_right fuel fuel')) hy).symm

theorem ends_iff {f : ℕ → Outcome α} (hf : Monotone f) {n : ℕ} {P : Prop}
    (h : ∀ fuel, n ≤ fuel → (f fuel ≠ running ↔ P)) : (∃ fuel, f fuel ≠ running) ↔ P := by
  refine ⟨fun ⟨fuel, hfuel⟩ => (h _ (le_max_right fuel n)).mp ?_,
    fun hP => ⟨n, (h n le_rfl).mpr hP⟩⟩
  rwa [← eq_of_le (hf (le_max_left fuel n)) hfuel]

end Outcome

/-! ## Tokens -/

/-- An input file as `operator>>` sees it: the tokens still to be read, whether blanks
follow the last one, and the flag `eof()`. -/
structure TokenStream where
  tokens : List Text
  trailingBlank : Bool
  eof : Bool := false

/-- `file >> tmp`.  At the end of the file the extraction fails and leaves `tmp` alone. -/
def TokenStream.extract (file : TokenStream) (tmp : Text) : TokenStream × Text :=
  match file.tokens with
  | [] => ({ file with eof := true }, tmp)
  | [token] => ({ file with tokens := [], eof := !file.trailingBlank }, token)
  | token :: rest => ({ file with tokens := rest }, token)

namespace TokenStream

open Outcome

/-- The flag is raised only behind the last token. -/
def Sound (file : TokenStream) : Prop := file.eof = true → file.tokens = []

/-- The stream once something has been read and `tokens` are left. -/
def behind (tokens : List Text) (trailingBlank : Bool) : TokenStream :=
  ⟨tokens, trailingBlank, tokens.isEmpty && !trailingBlank⟩

@[simp] theorem tokens_behind (tokens : List Text) (trailingBlank : Bool) :
    (behind tokens trailingBlank).tokens = tokens := rfl

theorem sound_behind (tokens : List Text) (trailingBlank : Bool) :
    (behind tokens trailingBlank).Sound := by
  cases tokens <;> simp [Sound, behind]

theorem extract_cons {file : TokenStream} {token : Text} {rest : List Text} (hs : file.Sound)
    (h : file.tokens = token :: rest) (tmp : Text) :
    file.extract tmp = (behind rest file.trailingBlank, token) := by
  obtain ⟨tokens, trailingBlank, eof⟩ := file
  subst h
  cases eof with
  | true => exact absurd (hs rfl) (List.cons_ne_nil _ _)
  | false => cases rest <;> simp [extract, behind]

theorem extract_nil {file : TokenStream} (h : file.tokens = []) (tmp : Text) :
    file.extract tmp = (⟨[], file.trailingBlank, true⟩, tmp) := by
  simp [extract, h]

@[simp] theorem extract_behind (token : Text) (rest : List Text) (trailingBlank : Bool)
    (tmp : Text) :
    (behind (token :: rest) trailingBlank).extract tmp = (behind rest trailingBlank, token) :=
  extract_cons (sound_behind _ _) rfl tmp

/-- Read until `stop` or the end of the file: the `do` loops around `file >> tmp`. -/
def scan (stop : Text → Bool) : ℕ → TokenStream → Text → Outcome (TokenStream × Text)
  | 0, _, _ => .running
  | fuel + 1, file, tmp =>
    let (file, tmp) := file.extract tmp
    if !stop tmp && !file.eof then scan stop fuel file tmp else .value (file, tmp)

/-- The first token that stops the search, with the tokens behind it. -/
def seek (stop : Text → Bool) : List Text → Option (Text × List Text)
  | [] => none
  | token :: rest => if stop token then some (token, rest) else seek stop rest

theorem seek_cons_self {stop : Text → Bool} {token : Text} (h : stop token = true)
    (rest : List Text) : seek stop (token :: rest) = some (token, rest) := by
  simp [seek, h]

theorem seek_eq_none {stop : Text → Bool} {tokens : List Text}
    (h : ∀ token ∈ tokens, stop token = false) : seek stop tokens = none := by
  induction tokens with
  | nil => rfl
  | cons token rest ih =>
    simp only [seek, h token List.mem_cons_self, Bool.false_eq_true, ↓reduceIte]
    exact ih fun t ht => h t (List.mem_cons_of_mem _ ht)

theorem stop_of_seek {stop : Text → Bool} {tokens rest : List Text} {token : Text}
    (h : seek stop tokens = some (token, rest)) : stop token = true := by
  induction tokens with
  | nil => simp [seek] at h
  | cons first tokens ih =>
    by_cases hstop : stop first
    · obtain ⟨rfl, -⟩ : first = token ∧ tokens = rest := by simpa [seek, hstop] using h
      exact hstop
    · exact ih (by simpa [seek, hstop] using h)

theorem suffix_of_seek {stop : Text → Bool} {tokens rest : List Text} {token : Text}
    (h : seek stop tokens = some (token, rest)) : token :: rest <:+ tokens := by
  induction tokens with
  | nil => simp [seek] at h
  | cons first tokens ih =>
    by_cases hstop : stop first
    · obtain ⟨rfl, rfl⟩ : first = token ∧ tokens = rest := by simpa [seek, hstop] using h
      exact List.suffix_rfl
    · exact (ih (by simpa [seek, hstop] using h)).trans (List.suffix_cons first tokens)

theorem length_of_seek {stop : Text → Bool} {tokens rest : List Text} {token : Text}
    (h : seek stop tokens = some (token, rest)) : rest.length < tokens.length :=
  (suffix_of_seek h).length_le

/-- What is behind the only occurrence of a token. -/
theorem eq_of_cons_suffix {a : Text} {rest rest' l : List Text}
    (hcount : l.count a ≤ 1) (h : a :: rest <:+ l) (h' : a :: rest' <:+ l) : rest = rest' := by
  have once : ∀ {r r' : List Text}, a :: r' <:+ l → a :: r <:+ a :: r' → r = r' := by
    intro r r' hr' hr
    rcases List.suffix_cons_iff.mp hr with heq | hr
    · exact (List.cons.inj heq).2
    · have hpos := hr.sublist.count_le a
      have hle := hr'.sublist.count_le a
      simp only [List.count_cons_self] at hpos hle
      omega
  rcases List.suffix_or_suffix_of_suffix h h' with hr | hr
  · exact once h' hr
  · exact (once h hr).symm

theorem scan_mono (stop : Text → Bool) {fuel fuel' : ℕ} (h : fuel ≤ fuel') (file : TokenStream)
    (tmp : Text) : scan stop fuel file tmp ≤ scan stop fuel' file tmp := by
  induction fuel generalizing fuel' file tmp with
  | zero => exact running_le _
  | succ fuel ih =>
    obtain ⟨fuel', rfl⟩ : ∃ k, fuel' = k + 1 := ⟨fuel' - 1, by omega⟩
    simp only [scan]
    split
    · exact ih (by omega) _ _
    · exact le_rfl

theorem scan_of_seek_some {stop : Text → Bool} {file : TokenStream} {token : Text}
    {rest : List Text} (hs : file.Sound) (h : seek stop file.tokens = some (token, rest))
    {fuel : ℕ} (hfuel : file.tokens.length ≤ fuel) (tmp : Text) :
    scan stop fuel file tmp = .value (behind rest file.trailingBlank, token) := by
  induction fuel generalizing file tmp with
  | zero => simp [List.eq_nil_of_length_eq_zero (Nat.le_zero.mp hfuel), seek] at h
  | succ fuel ih =>
    obtain ⟨tokens, trailingBlank, eof⟩ := file
    cases tokens with
    | nil => simp [seek] at h
    | cons first tokens =>
      rw [scan, extract_cons hs rfl]
      by_cases hstop : stop first
      · obtain ⟨rfl, rfl⟩ : first = token ∧ tokens = rest := by simpa [seek, hstop] using h
        simp [hstop]
      · have hnext : seek stop tokens = some (token, rest) := by simpa [seek, hstop] using h
        have heof : (behind tokens trailingBlank).eof = false := by
          cases tokens <;> simp [behind, seek] at hnext ⊢
        simp only [hstop, heof, Bool.not_false, Bool.and_self, ↓reduceIte]
        exact ih (sound_behind _ _) hnext (by simpa using hfuel) _

theorem scan_of_seek_none {stop : Text → Bool} {file : TokenStream} (hs : file.Sound)
    (h : seek stop file.tokens = none) {tmp : Text} (htmp : stop tmp = false) {fuel : ℕ}
    (hfuel : file.tokens.length < fuel) :
    ∃ file' tmp', scan stop fuel file tmp = .value (file', tmp') ∧ file'.eof = true := by
  induction fuel generalizing file tmp with
  | zero => omega
  | succ fuel ih =>
    obtain ⟨tokens, trailingBlank, eof⟩ := file
    cases tokens with
    | nil => exact ⟨⟨[], trailingBlank, true⟩, tmp, by simp [scan, extract_nil], rfl⟩
    | cons first tokens =>
      obtain ⟨hstop, hnext⟩ : stop first = false ∧ seek stop tokens = none := by
        cases hstop : stop first <;> simp_all [seek]
      rw [scan, extract_cons hs rfl]
      by_cases heof : (behind tokens trailingBlank).eof
      · exact ⟨behind tokens trailingBlank, first, by simp [heof], heof⟩
      · simp only [hstop, heof, Bool.not_false, Bool.and_self, ↓reduceIte]
        exact ih (sound_behind _ _) hnext hstop (by simpa using hfuel)

end TokenStream

end LeaderlessDatastore
