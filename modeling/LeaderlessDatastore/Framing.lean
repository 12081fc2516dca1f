import LeaderlessDatastore.Chunks
import LeaderlessDatastore.Text
import LeaderlessDatastore.Transition

/-!
# Framing

`Connection::receive` of the server and `receive` of the client: the loop that cuts
messages out of what `recv` returns.  The dispatch of a message is modelled by the
string that is handed to `toMessage`.  A message that makes its thread receive again
(`Prepare::manage`) does so after the buffers have been updated, so that nested calls
act on the buffers like calls one after the other.
-/

namespace LeaderlessDatastore

/-- How the loop of `receive` ends. -/
inductive Reception where
  /-- `recv` has failed -/
  | interrupted
  /-- an empty line -/
  | nothing
  /-- what is handed to `toMessage` -/
  | message (msgString : Text)
  deriving DecidableEq

/-- The two buffers of a receiving end.  `incoming` belongs to the environment: what the next
calls of `recv` return, one chunk each, shorter than the 256 bytes of `messageBuffer`. -/
structure Receiver where
  bufferContent : Text := []
  partialMsg : Text := []
  incoming : List Text

namespace Receiver

def bufferSize : ℕ := 256

/-- `recv` into the zeroed `messageBuffer`, which is then read as a C string; `none` is a
result `<= 0`. -/
def fill (r : Receiver) : Option Receiver :=
  if r.bufferContent = [] then
    match r.incoming with
    | [] => none
    | [] :: _ => none
    | chunk :: incoming =>
      some { r with bufferContent := chunk.takeWhile (· ≠ nul), incoming := incoming }
  else some r

/-- One pass of the loop, once there is something in the buffer. -/
def takeLine (r : Receiver) : Receiver × Option Text :=
  let line := r.bufferContent.takeWhile (· ≠ '\n')
  -- behind the newline, if there is one
  let bufferContent :=
    if r.bufferContent.length - line.length ≠ 0 then r.bufferContent.drop (line.length + 1) else []
  if line.getLast? ≠ some escape then
    -- what was there of the message is overwritten
    ({ r with bufferContent := bufferContent, partialMsg := line }, none)
  else
    ({ r with bufferContent := bufferContent, partialMsg := [] }, some (r.partialMsg ++ line))

@[simp] theorem takeLine_incoming (r : Receiver) : r.takeLine.1.incoming = r.incoming := by
  unfold takeLine
  dsimp only
  split_ifs <;> rfl

/-- A pass uses up a chunk or a part of the buffer. -/
theorem pass_lt {r r₁ : Receiver} (h : r.fill = some r₁) :
    r₁.takeLine.1.incoming.length < r.incoming.length ∨
      r₁.takeLine.1.incoming.length = r.incoming.length ∧
        r₁.takeLine.1.bufferContent.length < r.bufferContent.length := by
  unfold fill at h
  split_ifs at h with hempty
  · left
    split at h
    · cases h
    · cases h
    · next chunk incoming hne heq =>
      cases h
      simp [heq]
  · right
    cases h
    have hpos := List.length_pos_iff.mpr hempty
    refine ⟨by simp, ?_⟩
    unfold takeLine
    dsimp only
    split_ifs <;> simp <;> omega

/-- The loop `do … while (partialMsg.length() != 0)` up to the call of `toMessage`, with the
buffers that it leaves behind, also when `recv` fails.  What is handed over leaves no partial
message, so that the loop ends. -/
def await (r : Receiver) : Receiver × Reception :=
  match _h : r.fill with
  | none => (r, .interrupted)
  | some r₁ =>
    match r₁.takeLine.2 with
    | some msgString => (r₁.takeLine.1, .message msgString)
    | none =>
      if r₁.takeLine.1.partialMsg ≠ [] then r₁.takeLine.1.await else (r₁.takeLine.1, .nothing)
termination_by (r.incoming.length, r.bufferContent.length)
decreasing_by
  rcases pass_lt _h with hlt | ⟨heq, hlt⟩
  · exact .left _ _ hlt
  · exact heq ▸ .right _ hlt

theorem await_eq {r r₁ : Receiver} (h : r.fill = some r₁) : r.await =
    match r₁.takeLine.2 with
    | some msgString => (r₁.takeLine.1, .message msgString)
    | none =>
      if r₁.takeLine.1.partialMsg ≠ [] then r₁.takeLine.1.await
      else (r₁.takeLine.1, .nothing) := by
  rw [await]
  split
  · next hnone => simp [hnone] at h
  · next r₂ hsome =>
    obtain rfl := Option.some.inj (hsome.symm.trans h)
    rfl

theorem await_eq_of_none {r : Receiver} (h : r.fill = none) : r.await = (r, .interrupted) := by
  rw [await]
  split
  · rfl
  · next r₂ hsome => simp [hsome] at h

/-! ## What is still to be read -/

/-- The pieces in which the unread bytes are there or will arrive. -/
def pending (r : Receiver) : List Text :=
  if r.bufferContent = [] then r.incoming else r.bufferContent :: r.incoming

/-- Chunks as `recv` returns them for a stream without NUL bytes. -/
def Clean (chunks : List Text) : Prop := ∀ c ∈ chunks, c ≠ [] ∧ nul ∉ c

theorem Clean.tail {c : Text} {chunks : List Text} (h : Clean (c :: chunks)) : Clean chunks :=
  fun c' hc' => h c' (List.mem_cons_of_mem _ hc')

theorem Clean.ne_nil {chunks : List Text} (h : Clean chunks) : ∀ c ∈ chunks, c ≠ [] :=
  fun c hc => (h c hc).1

variable {r : Receiver} {c line rest t : Text} {chunks : List Text}

theorem pending_of_empty (h : r.bufferContent = []) : r.pending = r.incoming := if_pos h

/-- The next piece is in the buffer after `recv`. -/
theorem fill_eq (hclean : Clean r.pending) (h : r.pending = c :: chunks) :
    r.fill = some { bufferContent := c, partialMsg := r.partialMsg, incoming := chunks } := by
  rw [h] at hclean
  obtain ⟨hne, hnul⟩ := hclean c List.mem_cons_self
  unfold pending at h
  unfold fill
  split_ifs at h ⊢ with hempty
  · rw [h]
    cases c with
    | nil => exact absurd rfl hne
    | cons a c =>
      have htake : (a :: c).takeWhile (· ≠ nul) = a :: c :=
        List.takeWhile_eq_self_iff.mpr fun x hx => by
          simp only [ne_eq, decide_eq_true_eq]
          rintro rfl
          exact hnul hx
      simp only [htake]
  · obtain ⟨rfl, rfl⟩ := List.cons.inj h
    rfl

theorem fill_eq_none (h : r.pending = []) : r.fill = none := by
  unfold pending at h
  split_ifs at h with hempty
  unfold fill
  rw [if_pos hempty, h]

/-! ## One pass -/

theorem takeWhile_line (hline : '\n' ∉ line) :
    (line ++ '\n' :: rest).takeWhile (· ≠ '\n') = line := by
  rw [List.takeWhile_append_of_pos]
  · simp
  · intro x hx
    simp only [ne_eq, decide_eq_true_eq]
    rintro rfl
    exact hline hx

theorem takeWhile_self (hline : '\n' ∉ line) : line.takeWhile (· ≠ '\n') = line :=
  List.takeWhile_eq_self_iff.mpr fun x hx => by
    simp only [ne_eq, decide_eq_true_eq]
    rintro rfl
    exact hline hx

/-- A buffer without a newline is one line. -/
theorem takeLine_open (hbuffer : '\n' ∉ r.bufferContent) : r.takeLine =
    if r.bufferContent.getLast? ≠ some escape then
      ({ r with bufferContent := [], partialMsg := r.bufferContent }, none)
    else ({ r with bufferContent := [], partialMsg := [] },
      some (r.partialMsg ++ r.bufferContent)) := by
  simp only [takeLine, takeWhile_self hbuffer, Nat.sub_self, ne_eq, not_true_eq_false, if_false]

/-- The line ends at the newline, which is dropped. -/
theorem takeLine_closed (line rest : Text) (hline : '\n' ∉ line)
    (hbuffer : r.bufferContent = line ++ '\n' :: rest) :
    r.takeLine = if line.getLast? ≠ some escape then
      ({ r with bufferContent := rest, partialMsg := line }, none)
    else ({ r with bufferContent := rest, partialMsg := [] }, some (r.partialMsg ++ line)) := by
  simp only [takeLine, hbuffer, takeWhile_line hline]
  simp

/-- A chunk ends in the middle of a terminated text, between its two terminating bytes, or
behind it. -/
theorem chunk_cases {e f : Char} {s : Text} (h : c ++ s = t ++ e :: f :: rest) :
    (∃ t', t = c ++ t' ∧ s = t' ++ e :: f :: rest) ∨ (c = t ++ [e] ∧ s = f :: rest) ∨
      ∃ c', c = t ++ e :: f :: c' ∧ rest = c' ++ s := by
  rcases List.append_eq_append_iff.mp h with ⟨t', ht, hs⟩ | ⟨c', hc, hs⟩
  · exact .inl ⟨t', ht, hs⟩
  · match c', hc, hs with
    | [], hc, hs =>
      rw [List.append_nil] at hc
      exact .inl ⟨[], by simp [hc], by simpa using hs.symm⟩
    | [a], hc, hs =>
      obtain ⟨he, hrest⟩ : e = a ∧ f :: rest = s := by simpa using hs
      exact .inr (.inl ⟨he ▸ hc, hrest.symm⟩)
    | a :: b :: c', hc, hs =>
      obtain ⟨he, hf, hrest⟩ : e = a ∧ f = b ∧ rest = c' ++ s := by simpa using hs
      exact .inr (.inr ⟨c', he ▸ hf ▸ hc, hrest⟩)

/-! ## One message -/

/-- What a call does that starts within the text `t` of a message, with `rest` behind it. -/
structure Took (r : Receiver) (t rest : Text) (r' : Receiver) (message : Text) : Prop where
  partialMsg_eq : r'.partialMsg = []
  suffix : r'.incoming <:+ r.incoming
  clean : Clean r'.pending
  newline : ∀ c ∈ r.pending, c.head? = some '\n' → c ∈ r'.pending
  /-- the call stops behind the message, or at a cut before its newline -/
  stops : ∃ d, (d = 2 ∧ r'.pending.flatten = rest ∨
      d = 1 ∧ r'.bufferContent = [] ∧ r'.pending.flatten = '\n' :: rest) ∧
    ∀ n, (Chunks.cuts n r.pending).filter (n + t.length + d < ·) =
      Chunks.cuts (n + t.length + d) r'.pending
  /-- what is left of a part that was replaced is gone -/
  message_eq : ∀ n, message =
    (if Chunks.inside (Chunks.cuts n r.pending) n (t.length + 1) = 0 then r.partialMsg else []) ++
      Chunks.lastTwo (Chunks.cuts n r.pending) n (t ++ [escape])

theorem suffix_of_pending (h : r.pending = c :: chunks) : chunks <:+ r.incoming := by
  unfold pending at h
  split_ifs at h
  · exact h ▸ List.suffix_cons c chunks
  · exact (List.cons.inj h).2 ▸ List.suffix_rfl

/-- A chunk that ends in the middle of the message replaces the partial message. -/
theorem Took.replaced {r' : Receiver} {t' message : Text} (hclean : Clean r.pending)
    (h : r.pending = c :: chunks) (hnewline : '\n' ∉ c)
    (htook : Took ⟨[], c, chunks⟩ t' rest r' message) : r.Took (c ++ t') rest r' message := by
  rw [h] at hclean
  constructor
  case partialMsg_eq => exact htook.partialMsg_eq
  case suffix => exact htook.suffix.trans (suffix_of_pending h)
  case clean => exact htook.clean
  case newline =>
    intro c' hc' hhead
    rcases List.mem_cons.mp (h ▸ hc') with rfl | hc'
    · exact absurd (List.mem_of_head? hhead) hnewline
    · exact htook.newline c' hc' hhead
  case stops =>
    obtain ⟨d, hd, hfilter⟩ := htook.stops
    refine ⟨d, hd, fun n => ?_⟩
    have hlength : n + (c ++ t').length + d = n + c.length + t'.length + d := by simp; omega
    rw [hlength, h, Chunks.cuts, List.filter_cons_of_neg (by simp; omega)]
    exact hfilter (n + c.length)
  case message_eq =>
    intro n
    have hmessage := htook.message_eq (n + c.length)
    rw [h, Chunks.inside_cuts_cons hclean.ne_nil (by simp), if_neg (Nat.succ_ne_zero _),
      List.nil_append, List.append_assoc, Chunks.lastTwo_cons hclean.ne_nil (by simp)]
    simpa [pending] using hmessage

/-- The end `c'` of a chunk stays in the buffer. -/
theorem pending_leftover (front : Text) {c' : Text} (hclean : Clean ((front ++ c') :: chunks)) :
    Clean (pending ⟨c', [], chunks⟩) ∧
      (pending ⟨c', [], chunks⟩).flatten = c' ++ chunks.flatten ∧
      ∀ n, (Chunks.cuts n ((front ++ c') :: chunks)).filter (n + front.length < ·) =
        Chunks.cuts (n + front.length) (pending ⟨c', [], chunks⟩) := by
  have hpending : pending ⟨c', [], chunks⟩ = if c' = [] then chunks else c' :: chunks := rfl
  rw [hpending]
  split_ifs with hc'
  · refine ⟨hclean.tail, by simp [hc'], fun n => ?_⟩
    rw [Chunks.cuts, hc', List.append_nil, List.filter_cons_of_neg (by simp)]
    exact Chunks.filter_cuts hclean.tail.ne_nil le_rfl
  · refine ⟨fun c'' hc'' => ?_, by simp, fun n => ?_⟩
    · rcases List.mem_cons.mp hc'' with rfl | hc''
      · refine ⟨hc', fun hnul => (hclean _ List.mem_cons_self).2 ?_⟩
        simp [hnul]
      · exact hclean.tail c'' hc''
    · have hpos := List.length_pos_iff.mpr hc'
      rw [Chunks.cuts, List.length_append, ← Nat.add_assoc, Chunks.cuts,
        List.filter_cons_of_pos (by simp; omega),
        Chunks.filter_cuts hclean.tail.ne_nil (by omega)]

/-- The message ends with a chunk, its newline comes with the next one. -/
theorem Took.of_end (hclean : Clean r.pending) (h : r.pending = (t ++ [escape]) :: chunks)
    (hnewline : '\n' ∉ t) (hrest : chunks.flatten = '\n' :: rest) :
    r.Took t rest ⟨[], [], chunks⟩ (r.partialMsg ++ (t ++ [escape])) := by
  rw [h] at hclean
  have hinside : ∀ n, Chunks.inside (Chunks.cuts n r.pending) n (t.length + 1) = 0 := fun n =>
    h ▸ Chunks.inside_cuts_of_le hclean.ne_nil (by simp)
  constructor
  case partialMsg_eq => rfl
  case suffix => exact suffix_of_pending h
  case clean => exact hclean.tail
  case newline =>
    intro c' hc' hhead
    rcases List.mem_cons.mp (h ▸ hc') with rfl | hc'
    · have := List.mem_of_head? hhead
      simp [hnewline] at this
      exact absurd this (by decide)
    · exact hc'
  case stops =>
    refine ⟨1, .inr ⟨rfl, rfl, hrest⟩, fun n => ?_⟩
    rw [h, Chunks.cuts, List.length_append, List.length_singleton, ← Nat.add_assoc,
      List.filter_cons_of_neg (by simp)]
    exact Chunks.filter_cuts hclean.tail.ne_nil le_rfl
  case message_eq =>
    intro n
    rw [if_pos (hinside n), Chunks.lastTwo_eq_iff.mpr]
    simp [hinside n]

/-- The message ends within a chunk. -/
theorem Took.of_within {c' : Text} (hclean : Clean r.pending)
    (h : r.pending = (t ++ escape :: '\n' :: c') :: chunks) (hnewline : '\n' ∉ t) :
    r.Took t (c' ++ chunks.flatten) ⟨c', [], chunks⟩ (r.partialMsg ++ (t ++ [escape])) := by
  have hfront : t ++ escape :: '\n' :: c' = t ++ [escape, '\n'] ++ c' := by simp
  rw [h] at hclean
  have hinside : ∀ n, Chunks.inside (Chunks.cuts n r.pending) n (t.length + 1) = 0 := fun n =>
    h ▸ Chunks.inside_cuts_of_le hclean.ne_nil (by simp)
  obtain ⟨hclean', hflatten, hfilter⟩ := pending_leftover (t ++ [escape, '\n']) (hfront ▸ hclean)
  constructor
  case partialMsg_eq => rfl
  case suffix => exact suffix_of_pending h
  case clean => exact hclean'
  case newline =>
    intro c'' hc'' hhead
    rcases List.mem_cons.mp (h ▸ hc'') with rfl | hc''
    · cases t with
      | nil => exact absurd (Option.some.inj hhead) (by decide)
      | cons a t =>
        obtain rfl : a = '\n' := Option.some.inj hhead
        exact absurd List.mem_cons_self hnewline
    · unfold pending
      split_ifs
      · exact hc''
      · exact List.mem_cons_of_mem _ hc''
  case stops =>
    refine ⟨2, .inl ⟨rfl, hflatten⟩, fun n => ?_⟩
    have hlength : n + t.length + 2 = n + (t ++ [escape, '\n']).length := by simp [Nat.add_assoc]
    rw [h, hfront, hlength]
    exact hfilter n
  case message_eq =>
    intro n
    rw [if_pos (hinside n), Chunks.lastTwo_eq_iff.mpr]
    simp [hinside n]

/-- A call from within a message hands over one string. -/
theorem await_took (hnewline : '\n' ∉ t) (hescape : escape ∉ t) (hclean : Clean r.pending)
    (hpending : r.pending.flatten = t ++ escape :: '\n' :: rest) :
    ∃ r' message, r.await = (r', .message message) ∧ r.Took t rest r' message := by
  generalize hp : r.pending = pending at hpending
  induction pending generalizing r t with
  | nil => simp at hpending
  | cons c chunks ih =>
    have hc : c ≠ [] := hclean.ne_nil c (hp ▸ List.mem_cons_self)
    have hescaped : '\n' ∉ t ++ [escape] := by
      simp only [List.mem_append, List.mem_singleton, not_or]
      exact ⟨hnewline, by decide⟩
    rw [await_eq (fill_eq hclean hp)]
    rcases chunk_cases hpending with ⟨t', rfl, hrest⟩ | ⟨rfl, hrest⟩ | ⟨c', rfl, rfl⟩
    · rw [List.mem_append, not_or] at hnewline hescape
      have hline := takeLine_open (r := ⟨c, r.partialMsg, chunks⟩) hnewline.1
      rw [if_pos fun h => hescape.1 (List.mem_of_getLast? h)] at hline
      rw [hline]
      obtain ⟨r', message, hawait, htook⟩ := ih (r := ⟨[], c, chunks⟩) (t := t') hnewline.2
        hescape.2 (hp ▸ hclean).tail rfl hrest
      exact ⟨r', message, by simp [hc, hawait], htook.replaced hclean hp hnewline.1⟩
    · have hline := takeLine_open (r := ⟨t ++ [escape], r.partialMsg, chunks⟩) hescaped
      rw [if_neg (by simp)] at hline
      rw [hline]
      exact ⟨_, _, rfl, .of_end hclean hp hnewline hrest⟩
    · have hline := takeLine_closed (r := ⟨t ++ escape :: '\n' :: c', r.partialMsg, chunks⟩)
        (t ++ [escape]) c' hescaped (by simp)
      rw [if_neg (by simp)] at hline
      rw [hline]
      exact ⟨_, _, rfl, .of_within hclean hp hnewline⟩

/-- A call that finds a newline first returns with nothing. -/
theorem await_newline (hclean : Clean r.pending)
    (hpending : r.pending.flatten = '\n' :: rest) :
    ∃ r', r.await = (r', .nothing) ∧ r'.partialMsg = [] ∧ r'.incoming <:+ r.incoming ∧
      Clean r'.pending ∧ r'.pending.flatten = rest ∧
      ∀ n, (Chunks.cuts n r.pending).filter (n + 1 < ·) = Chunks.cuts (n + 1) r'.pending := by
  cases hp : r.pending with
  | nil => simp [hp] at hpending
  | cons c chunks =>
    obtain ⟨c', rfl⟩ : ∃ c', c = '\n' :: c' := by
      cases c with
      | nil => exact absurd rfl (hclean.ne_nil [] (hp ▸ List.mem_cons_self))
      | cons a c' =>
        rw [hp] at hpending
        exact ⟨c', by rw [(List.cons.inj hpending).1]⟩
    rw [hp] at hpending
    obtain ⟨hclean', hflatten, hfilter⟩ :=
      pending_leftover ['\n'] (hp ▸ hclean)
    have hline := takeLine_closed (r := ⟨'\n' :: c', r.partialMsg, chunks⟩) [] c' (by simp) rfl
    rw [if_pos (by simp)] at hline
    refine ⟨⟨c', [], chunks⟩, ?_, rfl, suffix_of_pending hp, hclean', ?_, hfilter⟩
    · rw [await_eq (fill_eq hclean hp), hline]
      simp
    · rw [hflatten]
      exact (List.cons.inj hpending).2

end Receiver
end LeaderlessDatastore
