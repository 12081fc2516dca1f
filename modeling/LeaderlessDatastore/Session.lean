import LeaderlessDatastore.ClientMessages
import LeaderlessDatastore.Receiving

/-!
# The session of a client

The client opens a connection for each command and keeps one pair of buffers for all of them.
A reply that is cut off by the end of its connection leaves its last part in `partialMsg`, where
the reply to a later command is appended to it.
-/

namespace LeaderlessDatastore

/-! ## One reply -/

/-- The chunks that `recv` returns for a reply, or for a part of it if the connection ends
early. -/
structure Delivers (reply : Text) (incoming : List Text) : Prop where
  wellFormed : WellFormed reply
  clean : Receiver.Clean incoming
  size : ∀ chunk ∈ incoming, chunk.length < Receiver.bufferSize
  isPrefix : incoming.flatten <+: frame reply

/-- The chunks hold the reply up to its escape. -/
def Arrived (reply : Text) (incoming : List Text) : Prop :=
  reply ++ [escape] <+: incoming.flatten

instance (reply : Text) (incoming : List Text) : Decidable (Arrived reply incoming) :=
  inferInstanceAs (Decidable (_ <+: _))

namespace Receiver

variable {reply left chunk : Text} {incoming : List Text}

/-- A chunk is a part of the reply, or it is all that is missing of it. -/
theorem chunk_of_delivers (h : Delivers reply (chunk :: incoming)) :
    (∃ reply', reply = chunk ++ reply' ∧ Delivers reply' incoming ∧
      ∀ k, Arrived reply ((chunk :: incoming).take (k + 1)) ↔
        Arrived reply' (incoming.take k)) ∨
    (chunk = reply ++ [escape] ∨ chunk = frame reply) ∧
      ∀ k, Arrived reply ((chunk :: incoming).take (k + 1)) := by
  obtain ⟨s, hs⟩ := h.isPrefix
  rw [List.flatten_cons, List.append_assoc] at hs
  rcases chunk_cases hs with ⟨reply', rfl, hrest⟩ | ⟨hc, -⟩ | ⟨c', hc, hnil⟩
  · left
    have hsize := fun c hc => h.size c (List.mem_cons_of_mem _ hc)
    refine ⟨reply', rfl, ⟨⟨?_, ?_, ?_⟩, h.clean.tail, hsize, s, hrest⟩, fun k => ?_⟩
    · exact fun hm => h.wellFormed.newline (List.mem_append_right _ hm)
    · exact fun hm => h.wellFormed.escape (List.mem_append_right _ hm)
    · exact fun hm => h.wellFormed.nul (List.mem_append_right _ hm)
    · rw [Arrived, List.take_succ_cons, List.flatten_cons, List.append_assoc,
        List.prefix_append_right_inj, Arrived]
  · refine .inr ⟨.inl hc, fun k => ?_⟩
    rw [Arrived, List.take_succ_cons, List.flatten_cons, hc]
    exact List.prefix_append ..
  · obtain ⟨rfl, -⟩ := List.append_eq_nil_iff.mp hnil.symm
    refine .inr ⟨.inr hc, fun k => ?_⟩
    rw [Arrived, List.take_succ_cons, List.flatten_cons, hc]
    exact ⟨'\n' :: (incoming.take k).flatten, by simp⟩

theorem fill_next (hclean : Clean (chunk :: incoming)) :
    fill ⟨[], left, chunk :: incoming⟩ = some ⟨chunk, left, incoming⟩ := by
  have hpending : pending ⟨[], left, chunk :: incoming⟩ = chunk :: incoming := if_pos rfl
  exact fill_eq (hpending ▸ hclean) hpending

/-- A part of the reply takes the place of what was left before. -/
theorem await_part {reply' : Text} (h : Delivers (chunk ++ reply') (chunk :: incoming)) :
    await ⟨[], left, chunk :: incoming⟩ = await ⟨[], chunk, incoming⟩ := by
  have hnewline : '\n' ∉ chunk := fun hm => h.wellFormed.newline (List.mem_append_left _ hm)
  have hescape : chunk.getLast? ≠ some escape := fun hlast =>
    h.wellFormed.escape (List.mem_append_left _ (List.mem_of_getLast? hlast))
  have hne : chunk ≠ [] := h.clean.ne_nil chunk List.mem_cons_self
  rw [await_eq (fill_next h.clean), takeLine_open hnewline, if_pos hescape]
  exact if_pos hne

theorem await_whole (hwellFormed : WellFormed reply) (hclean : Clean (chunk :: incoming))
    (hchunk : chunk = reply ++ [escape] ∨ chunk = frame reply) :
    await ⟨[], left, chunk :: incoming⟩ =
      (⟨[], [], incoming⟩, .message (left ++ (reply ++ [escape]))) := by
  have hnewline : '\n' ∉ reply ++ [escape] := by
    rw [List.mem_append, List.mem_singleton]
    exact not_or.mpr ⟨hwellFormed.newline, by decide⟩
  rw [await_eq (fill_next hclean)]
  rcases hchunk with rfl | rfl
  · rw [takeLine_open hnewline, if_neg (by simp)]
  · rw [takeLine_closed (reply ++ [escape]) [] hnewline (by simp [frame]), if_neg (by simp)]

/-- The connection ends within the reply: its last chunk is left. -/
theorem await_interrupted (left : Text) (h : Delivers reply incoming)
    (hnot : ¬ Arrived reply incoming) :
    await ⟨[], left, incoming⟩ = (⟨[], incoming.getLast?.getD left, []⟩, .interrupted) := by
  induction incoming generalizing reply left with
  | nil => exact await_eq_of_none rfl
  | cons chunk incoming ih =>
    rcases chunk_of_delivers h with ⟨reply', rfl, hrest, hiff⟩ | ⟨-, harrived⟩
    · have harrived := hiff incoming.length
      rw [← List.length_cons, List.take_length, List.take_length] at harrived
      rw [await_part h, ih chunk hrest (harrived.not.mp hnot)]
      rw [List.getLast?_cons, Option.getD_some]
    · have := harrived incoming.length
      rw [← List.length_cons, List.take_length] at this
      exact absurd this hnot

/-- The whole reply is handed over behind what was left if it comes in one chunk, by itself if it
comes in two, and without its beginning if it comes in more. -/
theorem await_message (left : Text) (h : Delivers reply incoming)
    (harrived : Arrived reply incoming) :
    ∃ rest msgString, await ⟨[], left, incoming⟩ = (⟨[], [], rest⟩, .message msgString) ∧
      (Arrived reply (incoming.take 1) → msgString = left ++ (reply ++ [escape])) ∧
      (¬ Arrived reply (incoming.take 1) → Arrived reply (incoming.take 2) →
        msgString = reply ++ [escape]) ∧
      (¬ Arrived reply (incoming.take 2) → msgString.length < (reply ++ [escape]).length) := by
  induction incoming generalizing reply left with
  | nil => simp [Arrived] at harrived
  | cons chunk incoming ih =>
    rcases chunk_of_delivers h with ⟨reply', rfl, hrest, hiff⟩ | ⟨hchunk, hall⟩
    · have hwhole := hiff incoming.length
      rw [← List.length_cons, List.take_length, List.take_length] at hwhole
      obtain ⟨rest, msgString, hawait, hone, htwo, hmore⟩ :=
        ih chunk hrest (hwhole.mp harrived)
      have hpos := List.length_pos_iff.mpr (h.clean.ne_nil chunk List.mem_cons_self)
      have hnone : ¬ Arrived reply' (incoming.take 0) := by simp [Arrived]
      refine ⟨rest, msgString, by rw [await_part h, hawait], fun hfirst => ?_, fun _ hsecond => ?_,
        fun hthird => ?_⟩
      · exact absurd ((hiff 0).mp hfirst) hnone
      · rw [hone ((hiff 1).mp hsecond), List.append_assoc]
      · have hnotOne := (hiff 1).not.mp hthird
        by_cases hnotTwo : Arrived reply' (incoming.take 2)
        · rw [htwo hnotOne hnotTwo]
          simp only [List.length_append]
          omega
        · have := hmore hnotTwo
          simp only [List.length_append] at this ⊢
          omega
    · exact ⟨incoming, _, await_whole h.wellFormed h.clean hchunk, fun _ => rfl,
        fun hnot => absurd (hall 0) hnot, fun hnot => absurd (hall 1) hnot⟩

/-- The reply is handed over by itself exactly when it comes in at most two chunks and nothing
was left, or in two. -/
theorem await_eq_reply_iff (left : Text) (h : Delivers reply incoming)
    (harrived : Arrived reply incoming) :
    (await ⟨[], left, incoming⟩).2 = .message (reply ++ [escape]) ↔
      Arrived reply (incoming.take 2) ∧ (left = [] ∨ ¬ Arrived reply (incoming.take 1)) := by
  obtain ⟨rest, msgString, hawait, hone, htwo, hmore⟩ := await_message left h harrived
  rw [hawait]
  constructor
  · intro heq
    obtain rfl := Reception.message.inj heq
    refine ⟨?_, ?_⟩
    · by_contra hnot
      exact absurd (hmore hnot) (lt_irrefl _)
    · refine or_iff_not_imp_right.mpr fun hfirst => ?_
      exact List.self_eq_append_left.mp (hone (not_not.mp hfirst))
  · rintro ⟨hsecond, hleft⟩
    by_cases hfirst : Arrived reply (incoming.take 1)
    · rw [hone hfirst, hleft.resolve_right (not_not.mpr hfirst), List.nil_append]
    · rw [htwo hfirst hsecond]

end Receiver
end LeaderlessDatastore
