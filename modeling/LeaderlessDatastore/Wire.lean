import LeaderlessDatastore.Receiving

/-!
# A connection while it is in use

One direction of a connection, with messages written while others are being read.  Every pass
of the loop in `receive` may find a chunk of any length.  As long as no chunk ends a second
time within a text, or between a text and its newline, the receiving end hands over the
messages in the order in which they were sent.
-/

namespace LeaderlessDatastore

/-- `flight` holds the bytes that `send` has written and `recv` has not yet returned. -/
structure Wire where
  flight : Text := []
  bufferContent : Text := []
  partialMsg : Text := []

namespace Wire

def send (w : Wire) (body : Text) : Wire := { w with flight := w.flight ++ frame body }

/-- One pass of the loop of `receive`, with what it hands over.  If the buffer is empty `recv`
returns the next `k` bytes, or as many as there are; `none` where it has to wait. -/
def pass (w : Wire) (k : ℕ) : Option (Wire × Option Text) :=
  if k < Receiver.bufferSize then
    (Receiver.fill ⟨w.bufferContent, w.partialMsg, [w.flight.take k]⟩).map fun r =>
      ({ flight := if w.bufferContent = [] then w.flight.drop k else w.flight
         bufferContent := r.takeLine.1.bufferContent
         partialMsg := r.takeLine.1.partialMsg }, r.takeLine.2)
  else none

/-- The chunk does not end before a newline, nor within a text of which a part has been set
aside before. -/
def Gentle (w : Wire) (k : ℕ) : Prop :=
  w.bufferContent = [] → (w.flight.take k).getLast? ≠ some escape ∧
    (w.partialMsg = [] ∨ '\n' ∈ w.flight.take k)

instance (w : Wire) (k : ℕ) : Decidable (w.Gentle k) := inferInstanceAs (Decidable (_ → _))

/-- These messages are still to be handed over. -/
structure Carries (w : Wire) (bodies : List Text) : Prop where
  wellFormed : ∀ body ∈ bodies, WellFormed body
  unread : w.partialMsg ++ w.bufferContent ++ w.flight = stream bodies
  newline : '\n' ∉ w.partialMsg
  escape : LeaderlessDatastore.escape ∉ w.partialMsg
  apart : w.partialMsg = [] ∨ w.bufferContent = []
  whole : w.bufferContent.getLast? ≠ some LeaderlessDatastore.escape

variable {w w' : Wire} {body : Text} {bodies : List Text} {message : Option Text} {k : ℕ}

theorem Carries.empty : Carries {} [] := ⟨nofun, rfl, nofun, nofun, .inl rfl, nofun⟩

theorem Carries.send (h : w.Carries bodies) (hbody : WellFormed body) :
    (w.send body).Carries (bodies ++ [body]) where
  wellFormed b hb := by
    rcases List.mem_append.mp hb with hb | hb
    · exact h.wellFormed b hb
    · exact List.mem_singleton.mp hb ▸ hbody
  unread := by simp [Wire.send, stream, ← List.append_assoc, h.unread]
  newline := h.newline
  escape := h.escape
  apart := h.apart
  whole := h.whole

/-- There is nothing left to read exactly when nothing is carried. -/
theorem Carries.eq_nil (h : w.Carries bodies) (hbuffer : w.bufferContent = [])
    (hflight : w.flight = []) : bodies = [] := by
  cases bodies with
  | nil => rfl
  | cons body bodies =>
    have hunread := h.unread
    rw [hbuffer, hflight, List.append_nil, List.append_nil, stream_cons] at hunread
    exact absurd (hunread ▸ by simp) h.newline

theorem nul_not_mem_stream (h : ∀ body ∈ bodies, WellFormed body) : nul ∉ stream bodies := by
  intro hnul
  obtain ⟨framed, hframed, hnul⟩ := List.mem_flatten.mp hnul
  obtain ⟨body, hbody, rfl⟩ := List.mem_map.mp hframed
  rcases List.mem_append.mp hnul with hnul | hnul
  · exact (h body hbody).nul hnul
  · exact absurd hnul (by decide)

/-- When a line is taken, with the bytes behind the buffer. -/
structure Ready (r : Receiver) (flight : Text) (bodies : List Text) : Prop where
  wellFormed : ∀ body ∈ bodies, WellFormed body
  ne_nil : r.bufferContent ≠ []
  unread : r.partialMsg ++ (r.bufferContent ++ flight) = stream bodies
  newline : '\n' ∉ r.partialMsg
  escape : LeaderlessDatastore.escape ∉ r.partialMsg
  apart : r.partialMsg = [] ∨ '\n' ∈ r.bufferContent
  whole : r.bufferContent.getLast? ≠ some LeaderlessDatastore.escape

theorem Carries.ready (h : w.Carries bodies) (hgentle : w.Gentle k)
    (hpass : w.pass k = some (w', message)) : ∃ r flight, Ready r flight bodies ∧
      w' = ⟨flight, r.takeLine.1.bufferContent, r.takeLine.1.partialMsg⟩ ∧
      message = r.takeLine.2 := by
  unfold pass at hpass
  split_ifs at hpass with hsize hempty
  · -- `recv` fills the buffer
    obtain ⟨r, hfill, hpass⟩ := Option.map_eq_some_iff.mp hpass
    cases hpass
    have hunread := h.unread
    rw [hempty, List.append_nil] at hunread
    cases hc : w.flight.take k with
    | nil => simp [Receiver.fill, hempty, hc] at hfill
    | cons a c =>
      have hflight : a :: c ++ w.flight.drop k = w.flight := hc ▸ List.take_append_drop k w.flight
      have hclean : Receiver.Clean [a :: c] := by
        refine fun c' hc' => ⟨by simp [List.mem_singleton.mp hc'], fun hnul => ?_⟩
        rw [List.mem_singleton.mp hc'] at hnul
        refine nul_not_mem_stream h.wellFormed (hunread ▸ List.mem_append_right _ ?_)
        exact hflight ▸ List.mem_append_left _ hnul
      have hpending : Receiver.pending ⟨w.bufferContent, w.partialMsg, [w.flight.take k]⟩ =
          [a :: c] := by rw [Receiver.pending_of_empty hempty, hc]
      rw [Receiver.fill_eq (by rw [hpending]; exact hclean) hpending] at hfill
      cases hfill
      obtain ⟨hwhole, hapart⟩ := hgentle hempty
      rw [hc] at hwhole hapart
      exact ⟨_, _, ⟨h.wellFormed, by simp, by rw [hflight, hunread], h.newline, h.escape, hapart,
        hwhole⟩, rfl, rfl⟩
  · obtain ⟨r, hfill, hpass⟩ := Option.map_eq_some_iff.mp hpass
    cases hpass
    unfold Receiver.fill at hfill
    rw [if_neg hempty] at hfill
    cases hfill
    exact ⟨_, _, ⟨h.wellFormed, hempty, by rw [← h.unread, List.append_assoc], h.newline, h.escape,
      .inl (h.apart.resolve_right hempty), h.whole⟩, rfl, rfl⟩

/-- A pass sets a part of the first message aside, or hands the message over. -/
theorem Carries.pass (h : w.Carries bodies) (hgentle : w.Gentle k)
    (hpass : w.pass k = some (w', message)) :
    message = none ∧ w'.partialMsg ≠ [] ∧ w'.Carries bodies ∨
      ∃ body rest, bodies = body :: rest ∧ message = some (body ++ [LeaderlessDatastore.escape]) ∧
        w'.partialMsg = [] ∧ w'.Carries rest := by
  obtain ⟨r, flight, hr, rfl, rfl⟩ := h.ready hgentle hpass
  have hunread := hr.unread
  cases bodies with
  | nil => simp [stream, hr.ne_nil] at hunread
  | cons body bodies =>
    have hbody := hr.wellFormed body List.mem_cons_self
    have hrest := fun b hb => hr.wellFormed b (List.mem_cons_of_mem _ hb)
    rw [stream_cons] at hunread
    by_cases hline : '\n' ∈ r.bufferContent
    · -- the line ends the message
      right
      obtain ⟨line, after, hbuffer, hnewline⟩ := List.eq_append_cons_of_mem hline
      have hcut : r.partialMsg ++ line ++ '\n' :: (after ++ flight) =
          body ++ [LeaderlessDatastore.escape] ++ '\n' :: stream bodies := by
        rw [hbuffer] at hunread
        simpa using hunread
      have hend : r.partialMsg ++ line = body ++ [LeaderlessDatastore.escape] := by
        have hfront : '\n' ∉ r.partialMsg ++ line := by simp [hr.newline, hnewline]
        have hback : '\n' ∉ body ++ [LeaderlessDatastore.escape] := by
          simp [hbody.newline, LeaderlessDatastore.escape]
        rw [← Receiver.takeWhile_line hfront, hcut, Receiver.takeWhile_line hback]
      rw [hend, List.append_cancel_left_eq, List.cons.injEq] at hcut
      have hlast : line.getLast? = some LeaderlessDatastore.escape := by
        have hne : line ≠ [] := by
          rintro rfl
          rw [List.append_nil] at hend
          exact hr.escape (hend ▸ by simp)
        have := congrArg List.getLast? hend
        rwa [List.getLast?_append_of_ne_nil _ hne, List.getLast?_concat] at this
      rw [Receiver.takeLine_closed line after hnewline hbuffer, if_neg (by simp [hlast])]
      refine ⟨body, bodies, rfl, by simp [hend], rfl, hrest, hcut.2, List.not_mem_nil,
        List.not_mem_nil, .inl rfl, ?_⟩
      have hwhole := hr.whole
      rw [hbuffer] at hwhole
      intro hafter
      cases after with
      | nil => cases hafter
      | cons a after => exact hwhole (by simpa using hafter)
    · -- the buffer is a part of the text
      left
      have haside := hr.apart.resolve_right hline
      rw [haside, List.nil_append] at hunread
      rcases Receiver.chunk_cases hunread with ⟨t', ht, hflight⟩ | ⟨hc, -⟩ | ⟨c', hc, -⟩
      · have hescape : LeaderlessDatastore.escape ∉ r.bufferContent := fun hm =>
          hbody.escape (ht ▸ List.mem_append_left _ hm)
        rw [Receiver.takeLine_open hline, if_pos hr.whole]
        refine ⟨rfl, hr.ne_nil, ?_⟩
        exact ⟨hr.wellFormed, by rw [stream_cons, ← hunread]; simp, hline, hescape, .inr rfl,
          by simp⟩
      · exact absurd (by simp [hc]) hr.whole
      · exact absurd (by simp [hc]) hline

end Wire
end LeaderlessDatastore
