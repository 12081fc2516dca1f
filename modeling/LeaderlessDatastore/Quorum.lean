import Mathlib.Data.Fintype.Card
import Mathlib.Tactic

/-!
# Quorums

A quorum is a list of different members.  Two quorums that are together larger
than the whole set have a member in common.
-/

namespace LeaderlessDatastore
namespace Quorum

variable {α : Type*}

theorem exists_common [Fintype α] {l l' : List α} (hl : l.Nodup) (hl' : l'.Nodup)
    (hlen : Fintype.card α < l.length + l'.length) : ∃ x, x ∈ l ∧ x ∈ l' := by
  by_contra h
  push Not at h
  have hnodup : (l ++ l').Nodup := List.nodup_append'.mpr ⟨hl, hl', h⟩
  have hle := hnodup.length_le_card
  rw [List.length_append] at hle
  omega

/-- Marking an unmarked member of a list of different members counts it once. -/
theorem countP_update [DecidableEq α] {β : Type*} [DecidableEq β] {l : List α} (hl : l.Nodup)
    {x : α} (hx : x ∈ l) {f : α → β} {b : β} (hf : f x ≠ b) :
    l.countP (fun y => decide (Function.update f x b y = b)) =
      l.countP (fun y => decide (f y = b)) + 1 := by
  induction l with
  | nil => cases hx
  | cons y l ih =>
    obtain ⟨hy, hl⟩ := List.nodup_cons.mp hl
    rcases List.mem_cons.mp hx with rfl | hx
    · have hsame : l.countP (fun y => decide (Function.update f x b y = b)) =
          l.countP (fun y => decide (f y = b)) := by
        refine List.countP_congr fun z hz => ?_
        rw [Function.update_of_ne (by rintro rfl; exact hy hz)]
      rw [List.countP_cons_of_pos (by simp), List.countP_cons_of_neg (by simpa using hf), hsame]
    · have hne : y ≠ x := by rintro rfl; exact hy hx
      rw [List.countP_cons, List.countP_cons, ih hl hx, Function.update_of_ne hne]
      omega

end Quorum
end LeaderlessDatastore
