import Mathlib.Tactic

/-!
# Seats and locks

A table of seats gives each key at most one holder; a second table says which
keys are locked, and under which id.  A holder knows the key it occupies and the
lock it holds.  `Consistent` says that tables and holders agree; each of the
four changes to the tables preserves it.
-/

namespace LeaderlessDatastore
namespace Occupancy

open Function

variable {Key Holder Uid : Type*}

/-- An entry of a table is the one written last, or it was there before. -/
theorem update_eq_some {α β : Type*} [DecidableEq α] {f : α → Option β} {a x : α}
    {b : Option β} {y : β} :
    update f a b x = some y ↔ (x = a ∧ b = some y) ∨ (x ≠ a ∧ f x = some y) := by
  by_cases hx : x = a
  · subst hx
    simp
  · simp [hx]

structure Consistent (seat : Key → Option Holder) (owner : Key → Option Uid)
    (occupied : Holder → Option Key) (held : Holder → Option (Key × Uid)) : Prop where
  seat_iff : ∀ key h, seat key = some h ↔ occupied h = some key
  owner_iff : ∀ key uid, owner key = some uid ↔ ∃ h, held h = some (key, uid)
  occupied_of_held : ∀ h key uid, held h = some (key, uid) → occupied h = some key

namespace Consistent

variable {seat : Key → Option Holder} {owner : Key → Option Uid}
  {occupied : Holder → Option Key} {held : Holder → Option (Key × Uid)}
  {key : Key} {h h' : Holder} {uid : Uid}

/-- Nobody occupies anything. -/
theorem of_vacant (hseat : ∀ key, seat key = none) (howner : ∀ key, owner key = none)
    (hoccupied : ∀ h, occupied h = none) (hheld : ∀ h, held h = none) :
    Consistent seat owner occupied held where
  seat_iff key h := by simp [hseat, hoccupied]
  owner_iff key uid := by simp [howner, hheld]
  occupied_of_held h key uid hh := by simp [hheld] at hh

/-- A key has one holder. -/
theorem holder_unique (c : Consistent seat owner occupied held) (hh : occupied h = some key)
    (hh' : occupied h' = some key) : h = h' :=
  Option.some.inj (((c.seat_iff key h).mpr hh).symm.trans ((c.seat_iff key h').mpr hh'))

theorem owner_of_held (c : Consistent seat owner occupied held) (hh : held h = some (key, uid)) :
    owner key = some uid := (c.owner_iff key uid).mpr ⟨h, hh⟩

/-- A holder that occupies an unlocked key holds no lock. -/
theorem held_eq_none (c : Consistent seat owner occupied held) (hh : occupied h = some key)
    (ho : owner key = none) : held h = none := by
  cases hheld : held h with
  | none => rfl
  | some p =>
    have hkey : p.1 = key :=
      Option.some.inj ((c.occupied_of_held h p.1 p.2 hheld).symm.trans hh)
    have howner : owner p.1 = some p.2 := c.owner_of_held hheld
    rw [hkey, ho] at howner
    cases howner

/-- A key whose holder has no lock is not locked. -/
theorem owner_eq_none (c : Consistent seat owner occupied held) (hh : occupied h = some key)
    (hheld : held h = none) : owner key = none := by
  cases howner : owner key with
  | none => rfl
  | some uid =>
    obtain ⟨h', hh'⟩ := (c.owner_iff key uid).mp howner
    rw [c.holder_unique (c.occupied_of_held h' key uid hh') hh, hheld] at hh'
    cases hh'

variable [DecidableEq Key] [DecidableEq Holder]

theorem enter (c : Consistent seat owner occupied held) (hseat : seat key = none)
    (hocc : occupied h = none) :
    Consistent (update seat key (some h)) owner (update occupied h (some key)) held where
  seat_iff k x := by
    by_cases hk : k = key <;> by_cases hx : x = h
    · simp [hk, hx]
    · have hne : occupied x ≠ some key := fun ho => by
        rw [(c.seat_iff key x).mpr ho] at hseat
        cases hseat
      simp [hk, hx, hne, Ne.symm hx]
    · have hne : seat k ≠ some h := fun hs => by simp [(c.seat_iff k h).mp hs] at hocc
      simp [hk, hx, hne, Ne.symm hk]
    · simp [hk, hx, c.seat_iff]
  owner_iff := c.owner_iff
  occupied_of_held x k u hx := by
    have hold := c.occupied_of_held x k u hx
    have hne : x ≠ h := by rintro rfl; simp [hocc] at hold
    rw [update_of_ne hne, hold]

theorem leave (c : Consistent seat owner occupied held) (hocc : occupied h = some key)
    (hheld : held h = none) :
    Consistent (update seat key none) owner (update occupied h none) held where
  seat_iff k x := by
    by_cases hk : k = key <;> by_cases hx : x = h
    · simp [hk, hx]
    · have hne : occupied x ≠ some key := fun ho => hx (c.holder_unique ho hocc)
      simp [hk, hx, hne]
    · have hne : seat k ≠ some h := fun hs =>
        hk (Option.some.inj (((c.seat_iff k h).mp hs).symm.trans hocc))
      simp [hk, hx, hne]
    · simp [hk, hx, c.seat_iff]
  owner_iff := c.owner_iff
  occupied_of_held x k u hx := by
    have hne : x ≠ h := by rintro rfl; simp [hheld] at hx
    rw [update_of_ne hne, c.occupied_of_held x k u hx]

theorem acquire (c : Consistent seat owner occupied held) (hocc : occupied h = some key)
    (howner : owner key = none) :
    Consistent seat (update owner key (some uid)) occupied (update held h (some (key, uid))) where
  seat_iff := c.seat_iff
  owner_iff k u := by
    simp only [update_eq_some]
    constructor
    · rintro (⟨rfl, ⟨⟩⟩ | ⟨-, hu⟩)
      · exact ⟨h, .inl ⟨rfl, rfl⟩⟩
      · obtain ⟨x, hx⟩ := (c.owner_iff k u).mp hu
        refine ⟨x, .inr ⟨?_, hx⟩⟩
        rintro rfl
        cases (c.held_eq_none hocc howner).symm.trans hx
    · rintro ⟨x, ⟨-, ⟨⟩⟩ | ⟨hxh, hx⟩⟩
      · exact .inl ⟨rfl, rfl⟩
      · refine .inr ⟨?_, c.owner_of_held hx⟩
        rintro rfl
        exact hxh (c.holder_unique (c.occupied_of_held x k u hx) hocc)
  occupied_of_held x k u hx := by
    rcases update_eq_some.mp hx with ⟨rfl, ⟨⟩⟩ | ⟨-, hx⟩
    · exact hocc
    · exact c.occupied_of_held x k u hx

theorem release (c : Consistent seat owner occupied held) (hheld : held h = some (key, uid)) :
    Consistent seat (update owner key none) occupied (update held h none) where
  seat_iff := c.seat_iff
  owner_iff k u := by
    simp only [update_eq_some]
    constructor
    · rintro (⟨-, ⟨⟩⟩ | ⟨hk, hu⟩)
      obtain ⟨x, hx⟩ := (c.owner_iff k u).mp hu
      refine ⟨x, .inr ⟨?_, hx⟩⟩
      rintro rfl
      cases hheld.symm.trans hx
      exact hk rfl
    · rintro ⟨x, ⟨-, ⟨⟩⟩ | ⟨hxh, hx⟩⟩
      refine .inr ⟨?_, c.owner_of_held hx⟩
      rintro rfl
      exact hxh (c.holder_unique (c.occupied_of_held x k u hx) (c.occupied_of_held h k uid hheld))
  occupied_of_held x k u hx := by
    rcases update_eq_some.mp hx with ⟨-, ⟨⟩⟩ | ⟨-, hx⟩
    exact c.occupied_of_held x k u hx

end Consistent

end Occupancy
end LeaderlessDatastore
