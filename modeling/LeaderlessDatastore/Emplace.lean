import LeaderlessDatastore.Codec

/-!
# Maps that keep the first value of a key

`emplace` of an `unordered_map`, as `lookup` sees it.
-/

namespace LeaderlessDatastore

variable {Key Value : Type} [DecidableEq Key] [BEq Key] [LawfulBEq Key]

theorem lookup_emplace (entries : List (Key × Value)) (key k : Key) (value : Value) :
    (emplace entries key value).lookup k = (entries ++ [(key, value)]).lookup k := by
  unfold emplace
  split_ifs with hmem
  · rw [List.lookup_append]
    cases hlookup : entries.lookup k with
    | some v => rfl
    | none =>
      have hne : k ≠ key := by
        rintro rfl
        obtain ⟨entry, hentry, rfl⟩ := List.mem_map.mp hmem
        simpa using List.lookup_eq_none_iff.mp hlookup entry hentry
      simp [List.lookup_cons, beq_false_of_ne hne]
  · rfl

theorem lookup_foldl_emplace (entries given : List (Key × Value)) (k : Key) :
    (given.foldl (fun m entry => emplace m entry.1 entry.2) entries).lookup k =
      (entries ++ given).lookup k := by
  induction given generalizing entries with
  | nil => simp
  | cons entry given ih =>
    rw [List.foldl_cons, ih, List.lookup_append, lookup_emplace, ← List.lookup_append]
    simp

omit [DecidableEq Key] in
theorem lookup_filter {entries : List (Key × Value)} {isRead : Key → Bool} {k : Key}
    (hk : isRead k) : (entries.filter fun entry => isRead entry.1).lookup k =
      entries.lookup k := by
  induction entries with
  | nil => rfl
  | cons entry entries ih =>
    obtain ⟨key, value⟩ := entry
    by_cases hread : isRead key
    · rw [List.filter_cons, if_pos hread, List.lookup_cons, List.lookup_cons, ih]
    · have hne : k ≠ key := by
        rintro rfl
        exact hread hk
      rw [List.filter_cons, if_neg hread, ih, List.lookup_cons, beq_false_of_ne hne]

end LeaderlessDatastore
