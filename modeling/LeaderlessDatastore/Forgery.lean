import LeaderlessDatastore.EntryLists

/-!
# Values that look like entries

A value may hold quotes, since a `PUT` carries them.  Where a value holds a text that ends
an entry, the decoder of an `UPDATE` ends the entry there and reads on inside the value.
-/

namespace LeaderlessDatastore

open Pattern Regex ServerMessage

/-! ## The first end of an entry -/

section Ends

variable {t value delimiter rest key : Text} {groups : List Text}

theorem exists_first_end (h : HoldsEnd t) :
    ∃ front delimiter after groups, t = front ++ (delimiter ++ after) ∧
      Matches sameLetter entryEnd delimiter groups ∧ ¬ HoldsEnd front := by
  induction hn : t.length using Nat.strong_induction_on generalizing t with
  | _ n ih =>
    obtain ⟨front, delimiter, after, groups, rfl, hmatch⟩ := h
    by_cases hfront : HoldsEnd front
    · obtain ⟨rest, rfl, -⟩ := entryEnd_quote hmatch
      have hlt : front.length < n := by
        rw [← hn]
        simp
      obtain ⟨front', delimiter', after', groups', rfl, hmatch', hnone⟩ := ih _ hlt hfront rfl
      exact ⟨front', delimiter', after' ++ ('"' :: rest ++ after), groups',
        by simp only [List.append_assoc], hmatch', hnone⟩
    · exact ⟨front, delimiter, after, groups, rfl, hmatch, hfront⟩

/-- The number that an end of an entry names does not depend on what follows. -/
theorem exists_exec_end (h : Matches sameLetter entryEnd delimiter groups) :
    ∃ timestamp, ∀ {items : Pattern Char} {rest : Text} {groups' : List Text},
      exec sameLetter items rest = some groups' →
      exec sameLetter (entryEnd ++ items) (delimiter ++ rest) = some (timestamp :: groups') := by
  obtain ⟨comma, _, rfl, hcomma, spaces, _, _, rfl, hspaces, ⟨ts, _, rfl, hts, timestamp, _, _, rfl,
    hdigits, ⟨close, _, rfl, hclose, rfl, -⟩, -⟩, -⟩ := h
  refine ⟨timestamp, fun {items rest groups'} hrest => ?_⟩
  have hclosed : exec sameLetter (lit ")," :: items) (close ++ rest) = some groups' := by
    rw [lit, exec, strip_of_forall₂ hclose]
    exact hrest
  have hparen : ∀ c ∈ (close ++ rest).head?, ¬ c.isDigit := by
    obtain ⟨close, rfl⟩ := (sharp_of_not_isAlpha (a := ')') rfl).cons [','] hclose
    simp
  have hnumber : exec sameLetter (digits :: lit ")," :: items) (timestamp ++ (close ++ rest)) =
      some (timestamp :: groups') := exec_greedy timestamp hdigits hparen hclosed
  have hnamed : exec sameLetter (lit "ts:" :: digits :: lit ")," :: items)
      (ts ++ (timestamp ++ (close ++ rest))) = some (timestamp :: groups') := by
    rw [lit, exec, strip_of_forall₂ hts]
    exact hnumber
  have hletter : ∀ c ∈ (ts ++ (timestamp ++ (close ++ rest))).head?, ¬ Text.isSpace c := by
    cases hts with
    | cons hsame _ =>
      rintro _ ⟨⟩
      exact not_isSpace_of_sameLetter hsame (by decide)
  have hblank : exec sameLetter (space :: lit "ts:" :: digits :: lit ")," :: items)
      (spaces ++ (ts ++ (timestamp ++ (close ++ rest)))) = some (timestamp :: groups') :=
    exec_greedy spaces hspaces hletter hnamed
  have htext : comma ++ (spaces ++ (ts ++ (timestamp ++ (close ++ [])))) ++ rest =
      comma ++ (spaces ++ (ts ++ (timestamp ++ (close ++ rest)))) := by simp
  have hpattern : entryEnd ++ items =
      lit "\"," :: space :: lit "ts:" :: digits :: lit ")," :: items := rfl
  rw [htext, hpattern, lit, exec, strip_of_forall₂ hcomma]
  exact hblank

theorem exec_blanks (hdot : ∀ c ∈ t, isDot c) :
    exec sameLetter [space, text] t = some [t.dropWhile Text.isSpace] := by
  have hrest : exec sameLetter [text] (t.dropWhile Text.isSpace) =
      some [t.dropWhile Text.isSpace] :=
    exec_text fun c hc => hdot c ((List.dropWhile_sublist _).subset hc)
  have hspaces : ∀ c ∈ t.takeWhile Text.isSpace, Text.isSpace c := fun c => List.mem_takeWhile_imp
  have hstop : ∀ c ∈ (t.dropWhile Text.isSpace).head?, ¬ Text.isSpace c := by
    intro c hc
    have := List.head?_dropWhile_not Text.isSpace t
    simp_all
  have hexec : exec sameLetter [space, text] (t.takeWhile Text.isSpace ++
      t.dropWhile Text.isSpace) = some [t.dropWhile Text.isSpace] :=
    exec_greedy _ hspaces hstop hrest
  rwa [List.takeWhile_append_dropWhile] at hexec

/-- A value that holds the end of an entry is cut there, whatever follows in the list. -/
theorem exists_regexMatch_update (hkey : Keyable key) (hvalue : HoldsEnd value)
    (hdot : ∀ c ∈ value, isDot c) :
    ∃ front timestamp, ∀ (n : ℤ) (tail : Text), 0 ≤ n → (∀ c ∈ tail, isDot c) →
      ∃ rest, regexMatch (Update.record (key, value, n) ++ tail) update =
        some [key, front, timestamp, rest] := by
  obtain ⟨front, delimiter, after, groups, rfl, hmatch, hfront⟩ := exists_first_end hvalue
  obtain ⟨timestamp, hexec⟩ := exists_exec_end hmatch
  obtain ⟨rest, rfl, -⟩ := entryEnd_quote hmatch
  simp only [List.forall_mem_append] at hdot
  refine ⟨front, timestamp, fun n tail hn htail => ?_⟩
  let behind : Text := after ++ ("\", ts:".toList ++ (Text.ofInt n ++ (")".toList ++ tail)))
  have hbehind : ∀ c ∈ behind, isDot c := by
    simp only [behind, List.forall_mem_append]
    exact ⟨hdot.2.2, by simp [isDot], isDot_ofInt hn, by simp [isDot], htail⟩
  have htext : Update.record (key, front ++ ('"' :: rest ++ after), n) ++ tail =
      "(k:\"".toList ++ (key ++ ("\", v:\"".toList ++ (front ++ '"' :: (rest ++ behind)))) := by
    unfold Update.record
    simp [behind]
  have hpattern : update = lit "(k:\"" ::
      text :: (valueStart ++ text :: (entryEnd ++ [space, text])) := rfl
  rw [htext, hpattern, regexMatch, lit, exec_lit sameLetter_refl]
  exact ⟨_, exec_key hkey (exec_whole hfront hdot.1 (hexec (exec_blanks hbehind)))⟩

end Ends

/-! ## What a decoded map can hold -/

theorem mem_emplace {Key Value : Type} [DecidableEq Key] {found : List (Key × Value)}
    {e : Key × Value} (h : e ∈ found) (key : Key) (value : Value) :
    e ∈ emplace found key value := by
  unfold emplace
  split_ifs <;> simp [h]

/-- The loop keeps what it has found. -/
theorem mem_newValues {found found' : List (Text × Text × ℤ)} {s remaining : Text}
    (h : Update.newValues found s = .ok (found', remaining)) {e : Text × Text × ℤ}
    (he : e ∈ found) : e ∈ found' := by
  fun_induction Update.newValues found s with
  | case1 found s key value timestamp rest _ ih =>
    cases hnumber : number (Text.stoll timestamp) with
    | error thrown =>
      rw [hnumber] at h
      cases h
    | ok n =>
      rw [hnumber] at h
      exact ih n h (mem_emplace he _ _)
  | case2 =>
    cases h
    exact he

/-- The map with the given versions. -/
def withVersions (texts : List (Text × Text)) (versions : Text → ℤ) :
    List (Text × Text × ℤ) :=
  texts.map fun t => (t.1, t.2, versions t.1)

/-- Every entry that is decoded from the `UPDATE` has a key of the map, with its version. -/
def Genuine (newValues : List (Text × Text × ℤ)) : Prop :=
  ∃ decoded, ServerMessage.toMessage ((Message.update newValues).toString ++ [escape]) =
      .ok (.update decoded) ∧
    ∀ e ∈ decoded, ∃ e' ∈ newValues, e'.1 = e.1 ∧ e'.2.2 = e.2.2

/-- A `PUT` that the server reads can carry the pair. -/
def Storable (key value : Text) : Prop := ∃ s, ServerMessage.toMessage s = .ok (.put key value)

section Genuine

variable {texts : List (Text × Text)} {versions : Text → ℤ}

theorem keys_withVersions (texts : List (Text × Text)) (versions : Text → ℤ) :
    (withVersions texts versions).map Prod.fst = texts.map Prod.fst := by
  rw [withVersions, List.map_map]
  rfl

theorem readable_of_storable {t : Text × Text} {n : ℤ} (h : Storable t.1 t.2)
    (hends : ¬ HoldsEnd t.2) (hn : 1 ≤ n ∧ n < 2 ^ 63) : Update.Readable (t.1, t.2, n) := by
  obtain ⟨s, hs⟩ := h
  obtain ⟨hkey, hvalue⟩ := keyable_of_toMessage hs
  exact ⟨hkey, hends, hvalue, zero_le_one.trans hn.1, hn.2⟩

theorem follows_of_storable {t : Text × Text} {n : ℤ} (h : Storable t.1 t.2) (hn : 1 ≤ n) :
    Follows (Update.record (t.1, t.2, n)) := by
  obtain ⟨s, hs⟩ := h
  obtain ⟨hkey, hvalue⟩ := keyable_of_toMessage hs
  exact Update.follows_record hkey.isDot hvalue (zero_le_one.trans hn)

theorem genuine_of_not_holdsEnd (hnodup : (texts.map Prod.fst).Nodup)
    (hstorable : ∀ t ∈ texts, Storable t.1 t.2) (hends : ∀ t ∈ texts, ¬ HoldsEnd t.2)
    (hversions : ∀ key, 1 ≤ versions key ∧ versions key < 2 ^ 63) :
    Genuine (withVersions texts versions) := by
  refine ⟨withVersions texts versions, toMessage_update ?_ fun e he => ?_,
    fun e he => ⟨e, he, rfl, rfl⟩⟩
  · rwa [keys_withVersions]
  · obtain ⟨t, ht, rfl⟩ := List.mem_map.mp he
    exact readable_of_storable (hstorable t ht) (hends t ht) (hversions t.1)

/-- The list from one entry on. -/
theorem exists_tail (before after : List (Text × Text × ℤ)) (e : Text × Text × ℤ)
    (hfollows : ∀ e' ∈ before ++ e :: after, Follows (Update.record e')) :
    ∃ front last tail, before ++ e :: after = front ++ [last] ∧
      front.flatMap Update.entry ++ Update.record last =
        before.flatMap Update.entry ++ (Update.record e ++ tail) ∧
      (∀ c ∈ tail, isDot c) ∧ Follows (front.flatMap Update.entry ++ Update.record last) := by
  have hentry : ∀ e' ∈ before ++ e :: after, Follows (Update.entry e') :=
    fun e' he' => follows_entry Update.entry_eq (hfollows e' he')
  rcases List.eq_nil_or_concat after with rfl | ⟨after, last, rfl⟩
  · exact ⟨before, e, [], rfl, by simp, by simp, follows_flatMap
      (fun e' he' => hentry e' (by simp [he'])) (hfollows e (by simp))⟩
  · have hlast : Follows (Update.record last) := hfollows last (by simp)
    have hafter : Follows (after.flatMap Update.entry ++ Update.record last) :=
      follows_flatMap (fun e' he' => hentry e' (by simp [he'])) hlast
    refine ⟨before ++ e :: after, last,
      ", ".toList ++ (after.flatMap Update.entry ++ Update.record last), by simp, ?_, ?_, ?_⟩
    · simp [Update.entry_eq e]
    · exact List.forall_mem_append.mpr ⟨by simp [isDot], hafter.isDot⟩
    · refine follows_flatMap (fun e' he' => hentry e' ?_) hlast
      simp only [List.concat_eq_append, List.mem_append, List.mem_cons] at he' ⊢
      tauto

/-- What the loop has found is in the message. -/
theorem mem_of_toMessage {result : Except Thrown (List (Text × Text × ℤ) × Text)}
    {decoded : List (Text × Text × ℤ)}
    (h : (do
      let (found, remaining) ← result
      match regexMatch remaining updateEnd with
      | some [key, value, timestamp] => do
        .ok (Message.update (emplace found key (value, ← number (Text.stoll timestamp))))
      | _ => mismatch "Update") = .ok (.update decoded)) :
    ∃ found remaining, result = .ok (found, remaining) ∧ ∀ e ∈ found, e ∈ decoded := by
  cases result with
  | error thrown => cases h
  | ok found =>
    obtain ⟨found, remaining⟩ := found
    refine ⟨found, remaining, rfl, fun e he => ?_⟩
    change (match regexMatch remaining updateEnd with
      | some [key, value, timestamp] => _
      | _ => _) = _ at h
    split at h
    · next key value timestamp _ =>
      cases hnumber : number (Text.stoll timestamp) with
      | error thrown =>
        rw [hnumber] at h
        cases h
      | ok n =>
        rw [hnumber] at h
        cases h
        exact mem_emplace he key (value, n)
    · cases h

/-- The first entry whose value holds the end of an entry gets the version that is written there. -/
theorem version_of_genuine {before after : List (Text × Text)} {key value : Text}
    (hnodup : ((before ++ (key, value) :: after).map Prod.fst).Nodup)
    (hstorable : ∀ t ∈ before ++ (key, value) :: after, Storable t.1 t.2)
    (hbefore : ∀ t ∈ before, ¬ HoldsEnd t.2) (hvalue : HoldsEnd value) :
    ∃ timestamp, ∀ versions : Text → ℤ, (∀ key, 1 ≤ versions key ∧ versions key < 2 ^ 63) →
      Genuine (withVersions (before ++ (key, value) :: after) versions) →
        number (Text.stoll timestamp) = .ok (versions key) := by
  obtain ⟨s, hs⟩ := hstorable (key, value) (by simp)
  obtain ⟨hkey, hdot⟩ := keyable_of_toMessage hs
  obtain ⟨front, timestamp, hmatch⟩ := exists_regexMatch_update hkey hvalue hdot
  refine ⟨timestamp, fun versions hversions hgenuine => ?_⟩
  have hsplit : withVersions (before ++ (key, value) :: after) versions =
      withVersions before versions ++ (key, value, versions key) ::
        withVersions after versions := by
    simp [withVersions]
  obtain ⟨decoded, hdecoded, hgenuine⟩ := hgenuine
  have hfollows : ∀ e ∈ withVersions (before ++ (key, value) :: after) versions,
      Follows (Update.record e) := by
    intro e he
    obtain ⟨t, ht, rfl⟩ := List.mem_map.mp he
    exact follows_of_storable (hstorable t ht) (hversions t.1).1
  rw [hsplit] at hfollows
  -- the loop takes the entries in front of this one as they are
  obtain ⟨init, last, tail, hinit, hlist, htail, hbody⟩ := exists_tail _ _ _ hfollows
  rw [hsplit, hinit, toMessage_updateList init last hbody, hlist] at hdecoded
  have hread : ∀ e ∈ withVersions before versions, Update.Readable e := by
    intro e he
    obtain ⟨t, ht, rfl⟩ := List.mem_map.mp he
    exact readable_of_storable (hstorable t (by simp [ht])) (hbefore t ht) (hversions t.1)
  have hkeys : ((withVersions before versions).map Prod.fst).Nodup ∧
      key ∉ (withVersions before versions).map Prod.fst := by
    rw [keys_withVersions]
    rw [List.map_append, List.nodup_append] at hnodup
    exact ⟨hnodup.1, fun hmem => hnodup.2.2 _ hmem _ (by simp) rfl⟩
  have hrecord := hfollows (key, value, versions key) (by simp)
  have hrest : Follows (Update.record (key, value, versions key) ++ tail) :=
    ⟨hrecord.head, List.forall_mem_append.mpr ⟨hrecord.isDot, htail⟩⟩
  obtain ⟨rest, hmatch⟩ := hmatch (versions key) tail (zero_le_one.trans (hversions key).1) htail
  rw [Update.newValues_list hkeys.1 hread hrest, Update.newValues_of_match hmatch] at hdecoded
  obtain ⟨found, remaining, hfound, hsubset⟩ := mem_of_toMessage hdecoded
  -- and enters the next one under its key, with the version found in the text
  cases hnumber : number (Text.stoll timestamp) with
  | error thrown =>
    rw [hnumber] at hfound
    cases hfound
  | ok n =>
    rw [hnumber] at hfound
    have hmem : (key, front, n) ∈ emplace (withVersions before versions) key (front, n) := by
      rw [emplace, if_neg hkeys.2]
      simp
    obtain ⟨e, he, hekey, hen⟩ := hgenuine _ (hsubset _ (mem_newValues hfound hmem))
    obtain ⟨t, -, rfl⟩ := List.mem_map.mp he
    have hversion : n = versions key :=
      (show versions t.1 = n from hen).symm.trans (congrArg versions hekey)
    rw [hversion]

/-- Whatever the versions are, no entry is forged, exactly when no value holds the end of an
entry. -/
theorem genuine_iff (texts : List (Text × Text)) (hnodup : (texts.map Prod.fst).Nodup)
    (hstorable : ∀ t ∈ texts, Storable t.1 t.2) :
    (∀ versions : Text → ℤ, (∀ key, 1 ≤ versions key ∧ versions key < 2 ^ 63) →
      Genuine (withVersions texts versions)) ↔ ∀ t ∈ texts, ¬ HoldsEnd t.2 := by
  classical
  constructor
  · intro hgenuine
    by_contra hholds
    push Not at hholds
    obtain ⟨t, ht, hend⟩ := hholds
    obtain ⟨⟨key, value⟩, hfind⟩ := Option.isSome_iff_exists.mp
      (List.find?_isSome (p := fun t => decide (HoldsEnd t.2)).mpr ⟨t, ht, decide_eq_true hend⟩)
    obtain ⟨hvalue, before, after, rfl, hbefore⟩ := List.find?_eq_some_iff_append.mp hfind
    obtain ⟨timestamp, hversion⟩ := version_of_genuine hnodup hstorable
      (fun t ht => by simpa using hbefore t ht) (of_decide_eq_true hvalue)
    -- one timestamp in the text cannot be two versions
    have hone := hversion (fun _ => 1) (by norm_num) (hgenuine _ (by norm_num))
    have htwo := hversion (fun _ => 2) (by norm_num) (hgenuine _ (by norm_num))
    simpa using hone.symm.trans htwo
  · exact fun hends versions => genuine_of_not_holdsEnd hnodup hstorable hends

theorem genuine_iff_quoted :
    (∀ versions : Text → ℤ, (∀ key, 1 ≤ versions key ∧ versions key < 2 ^ 63) →
      Genuine (withVersions [("a".toList, "x\", ts:".toList)] versions)) ↔
        ∀ t ∈ [("a".toList, "x\", ts:".toList)], ¬ HoldsEnd t.2 :=
  genuine_iff _ (by decide) fun t ht => by
    obtain rfl := List.mem_singleton.mp ht
    exact ⟨"PUT; k:\"a\", v:\"x\", ts:\"".toList ++ [escape], by decide +kernel⟩

/-- The value of one key is read as an entry for another one. -/
theorem forged_entry :
    Storable "a".toList "x\", ts:9), (k:\"b\", v:\"y".toList ∧
    ServerMessage.toMessage
      ((Message.update [("a".toList, "x\", ts:9), (k:\"b\", v:\"y".toList, 1)]).toString ++
        [escape]) = .ok (.update [("a".toList, "x".toList, 9), ("b".toList, "y".toList, 1)]) ∧
    ¬ Genuine [("a".toList, "x\", ts:9), (k:\"b\", v:\"y".toList, 1)] := by
  have hdecoded : ServerMessage.toMessage
      ((Message.update [("a".toList, "x\", ts:9), (k:\"b\", v:\"y".toList, 1)]).toString ++
        [escape]) = .ok (.update [("a".toList, "x".toList, 9), ("b".toList, "y".toList, 1)]) := by
    have htext :
        (Message.update [("a".toList, "x\", ts:9), (k:\"b\", v:\"y".toList, 1)]).toString =
          (Message.update [("a".toList, "x".toList, 9), ("b".toList, "y".toList, 1)]).toString := by
      decide +kernel
    rw [htext]
    refine toMessage_update (by decide) fun e he => ?_
    obtain ⟨hkey, hvalue, hversion⟩ : Plain e.1 ∧ Plain e.2.1 ∧ 0 ≤ e.2.2 ∧ e.2.2 < 2 ^ 63 := by
      revert e
      simp [Plain]
    exact hkey.update hvalue hversion
  refine ⟨⟨"PUT; k:\"a\", v:\"x\", ts:9), (k:\"b\", v:\"y\"".toList ++ [escape],
    by decide +kernel⟩, hdecoded, ?_⟩
  rintro ⟨decoded, hdecoded', hgenuine⟩
  obtain rfl : _ = decoded := by simpa using hdecoded.symm.trans hdecoded'
  simpa using hgenuine ("b".toList, "y".toList, 1) (by simp)

end Genuine

end LeaderlessDatastore
