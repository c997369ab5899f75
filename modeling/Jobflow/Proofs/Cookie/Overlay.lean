import Jobflow.Proofs.Cookie.Merging

/-!
The algebra of merging. A merge lays one jar over another, key by key, and drops what is past.
Laying jars over each other is associative, and what was past before is past later, so a history of
merges is one merge of the jars laid over each other.
-/

namespace Jobflow.Cookie

open Jobflow.Decimal (Binary64)

namespace Jar

/-- The keys of the cookies, in their order. -/
def keys (jar : Jar) : List Key := jar.cookies.map Cookie.key

/-- The cookies whose key no cookie of another jar has. -/
def without (jar other : Jar) : Jar := ⟨jar.cookies.filter fun c => c.key ∉ other.keys⟩

/-- The cookies with those of a newer jar over them: of a key that the newer jar has, only its own
are left. -/
def overlaidBy (jar newer : Jar) : Jar := ⟨(jar.without newer).cookies ++ newer.cookies⟩

variable {stored first newer second : Jar} {key : Key} {now earlier : Binary64} {c : Cookie}

/-! ### Keys -/

theorem mem_keys_without :
    key ∈ (stored.without newer).keys ↔ key ∈ stored.keys ∧ key ∉ newer.keys := by
  simp only [keys, without, List.mem_map, List.mem_filter, decide_eq_true_eq]
  constructor
  · rintro ⟨c, ⟨hc, hnew⟩, rfl⟩
    exact ⟨⟨c, hc, rfl⟩, hnew⟩
  · rintro ⟨⟨c, hc, rfl⟩, hnew⟩
    exact ⟨c, ⟨hc, hnew⟩, rfl⟩

theorem keys_overlaidBy :
    (stored.overlaidBy newer).keys = (stored.without newer).keys ++ newer.keys :=
  List.map_append

theorem mem_keys_overlaidBy :
    key ∈ (stored.overlaidBy newer).keys ↔ key ∈ stored.keys ∨ key ∈ newer.keys := by
  rw [keys_overlaidBy, List.mem_append, mem_keys_without]
  by_cases hnew : key ∈ newer.keys
  · simp [hnew]
  · simp [hnew]

/-- Cookies with different keys stay so. -/
theorem nodup_keys_overlaidBy (hstored : stored.keys.Nodup) (hnewer : newer.keys.Nodup) :
    (stored.overlaidBy newer).keys.Nodup := by
  have hkept : (stored.without newer).keys.Nodup := hstored.sublist (List.filter_sublist.map _)
  rw [keys_overlaidBy]
  exact hkept.append hnewer fun key hkey hnew => (mem_keys_without.mp hkey).2 hnew

theorem nodup_keys_fresh (h : stored.keys.Nodup) : (stored.fresh now).keys.Nodup :=
  h.sublist (List.filter_sublist.map _)

/-! ### The cookies of one key -/

theorem under_eq_nil (h : key ∉ stored.keys) : stored.under key = [] := by
  rw [under, List.filter_eq_nil_iff]
  intro c hc hkey
  exact h (List.mem_map.mpr ⟨c, hc, of_decide_eq_true hkey⟩)

theorem under_without_of_mem (h : key ∈ newer.keys) : (stored.without newer).under key = [] :=
  under_eq_nil fun hkey => (mem_keys_without.mp hkey).2 h

theorem under_without_of_not_mem (h : key ∉ newer.keys) :
    (stored.without newer).under key = stored.under key := by
  rw [under, without, List.filter_filter]
  refine List.filter_congr fun c _ => ?_
  by_cases hkey : c.key = key
  · simp [hkey, h]
  · simp [hkey]

theorem under_overlaidBy :
    (stored.overlaidBy newer).under key = (stored.without newer).under key ++ newer.under key :=
  List.filter_append ..

theorem under_overlaidBy_of_mem (h : key ∈ newer.keys) :
    (stored.overlaidBy newer).under key = newer.under key := by
  rw [under_overlaidBy, under_without_of_mem h, List.nil_append]

theorem under_overlaidBy_of_not_mem (h : key ∉ newer.keys) :
    (stored.overlaidBy newer).under key = stored.under key := by
  rw [under_overlaidBy, under_without_of_not_mem h, under_eq_nil h, List.append_nil]

theorem under_fresh (jar : Jar) (now : Binary64) (key : Key) :
    (jar.fresh now).under key = (jar.under key).filter fun c => !c.isExpired now :=
  List.filter_comm ..

/-! ### Laying over each other -/

theorem without_without :
    (stored.without newer).without second = stored.without (newer.overlaidBy second) := by
  simp only [without, List.filter_filter, Jar.mk.injEq]
  refine List.filter_congr fun c _ => ?_
  simp only [mem_keys_overlaidBy, not_or, Bool.decide_and, Bool.and_comm]

theorem without_overlaidBy :
    (stored.overlaidBy newer).without second =
      ⟨((stored.without newer).without second).cookies ++ (newer.without second).cookies⟩ :=
  congrArg Jar.mk (List.filter_append ..)

theorem overlaidBy_assoc :
    (stored.overlaidBy newer).overlaidBy second = stored.overlaidBy (newer.overlaidBy second) := by
  rw [overlaidBy, without_overlaidBy, without_without]
  simp only [overlaidBy, List.append_assoc]

theorem without_self : newer.without newer = .empty := by
  rw [without, List.filter_eq_nil_iff.mpr]
  · rfl
  · intro c hc hkey
    exact of_decide_eq_true hkey (List.mem_map.mpr ⟨c, hc, rfl⟩)

theorem overlaidBy_self : newer.overlaidBy newer = newer := by
  rw [overlaidBy, without_self]
  rfl

/-! ### What is past -/

theorem isExpired_mono (h : earlier.le now = true) (hc : c.isExpired earlier = true) :
    c.isExpired now = true := by
  unfold Cookie.isExpired at *
  split
  · next at_ hat =>
    simp only [hat, Binary64.le, Binary64.lt, Bool.and_eq_true, decide_eq_true_eq] at h hc ⊢
    omega
  · next hnone => simp [hnone] at hc

theorem le_self (now : Binary64) : now.le now = true := by
  simp [Binary64.le]

theorem fresh_fresh (h : earlier.le now = true) :
    (stored.fresh earlier).fresh now = stored.fresh now := by
  simp only [fresh, List.filter_filter, Jar.mk.injEq]
  refine List.filter_congr fun c _ => ?_
  cases hnow : c.isExpired now with
  | true => rfl
  | false =>
    cases hearlier : c.isExpired earlier with
    | true => exact absurd (isExpired_mono h hearlier) (by simp [hnow])
    | false => rfl

theorem fresh_overlaidBy (jar newer : Jar) (now : Binary64) :
    (jar.overlaidBy newer).fresh now =
      ⟨((jar.without newer).fresh now).cookies ++ (newer.fresh now).cookies⟩ :=
  congrArg Jar.mk (List.filter_append ..)

theorem without_fresh (jar newer : Jar) (now : Binary64) :
    (jar.fresh now).without newer = (jar.without newer).fresh now :=
  congrArg Jar.mk (List.filter_comm ..)

/-- What is dropped before something is laid over would be dropped after it. -/
theorem fresh_overlaidBy_of_fresh (h : earlier.le now = true) :
    ((stored.fresh earlier).overlaidBy newer).fresh now = (stored.overlaidBy newer).fresh now := by
  rw [fresh_overlaidBy, fresh_overlaidBy, without_fresh, fresh_fresh h]

end Jar

open Jar

/-! ### Merges -/

theorem merge_eq (stored newer : Jar) (now : Binary64) :
    merge stored newer now = (stored.overlaidBy newer).fresh now := by
  have hkept : (stored.cookies.filter fun old => !newer.cookies.any fun new => new.key == old.key) =
      (stored.without newer).cookies := by
    refine List.filter_congr fun old _ => ?_
    simp only [keys, List.mem_map, decide_not, Bool.not_inj_iff]
    rw [Bool.eq_iff_iff, List.any_eq_true, decide_eq_true_eq]
    simp only [beq_iff_eq]
  rw [merge, hkept, overlaidBy]

/-- Two merges, one after the other, are one with what they bring laid over each other. -/
theorem merge_merge {stored first second : Jar} {earlier now : Binary64}
    (h : earlier.le now = true) :
    merge (merge stored first earlier) second now = merge stored (first.overlaidBy second) now := by
  rw [merge_eq, merge_eq, merge_eq, fresh_overlaidBy_of_fresh h, overlaidBy_assoc]

/-- A merge lays a jar over the stored one and drops what is past. Of every key that the newer jar
has, its cookies that are not past are left, and of every other key the stored ones, all in their
order and the stored before the newer ones. Merging the same again changes nothing, merging twice,
at once or later, is merging once with the second jar laid over the first, and different keys stay
different. -/
theorem merge_is_overlay (stored newer : Jar) (now : Binary64) :
    (∀ c ∈ (merge stored newer now).cookies, c.isExpired now = false) ∧
    (∀ key ∈ newer.keys, (merge stored newer now).under key =
      (newer.under key).filter fun c => !c.isExpired now) ∧
    (∀ key ∉ newer.keys, (merge stored newer now).under key =
      (stored.under key).filter fun c => !c.isExpired now) ∧
    (merge stored newer now).cookies =
      ((stored.without newer).fresh now).cookies ++ (newer.fresh now).cookies ∧
    merge (merge stored newer now) newer now = merge stored newer now ∧
    (∀ second, merge (merge stored newer now) second now =
      merge stored ⟨(newer.without second).cookies ++ second.cookies⟩ now) ∧
    (∀ second later, now.le later = true → merge (merge stored newer now) second later =
      merge stored ⟨(newer.without second).cookies ++ second.cookies⟩ later) ∧
    (stored.keys.Nodup → newer.keys.Nodup → (merge stored newer now).keys.Nodup) := by
  refine ⟨?_, ?_, ?_, ?_, ?_, ?_, ?_, ?_⟩
  · intro c hc
    rw [merge_eq] at hc
    simpa using (List.mem_filter.mp hc).2
  · intro key hkey
    rw [merge_eq, under_fresh, under_overlaidBy_of_mem hkey]
  · intro key hkey
    rw [merge_eq, under_fresh, under_overlaidBy_of_not_mem hkey]
  · rw [merge_eq, fresh_overlaidBy]
  · rw [merge_merge (le_self now), overlaidBy_self]
  · exact fun second => merge_merge (le_self now)
  · exact fun second later h => merge_merge h
  · intro hstored hnewer
    rw [merge_eq]
    exact nodup_keys_fresh (nodup_keys_overlaidBy hstored hnewer)

/-- A session with a setting. -/
def signedIn : Jar :=
  ⟨[⟨"sid", "1", none, some "/", none, true, true, none⟩,
    ⟨"theme", "dark", none, none, some (Binary64.ofNat 15), false, false, none⟩]⟩

/-- The cookie that deletes the session. -/
def signedOut : Jar := ⟨[⟨"sid", "", none, some "/", some (Binary64.ofNat 1), true, true, none⟩]⟩

theorem merge_is_overlay_signedOut :
    (Binary64.ofNat 10).le (.ofNat 20) = true ∧ signedIn.keys.Nodup ∧ signedOut.keys.Nodup ∧
      merge (merge signedIn signedOut (.ofNat 10)) signedIn (.ofNat 20) =
        merge signedIn ⟨(signedOut.without signedIn).cookies ++ signedIn.cookies⟩ (.ofNat 20) ∧
      (merge signedIn signedOut (.ofNat 10)).keys.Nodup := by
  have hlater : (Binary64.ofNat 10).le (.ofNat 20) = true := by decide +kernel
  have hstored : signedIn.keys.Nodup := by decide
  have hnewer : signedOut.keys.Nodup := by decide
  obtain ⟨-, -, -, -, -, -, hmerge, hkeys⟩ := merge_is_overlay signedIn signedOut (.ofNat 10)
  exact ⟨hlater, hstored, hnewer, hmerge signedIn (.ofNat 20) hlater, hkeys hstored hnewer⟩

end Jobflow.Cookie
