import Jobflow.Proofs.Cookie.Visits

/-!
Calls one after another. Of every key the file holds what the last save with that key brought, and
of the other keys what was there before, less what was past when something was merged.
-/

namespace Jobflow.Cookie

open Jobflow.Decimal (Binary64)

/-- The name, domain and path that make two cookies the same. -/
abbrev Key := String × Option String × Option String

/-- The cookies of a key. -/
def Jar.under (jar : Jar) (key : Key) : List Cookie := jar.cookies.filter fun c => c.key = key

/-- The cookies of a key that are stored, if anything is. -/
def storedUnder (stored : Option Jar) (key : Key) : List Cookie := (stored.getD .empty).under key

/-- What is left of cookies that are merged at each of the times, and read back each time. -/
def surviving (times : List Nat) (cookies : List Cookie) : List Cookie :=
  times.foldl (fun left now =>
    (left.filter fun c => !c.isExpired (Binary64.ofNat now)).map Cookie.reread) cookies

/-- Where every cookie is read back as it is, those are left that are past at none of the times. -/
theorem surviving_of_exact {times : List Nat} {cookies : List Cookie}
    (h : ∀ c ∈ cookies, c.reread = c) :
    surviving times cookies =
      cookies.filter fun c => times.all fun now => !c.isExpired (Binary64.ofNat now) := by
  induction times generalizing cookies with
  | nil => simp [surviving]
  | cons now rest ih =>
    have hkept : ∀ c ∈ cookies.filter fun c => !c.isExpired (Binary64.ofNat now), c.reread = c :=
      fun c hc => h c (List.mem_of_mem_filter hc)
    have hmap : (cookies.filter fun c => !c.isExpired (Binary64.ofNat now)).map Cookie.reread =
        cookies.filter fun c => !c.isExpired (Binary64.ofNat now) :=
      (List.map_congr_left hkept).trans (List.map_id _)
    rw [surviving, List.foldl_cons, hmap]
    rw [← surviving, ih hkept, List.filter_filter]
    simp only [List.all_cons, Bool.and_comm]

/-! ### One call -/

namespace Visit

/-- The call brings a cookie of the key. -/
def Brings (key : Key) : Visit → Prop
  | .load => False
  | .save newer => ∃ c ∈ newer.cookies, c.key = key

/-- The times at which something is merged. -/
def merges (now : Nat) : Visit → List Nat
  | .load => []
  | .save _ => [now]

variable {stored : Option Jar} {key : Key} {now : Nat}

theorem under_merge (stored newer : Jar) (now : Nat) (key : Key) :
    (merge stored newer (Binary64.ofNat now)).reread.under key =
      surviving [now] ((stored.cookies.filter fun old =>
        !newer.cookies.any fun new => new.key == old.key).filter (fun c => c.key = key) ++
          newer.under key) := by
  have hkey : ∀ c : Cookie, c.reread.key = c.key := fun _ => rfl
  simp only [merge, Jar.fresh, Jar.reread, Jar.under, surviving, List.foldl_cons, List.foldl_nil,
    List.filter_map, List.filter_append, List.map_append, Function.comp_def, hkey,
    List.filter_filter, Bool.and_comm, Bool.and_left_comm]

theorem storedUnder_after_of_brings {visit : Visit} {newer : Jar} (hvisit : visit = .save newer)
    (h : visit.Brings key) :
    storedUnder (visit.after now stored) key = surviving [now] (newer.under key) := by
  subst hvisit
  obtain ⟨c, hc, hkey⟩ := h
  have hnone : ((stored.getD .empty).cookies.filter fun old =>
      !newer.cookies.any fun new => new.key == old.key).filter (fun c => c.key = key) = [] := by
    rw [List.filter_filter, List.filter_eq_nil_iff]
    intro old _ hold
    simp only [Bool.and_eq_true, decide_eq_true_eq, Bool.not_eq_true'] at hold
    obtain ⟨rfl, hany⟩ := hold
    have hnew : (newer.cookies.any fun new => new.key == old.key) = true :=
      List.any_eq_true.mpr ⟨c, hc, beq_iff_eq.mpr hkey⟩
    rw [hnew] at hany
    cases hany
  rw [after, storedUnder, Option.getD_some, under_merge, hnone, List.nil_append]

theorem storedUnder_after_of_not_brings {visit : Visit} (h : ¬ visit.Brings key) :
    storedUnder (visit.after now stored) key =
      surviving (visit.merges now) (storedUnder stored key) := by
  cases visit with
  | load => rfl
  | save newer =>
    have hnew : newer.under key = [] := by
      rw [Jar.under, List.filter_eq_nil_iff]
      exact fun c hc hkey => h ⟨c, hc, by simpa using hkey⟩
    have hold : ((stored.getD .empty).cookies.filter fun old =>
        !newer.cookies.any fun new => new.key == old.key).filter (fun c => c.key = key) =
          storedUnder stored key := by
      rw [List.filter_filter, storedUnder, Jar.under]
      refine List.filter_congr fun old _ => ?_
      by_cases hkey : old.key = key
      · have hany : (newer.cookies.any fun new => new.key == old.key) = false :=
          List.any_eq_false.mpr fun new hmem heq => h ⟨new, hmem, (beq_iff_eq.mp heq).trans hkey⟩
        rw [hany]
        simp
      · simp [hkey]
    rw [after, storedUnder, Option.getD_some, under_merge, hnew, hold, List.append_nil]
    rfl

end Visit

/-! ### Calls one after another -/

variable {ι : Type} (visit : ι → Visit)

/-- What is stored after calls that are made one after another, each at its time. -/
def storedAfter (stored : Option Jar) (order : List (ι × Nat)) : Option Jar :=
  order.foldl (fun stored call => (visit call.1).after call.2 stored) stored

/-- The times at which the calls merge something. -/
def mergeTimes (order : List (ι × Nat)) : List Nat :=
  order.flatMap fun call => (visit call.1).merges call.2

variable {visit} {stored : Option Jar} {key : Key}

theorem surviving_append (first second : List Nat) (cookies : List Cookie) :
    surviving (first ++ second) cookies = surviving second (surviving first cookies) :=
  List.foldl_append

/-- What no call brings is kept, less what was past when something was merged. -/
theorem storedUnder_of_none_brings {order : List (ι × Nat)}
    (h : ∀ call ∈ order, ¬ (visit call.1).Brings key) :
    storedUnder (storedAfter visit stored order) key =
      surviving (mergeTimes visit order) (storedUnder stored key) := by
  induction order generalizing stored with
  | nil => rfl
  | cons call later ih =>
    obtain ⟨hcall, hlater⟩ := List.forall_mem_cons.mp h
    rw [mergeTimes, List.flatMap_cons, surviving_append, ← mergeTimes,
      ← Visit.storedUnder_after_of_not_brings hcall]
    exact ih hlater

/-- What the last save of a key brought is kept, less what was past when something was merged. -/
theorem storedUnder_of_last_brings {before later : List (ι × Nat)} {i : ι} {now : Nat} {newer : Jar}
    (hvisit : visit i = .save newer) (hbrings : (visit i).Brings key)
    (hlater : ∀ call ∈ later, ¬ (visit call.1).Brings key) :
    storedUnder (storedAfter visit stored (before ++ (i, now) :: later)) key =
      surviving (now :: mergeTimes visit later) (newer.under key) := by
  rw [storedAfter, List.foldl_append, List.foldl_cons, ← storedAfter, ← storedAfter,
    storedUnder_of_none_brings hlater, Visit.storedUnder_after_of_brings hvisit hbrings]
  rfl

/-- What becomes of the cookies of a file when calls are made one after another. -/
structure LosesNone (visit : ι → Visit) (order : List (ι × Nat)) (first last : Option Jar) :
    Prop where
  saved : ∀ {key before i now later newer}, order = before ++ (i, now) :: later →
    visit i = .save newer → (visit i).Brings key → (∀ call ∈ later, ¬ (visit call.1).Brings key) →
    storedUnder last key = surviving (now :: mergeTimes visit later) (newer.under key)
  kept : ∀ {key}, (∀ call ∈ order, ¬ (visit call.1).Brings key) →
    storedUnder last key = surviving (mergeTimes visit order) (storedUnder first key)

theorem losesNone_storedAfter (visit : ι → Visit) (order : List (ι × Nat)) (first : Option Jar) :
    LosesNone visit order first (storedAfter visit first order) where
  saved := by
    rintro key before i now later newer rfl hvisit hbrings hlater
    exact storedUnder_of_last_brings hvisit hbrings hlater
  kept := storedUnder_of_none_brings

/-- What calls return that are made one after another, each at its time. -/
def answers (visit : ι → Visit) : Option Jar → List (ι × Nat) → List (ι × Answer)
  | _, [] => []
  | stored, (i, now) :: later =>
    (i, (visit i).answer now stored) :: answers visit ((visit i).after now stored) later

theorem map_fst_answers (order : List (ι × Nat)) :
    (answers visit stored order).map Prod.fst = order.map Prod.fst := by
  induction order generalizing stored with
  | nil => rfl
  | cons call later ih => exact congrArg (call.1 :: ·) ih

/-- A call returns what it returns of what the calls before it have stored. -/
theorem mem_answers_iff {order : List (ι × Nat)} {i : ι} {a : Answer} :
    (i, a) ∈ answers visit stored order ↔ ∃ before now later, order = before ++ (i, now) :: later ∧
      a = (visit i).answer now (storedAfter visit stored before) := by
  induction order generalizing stored with
  | nil => simp [answers]
  | cons call rest ih =>
    obtain ⟨j, time⟩ := call
    rw [answers, List.mem_cons, ih]
    constructor
    · rintro (heq | ⟨before, now, later, rfl, rfl⟩)
      · obtain ⟨rfl, rfl⟩ := Prod.mk.inj heq
        exact ⟨[], time, rest, rfl, rfl⟩
      · exact ⟨(j, time) :: before, now, later, rfl, rfl⟩
    · rintro ⟨before, now, later, heq, rfl⟩
      cases before with
      | nil =>
        obtain ⟨hcall, -⟩ := List.cons.inj heq
        obtain ⟨rfl, rfl⟩ := Prod.mk.inj hcall
        exact .inl rfl
      | cons call before =>
        obtain ⟨rfl, rfl⟩ := List.cons.inj heq
        exact .inr ⟨before, now, later, rfl, rfl⟩

end Jobflow.Cookie
