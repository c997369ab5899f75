import Jobflow.Proofs.Cookie.Visits
import Jobflow.Proofs.Files.Faults
import Jobflow.Proofs.Json.Whole

/-!
Saves of cookies when anything may fail. The cookies in the file of a site are those that were
there, or those of the merge; a cookie that no newer one replaces and that is not past stays in its
place, and as it is if its expiry is a whole number of seconds that is not too large.
-/

namespace Jobflow.Cookie

open Jobflow.Files
open Jobflow.Decimal (Binary64)
open Jobflow.Workflow (FlowError)

/-! ### Cookies that stay -/

/-- The stored cookies that no newer one replaces and that are not past. -/
def Jar.untouched (stored newer : Jar) (now : Nat) : List Cookie :=
  stored.cookies.filter fun old =>
    !old.isExpired (Binary64.ofNat now) && !newer.cookies.any fun new => new.key == old.key

/-- The cookie has no expiry, or one that is a whole number of seconds, at most 900719925474099 of
them before or after the start of 1970. -/
def Cookie.Timely (c : Cookie) : Prop :=
  ∀ x, c.expires = some x → ∃ seconds : Int, seconds.natAbs ≤ Json.greatestWhole ∧
    x = Binary64.ofInt seconds

theorem Cookie.Timely.reread {c : Cookie} (h : c.Timely) : c.reread = c := by
  obtain ⟨name, value, domain, path, expires, httpOnly, secure, sameSite⟩ := c
  cases expires with
  | none => rfl
  | some x =>
    obtain ⟨seconds, hbound, rfl⟩ := h x rfl
    simp [Cookie.reread, Json.reread_ofInt hbound]

/-- What a save makes of stored cookies: those that stay come first, then the newer ones, all as
they are read back. Of those that stay the timely ones are what they were. -/
structure Jar.Saved (stored newer : Jar) (now : Nat) (saved : Jar) : Prop where
  cookies : saved.cookies =
    (stored.untouched newer now ++ (newer.fresh (Binary64.ofNat now)).cookies).map Cookie.reread
  timely : ∀ kept : List Cookie, kept.Sublist (stored.untouched newer now) →
    (∀ c ∈ kept, c.Timely) → kept.Sublist saved.cookies

theorem saved_merge (stored newer : Jar) (now : Nat) :
    stored.Saved newer now (merge stored newer (Binary64.ofNat now)).reread := by
  have hcookies : (merge stored newer (Binary64.ofNat now)).reread.cookies =
      (stored.untouched newer now ++ (newer.fresh (Binary64.ofNat now)).cookies).map
        Cookie.reread := by
    simp only [merge, Jar.fresh, Jar.reread, Jar.untouched, List.filter_append, List.filter_filter]
  refine ⟨hcookies, fun kept hsub htimely => ?_⟩
  have hkept : kept.map Cookie.reread = kept :=
    (List.map_congr_left fun c hc => (htimely c hc).reread).trans (List.map_id _)
  rw [hcookies, List.map_append, ← hkept]
  exact (hsub.map Cookie.reread).trans (List.sublist_append_left _ _)

/-! ### The file -/

/-- The cookies in a file, if it has any that can be read. -/
def jarIn? (file : Option ByteArray) : Option Jar :=
  file.bind fun bytes => (String.fromUTF8? bytes).bind fun text => (parseJar text).toOption

theorem jarIn?_text (text : String) : jarIn? (some text.toUTF8) = (parseJar text).toOption := by
  rw [jarIn?, Option.bind_some, Tree.fromUTF8?_eq_some_iff.mpr rfl, Option.bind_some]

theorem jarIn?_eq_jarAt {tree : Tree} {path : Path} (hreaches : tree.Reaches path) :
    jarIn? (tree.fileAt? (Path.place path)) = jarAt path tree := by
  unfold jarAt
  cases htext : tree.text? path with
  | some text =>
    rw [(Spot.text?_eq_some_iff.mp htext).fileAt?, jarIn?_text, Option.bind_some]
  | none =>
    cases hfile : tree.fileAt? (Path.place path) with
    | none => rfl
    | some content =>
      have hread := Tree.read_eq_ok_iff.mpr (hreaches content hfile)
      rw [jarIn?, Option.bind_some, Option.bind_none]
      cases hdecoded : String.fromUTF8? content with
      | none => rfl
      | some text =>
        rw [Tree.text?, Tree.readText, hread] at htext
        simp [bind, Except.bind, hdecoded, pure, Except.pure, Except.toOption] at htext

namespace Store

variable {store : Store} {site : String} {newer : Jar} {disk : Disk}

/-- The file holds what the save makes of the cookies that were found. -/
def Updated (store : Store) (site : String) (newer : Jar) (disk after : Disk) : Prop :=
  ∃ stored saved, (jarAt (store.pathFor site) disk.tree).getD .empty = stored ∧
    (disk.tree.Reaches (store.pathFor site) →
      (jarIn? (disk.tree.fileAt? (store.place site))).getD .empty = stored) ∧
    stored.Saved newer disk.now saved ∧ jarIn? (after.tree.fileAt? (store.place site)) = some saved

abbrev Outcome (store : Store) (site : String) (newer : Jar) (disk : Disk) :
    Except FlowError Unit → Disk → Prop :=
  Ends (store.temporaryFor site) (store.pathFor site) disk (store.Updated site newer disk)

theorem aside_temporaryFor (store : Store) (site : String) :
    (store.temporaryFor site).Aside (store.pathFor site) := Path.aside_withExtension _

/-- The cookies in the text that was read, if it has any that can be read. -/
def decode (path : Path) : Except IoError String → Except FlowError (Option Jar)
  | .ok text => .ok (parseJar text).toOption
  | .error .notFound => .ok none
  | .error e => .error (.io (path ++ ": " ++ e.message))

theorem read_eq (store : Store) (site : String) : store.read site =
    do return decode (store.pathFor site) (← Filing.readText (store.pathFor site)) := by
  unfold read
  refine bind_congr fun answer => ?_
  rcases answer with e | text
  · cases e <;> rfl
  · rfl

theorem exists_decode_error (path : Path) {e : IoError} (he : e ≠ .notFound) :
    ∃ e', decode path (.error e) = .error e' := by
  cases e <;> first | exact ⟨_, rfl⟩ | exact absurd rfl he

/-- What a save does with the cookies that were read. -/
def finish (store : Store) (site : String) (newer : Jar) :
    Except FlowError (Option Jar) → Filing (Except FlowError Unit)
  | .error e => return .error e
  | .ok stored => do
    let now ← Filing.now
    let merged := merge (stored.getD .empty) newer (Binary64.ofNat now)
    let written ← Filing.replace (some store.directory) (store.temporaryFor site)
      (store.pathFor site) merged.toValue.pretty
    return written.mapError fun e => .io e.message

theorem save_eq (store : Store) (site : String) (newer : Jar) : store.save site newer =
    Filing.holding site (do store.finish site newer (← store.read site)) := by
  unfold save
  congr 1

theorem careful_save (store : Store) (site : String) (newer : Jar) :
    Careful (Path.place (store.pathFor site)) (store.save site newer) := by
  rw [save_eq, read_eq]
  refine Careful.holding (((careful_readText _).bind fun _ => careful_pure _).bind
    fun found => ?_) _
  cases found with
  | error e => exact careful_pure _
  | ok stored =>
    refine careful_now.bind fun now => ?_
    exact (careful_replace (store.aside_temporaryFor site) _ _).bind fun _ => careful_pure _

theorem meets_finish {stored : Option Jar} (hnewer : newer.IsFinite)
    (hstored : stored = jarAt (store.pathFor site) disk.tree) :
    Meets (store.Outcome site newer disk) (store.finish site newer (.ok stored)) disk := by
  have hmerged : (merge (stored.getD .empty) newer (Binary64.ofNat disk.now)).IsFinite :=
    isFinite_merge
      (isFinite_getD fun jar hjar => isFinite_of_jarAt (hstored.symm.trans hjar)) hnewer _
  refine meets_bind
    (meets_now (meets_bind ((meets_replace (store.aside_temporaryFor site) _).mono ?_)))
  rintro (e | _) after hreplaced
  · exact ⟨fun _ _ => hreplaced, nofun⟩
  · obtain ⟨hholds, hgone⟩ := hreplaced
    refine ⟨nofun, fun _ _ => ⟨⟨stored.getD .empty, _, by rw [← hstored], fun hreaches => ?_,
      saved_merge _ newer disk.now, ?_⟩, hgone⟩⟩
    · rw [place, jarIn?_eq_jarAt hreaches, hstored]
    · rw [place, hholds.fileAt?, jarIn?_text, parseJar_pretty hmerged]
      rfl

/-- What is read is what the file holds, if reading does not fail. -/
theorem meets_read {Q : Except FlowError (Option Jar) → Disk → Prop}
    (hok : Q (.ok (jarAt (store.pathFor site) disk.tree)) disk) (herror : ∀ e, Q (.error e) disk) :
    Meets Q (store.read site) disk := by
  rw [read_eq]
  refine meets_bind (meets_readText ?_ fun e he => ?_)
  · have hdecoded :
        Q (decode (store.pathFor site) (disk.tree.readText (store.pathFor site))) disk := by
      rw [jarAt, Tree.text?] at hok
      cases hread : disk.tree.readText (store.pathFor site) with
      | ok text =>
        rw [hread] at hok
        exact hok
      | error e =>
        rw [hread] at hok
        by_cases he : e = .notFound
        · subst he
          exact hok
        · obtain ⟨e', he'⟩ := exists_decode_error (store.pathFor site) he
          rw [he']
          exact herror e'
    exact hdecoded
  · obtain ⟨e', he'⟩ := exists_decode_error (store.pathFor site) he
    have hdecoded : Q (decode (store.pathFor site) (.error e)) disk := by
      rw [he']
      exact herror e'
    exact hdecoded

/-- Whatever goes wrong, a save that succeeds is in the file, and one that fails is not. -/
theorem meets_save (hnewer : newer.IsFinite) (disk : Disk) :
    Meets (store.Outcome site newer disk) (store.save site newer) disk := by
  rw [save_eq]
  exact meets_holding (meets_bind (meets_read (meets_finish hnewer rfl) fun e => ends_error e))

/-- A save that nobody disturbs and that succeeds is in the file. -/
theorem updated_of_run (hnewer : newer.IsFinite)
    (hok : (Disk.run (store.save site newer) disk).1.isOk = true) :
    store.Updated site newer disk (Disk.run (store.save site newer) disk).2 := by
  obtain ⟨steps, hsteps⟩ := exists_leads_run (store.save site newer) disk
  have hends := hsteps.meets (meets_save hnewer disk)
  cases hrun : (Disk.run (store.save site newer) disk).1 with
  | ok a => exact (hends.succeeded a hrun).1
  | error e =>
    rw [hrun] at hok
    cases hok

/-- A save of cookies is atomic. -/
theorem atomic_save (hnewer : newer.IsFinite) (disk : Disk) :
    Atomic (store.save site newer) (store.temporaryFor site) (store.pathFor site) disk
      (store.Updated site newer disk) :=
  atomic_of_meets (store.careful_save site newer) (meets_save hnewer disk)

end Store

end Jobflow.Cookie
