import Jobflow.Browser.Exchange
import Jobflow.Proofs.Cookie.Faults

/-!
Cookies out of one browser and into the next. What a browser reports is stored, merged into an
empty file, read from it again and made into parameters: each cookie comes back in its place and
as it was, but for an expiry so far away that its text is read as a neighbour.
-/

namespace Jobflow.Browser

open Jobflow.Cookie (Cookie Jar Store jarAt)
open Jobflow.Decimal (Binary64)
open Jobflow.Files

/-! ### Rules for other sites -/

theorem parse?_name (rule : SameSite) : SameSite.parse? rule.name = some rule := by
  cases rule <;> decide

/-! ### What a cookie becomes -/

/-- The parameter that would put the cookie back as it is: without a path that is empty, and
without an expiry if the cookie ends with its session or has a negative one. -/
def LiveCookie.parameter (c : LiveCookie) : CookieParameter where
  name := c.name
  value := c.value
  domain := c.domain
  path := unlessEmpty c.path
  secure := c.secure
  httpOnly := c.httpOnly
  sameSite := c.sameSite
  expires := if c.session || c.expires.lt Binary64.zero then none else some c.expires

/-- A parameter puts the cookie back as its file has it: the expiry is the one that is read from its
text. Whole seconds up to 1801439850948198 are read as they are, and up to 53 binary digits at most
one second away. -/
structure LiveCookie.ComesBack (c : LiveCookie) (p : CookieParameter) : Prop where
  members : p = { c.parameter with expires := c.parameter.expires.map Json.reread }
  exact : ∀ seconds, c.parameter.expires = some (.ofNat seconds) →
    seconds ≤ Json.greatestSteady → p = c.parameter
  near : ∀ seconds, c.parameter.expires = some (.ofNat seconds) → seconds < 2 ^ 53 →
    ∃ back, p.expires = some back ∧ back.negative = false ∧ |back.magnitude - seconds| ≤ 1
  unset : c.parameter.expires = none → p = c.parameter

section
variable {c : LiveCookie}

theorem expires_stored (c : LiveCookie) : c.stored.expires = c.parameter.expires := by
  have horder : Binary64.zero.le c.expires = !c.expires.lt Binary64.zero := by
    simp only [Binary64.le, Binary64.lt, ← not_le, decide_not, Bool.not_not]
  simp only [LiveCookie.stored, LiveCookie.parameter, horder]
  cases c.session <;> cases c.expires.lt Binary64.zero <;> rfl

/-- A stored cookie that is read from its file is put back with the expiry that is read. -/
theorem restored?_reread (hdomain : c.domain ≠ "") : restored? c.stored.reread =
    some { c.parameter with expires := c.parameter.expires.map Json.reread } := by
  have hsome : c.stored.domain = some c.domain := if_neg hdomain
  have hrule : (c.sameSite.map SameSite.name).bind SameSite.parse? = c.sameSite := by
    cases hsite : c.sameSite with
    | none => rfl
    | some rule => exact parse?_name rule
  rw [← expires_stored]
  simp only [restored?, Cookie.reread, hsome, Option.map_some]
  exact congrArg some (by simp only [LiveCookie.stored, LiveCookie.parameter, hrule])

theorem comesBack_reread (c : LiveCookie) :
    c.ComesBack { c.parameter with expires := c.parameter.expires.map Json.reread } where
  members := rfl
  exact := by
    intro seconds hexpires hle
    have hsame : c.parameter.expires.map Json.reread = c.parameter.expires := by
      rw [hexpires, Option.map_some, Json.reread_natural hle]
    rw [hsame]
  near := by
    intro seconds hexpires hlt
    obtain ⟨hsign, hnear⟩ := Json.reread_near hlt
    exact ⟨_, by rw [hexpires]; rfl, hsign, hnear⟩
  unset := by
    intro hnone
    have hsame : c.parameter.expires.map Json.reread = c.parameter.expires := by
      rw [hnone, Option.map_none]
    rw [hsame]

theorem isFinite_stored (h : c.session = false → c.expires.IsFinite) : c.stored.IsFinite := by
  intro x hx
  rw [expires_stored] at hx
  simp only [LiveCookie.parameter] at hx
  split at hx
  · cases hx
  · next hlasting =>
    obtain rfl := Option.some.inj hx
    rw [Bool.or_eq_true, not_or] at hlasting
    exact h (Bool.eq_false_of_not_eq_true hlasting.1)

end

/-! ### The cycle -/

section
variable {cookies : List LiveCookie} {store : Store} {site : String} {disk : Disk}

theorem restored_reread (hdomains : ∀ c ∈ cookies, c.domain ≠ "") :
    List.Forall₂ LiveCookie.ComesBack cookies (restored (exported cookies).reread) := by
  induction cookies with
  | nil => exact .nil
  | cons c rest ih =>
    obtain ⟨hdomain, hrest⟩ := List.forall_mem_cons.mp hdomains
    have hfirst : restored (exported (c :: rest)).reread =
        { c.parameter with expires := c.parameter.expires.map Json.reread } ::
          restored (exported rest).reread :=
      List.filterMap_cons_some (restored?_reread hdomain)
    rw [hfirst]
    exact .cons (comesBack_reread c) (ih hrest)

theorem isFinite_exported (h : ∀ c ∈ cookies, c.session = false → c.expires.IsFinite) :
    (exported cookies).IsFinite := by
  intro stored hstored
  obtain ⟨c, hc, rfl⟩ := List.mem_map.mp hstored
  exact isFinite_stored (h c hc)

theorem fresh_exported {now : Nat} (h : ∀ c ∈ cookies, c.stored.isExpired (.ofNat now) = false) :
    (exported cookies).fresh (.ofNat now) = exported cookies := by
  refine congrArg Jar.mk (List.filter_eq_self.mpr fun stored hstored => ?_)
  obtain ⟨c, hc, rfl⟩ := List.mem_map.mp hstored
  rw [h c hc, Bool.not_false]

theorem fresh_reread {now : Nat}
    (h : ∀ c ∈ cookies, c.stored.reread.isExpired (.ofNat now) = false) :
    (exported cookies).reread.fresh (.ofNat now) = (exported cookies).reread := by
  refine congrArg Jar.mk (List.filter_eq_self.mpr fun stored hstored => ?_)
  obtain ⟨old, hold, rfl⟩ := List.mem_map.mp hstored
  obtain ⟨c, hc, rfl⟩ := List.mem_map.mp hold
  rw [h c hc, Bool.not_false]

section
variable (hfinite : ∀ c ∈ cookies, c.session = false → c.expires.IsFinite)
  (hmissing : disk.tree.readText (store.pathFor site) = .error .notFound)
  (hwrites : Disk.WritesSucceed (store.save site (exported cookies)) disk) (later : Nat)
  (hsaved : ∀ c ∈ cookies, c.stored.isExpired (.ofNat disk.now) = false)
  (hloaded : ∀ c ∈ cookies, c.stored.reread.isExpired (.ofNat later) = false)
include hfinite hmissing hwrites hsaved hloaded

/-- What is loaded after the cookies were saved for a site that had no file. -/
theorem run_load_of_save :
    ∃ after, Disk.run (store.save site (exported cookies)) disk = (.ok (), after) ∧
      (Disk.run (store.load site) { after with now := later }).1 =
        .ok (some (exported cookies).reread) := by
  obtain ⟨after, hrun, htext⟩ := Cookie.run_save (Cookie.run_readJar_of_notFound hmissing) hwrites
  refine ⟨after, hrun, ?_⟩
  have hmerged : Cookie.merge Jar.empty (exported cookies) (.ofNat disk.now) = exported cookies :=
    fresh_exported hsaved
  rw [Option.getD_none, hmerged] at htext
  have hlater : ({ after with now := later } : Disk).tree.readText (store.pathFor site) =
      .ok (exported cookies).toValue.pretty := htext
  rw [Cookie.run_load,
    Cookie.run_readJar_of_text hlater (Cookie.parseJar_pretty (isFinite_exported hfinite))]
  exact congrArg (fun jar => Except.ok (some jar)) (fresh_reread hloaded)

/-- Cookies that are saved for a site without a file, and loaded again, are put back one by one. -/
theorem cookies_come_back (hdomains : ∀ c ∈ cookies, c.domain ≠ "") :
    ∃ after jar, Disk.run (store.save site (exported cookies)) disk = (.ok (), after) ∧
      (Disk.run (store.load site) { after with now := later }).1 = .ok (some jar) ∧
      List.Forall₂ LiveCookie.ComesBack cookies (restored jar) := by
  obtain ⟨after, hsave, hload⟩ := run_load_of_save hfinite hmissing hwrites later hsaved hloaded
  exact ⟨after, _, hsave, hload, restored_reread hdomains⟩

end

end

/-! ### Two cookies, and one too many seconds -/

def jarStore : Store := ⟨"Cookies"⟩

def emptyDisk : Disk := ⟨[], 1700000000⟩

theorem notFound_emptyDisk :
    emptyDisk.tree.readText (jarStore.pathFor "jobs.example") = .error .notFound := rfl

/-- Whatever is saved, every write succeeds there. -/
theorem writesSucceed_emptyDisk (newer : Jar) :
    Disk.WritesSucceed (jarStore.save "jobs.example" newer) emptyDisk :=
  ⟨trivial, trivial, trivial, rfl, rfl, rfl, rfl, trivial, trivial⟩

/-- A cookie of a session, and one that lasts until 2100. -/
def twoCookies : List LiveCookie :=
  [⟨"sid", "1", ".jobs.example", "", .ofInt (-1), true, true, true, none⟩,
    ⟨"lang", "en", "jobs.example", "/", .ofNat 4102444800, false, true, false, some .lax⟩]

theorem cookies_come_back_two :
    (∀ c ∈ twoCookies, c.domain ≠ "") ∧
      emptyDisk.tree.readText (jarStore.pathFor "jobs.example") = .error .notFound ∧
      ∃ after jar,
        Disk.run (jarStore.save "jobs.example" (exported twoCookies)) emptyDisk = (.ok (), after) ∧
        (Disk.run (jarStore.load "jobs.example") { after with now := 1700003600 }).1 =
          .ok (some jar) ∧
        List.Forall₂ LiveCookie.ComesBack twoCookies (restored jar) := by
  have hfinite : ∀ c ∈ twoCookies, c.session = false → c.expires.IsFinite := by
    simp only [twoCookies, List.forall_mem_cons, List.not_mem_nil, false_implies, implies_true,
      and_true]
    exact ⟨nofun, fun _ => Binary64.isFinite_ofNat _⟩
  have hsaved : ∀ c ∈ twoCookies, c.stored.isExpired (.ofNat emptyDisk.now) = false := by
    decide +kernel
  have hloaded : ∀ c ∈ twoCookies, c.stored.reread.isExpired (.ofNat 1700003600) = false := by
    decide +kernel
  exact ⟨by decide, notFound_emptyDisk, cookies_come_back hfinite notFound_emptyDisk
    (writesSucceed_emptyDisk _) 1700003600 hsaved hloaded (by decide)⟩

/-- A cookie whose expiry is the first whole second that is not read back as it is. -/
def farLive : LiveCookie :=
  ⟨"a", "1", "jobs.example", "/", .ofNat (Json.greatestSteady + 1), false, true, false, some .lax⟩

/-- It is not past at any time, all writes succeed, and yet it is not put back as it was. -/
theorem far_expiry_changes :
    farLive.domain ≠ "" ∧ Json.greatestSteady + 1 < 2 ^ 53 ∧
      farLive.stored.isExpired (.ofNat emptyDisk.now) = false ∧
      farLive.stored.isExpired (.ofNat 1700003600) = false ∧
      emptyDisk.tree.readText (jarStore.pathFor "jobs.example") = .error .notFound ∧
      ∃ after jar,
        Disk.run (jarStore.save "jobs.example" (exported [farLive])) emptyDisk = (.ok (), after) ∧
        (Disk.run (jarStore.load "jobs.example") { after with now := 1700003600 }).1 =
          .ok (some jar) ∧
        restored jar ≠ [farLive.parameter] := by
  have hfinite : farLive.expires.IsFinite := Binary64.isFinite_ofNat (Json.greatestSteady + 1)
  have hsaved : farLive.stored.isExpired (.ofNat emptyDisk.now) = false := by decide +kernel
  have hloaded : farLive.stored.isExpired (.ofNat 1700003600) = false := by decide +kernel
  have hreread : farLive.stored.reread.isExpired (.ofNat 1700003600) = false := by decide +kernel
  have hchanged : restored (exported [farLive]).reread ≠ [farLive.parameter] := by decide +kernel
  have hsavedAll : ∀ c ∈ [farLive], c.stored.isExpired (.ofNat emptyDisk.now) = false := by
    simpa using hsaved
  obtain ⟨after, hsave, hload⟩ := run_load_of_save (by simpa using fun _ => hfinite)
    notFound_emptyDisk
    (writesSucceed_emptyDisk _) 1700003600 hsavedAll (by simpa using hreread)
  exact ⟨by decide, by decide, hsaved, hloaded, notFound_emptyDisk, after, _, hsave, hload,
    hchanged⟩

end Jobflow.Browser
